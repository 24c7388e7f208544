import CallTargets.Proofs.Symbol.Template

/-!
# Constructors and destructors of classes with template arguments

The path of a class is printed component by component, each with its template arguments if it has
any (`ClassPath.Prints`); reading it follows its components (`ClassPath.loops_code`). A constructor
or destructor is recognised by comparing its printed name with what is left of the printed path when
everything from the first angle bracket on and then everything up to the last separator is dropped.
So `ClassPath.isStructor_iff` says that it is recognised if and only if no component before the last
one has template arguments, or the one that has them bears the name of the class, unless the name
of the class looks like the call operator.
-/

namespace CallTargets.Symbol

open Scan

variable {cursor : Cursor} {tail cs : List Char} {l : Level}

/-! ## Paths -/

theorem takeWhile_angle (h : '<' ∉ cs) (tail : List Char) :
    (cs ++ '<' :: tail).takeWhile (· ≠ '<') = cs := by
  rw [List.takeWhile_append_of_pos (ne_angle h)]
  simp

/-- A component of the path of a class: an identifier, with or without template arguments. -/
structure Component where
  name : Identifier
  args : List Char
  spelled : Spelled .suffix args

def Component.Prints (x : Component) (cs : List Char) : Prop :=
  if x.args.isEmpty then cs = x.name.chars else ∃ args, IsArgs args ∧ cs = x.name.chars ++ args

namespace Component.Prints

variable {x : Component}

theorem isComponent (h : x.Prints cs) : IsComponent x.name cs := by
  unfold Component.Prints at h
  split at h
  · exact .inl h
  · exact .inr h

theorem takeWhile_eq (h : x.Prints cs) : cs.takeWhile (· ≠ '<') = x.name.chars := by
  have hnot : '<' ∉ x.name.chars := x.name.notMem (by decide)
  rcases h.isComponent with rfl | ⟨args, ⟨body, -, rfl⟩, rfl⟩
  · exact takeWhile_of_notMem hnot
  · exact takeWhile_angle hnot _

theorem mem_iff (h : x.Prints cs) : '<' ∈ cs ↔ x.args.isEmpty = false := by
  have hnot : '<' ∉ x.name.chars := x.name.notMem (by decide)
  unfold Component.Prints at h
  cases hargs : x.args.isEmpty with
  | true =>
    rw [hargs, if_pos rfl] at h
    simp [h, hnot]
  | false =>
    rw [hargs, if_neg (by decide)] at h
    obtain ⟨args, ⟨body, -, rfl⟩, rfl⟩ := h
    simp

end Component.Prints

inductive ClassPath where
  | top (x : Component)
  | within (outer : ClassPath) (x : Component)

namespace ClassPath

def code : ClassPath → List Char
  | top x => x.name.code ++ x.args
  | within outer x => outer.code ++ (x.name.code ++ x.args)

def last : ClassPath → Identifier
  | top x | within _ x => x.name

/-- Some component has template arguments. -/
def isGeneric : ClassPath → Bool
  | top x => !x.args.isEmpty
  | within outer x => outer.isGeneric || !x.args.isEmpty

/-- The names up to the first template arguments. -/
def bare : ClassPath → ScopedName
  | top x => .top x.name
  | within outer x => if outer.isGeneric then outer.bare else outer.bare.within x.name

inductive Prints : ClassPath → List Char → Prop where
  | top {x : Component} {cs : List Char} (hx : x.Prints cs) : Prints (.top x) cs
  | within {outer : ClassPath} {x : Component} {scope cs : List Char} (houter : Prints outer scope)
      (hx : x.Prints cs) : Prints (.within outer x) (scope ++ ':' :: ':' :: cs)

namespace Prints

variable {p : ClassPath} {text : List Char}

theorem isScope (h : p.Prints text) : IsScope text := by
  induction h with
  | top hx => exact .top hx.isComponent
  | within houter hx ih => exact ih.within hx.isComponent

theorem mem_iff (h : p.Prints text) : '<' ∈ text ↔ p.isGeneric = true := by
  induction h with
  | top hx => simp [hx.mem_iff, isGeneric]
  | within houter hx ih => simp [hx.mem_iff, ih, isGeneric]

theorem takeWhile_eq (h : p.Prints text) : text.takeWhile (· ≠ '<') = p.bare.text.toList := by
  induction h with
  | top hx =>
    rw [hx.takeWhile_eq, bare, ScopedName.text, Identifier.toList_text]
  | @within outer x scope cs houter hx ih =>
    cases hgeneric : outer.isGeneric with
    | true =>
      obtain ⟨before, args, rfl, hbefore⟩ := List.eq_append_cons_of_mem (houter.mem_iff.2 hgeneric)
      rw [takeWhile_angle hbefore] at ih
      rw [bare, hgeneric, if_pos rfl, ← ih, List.append_assoc, List.cons_append,
        takeWhile_angle hbefore]
    | false =>
      have hscope : '<' ∉ scope := by
        intro hmem
        rw [houter.mem_iff.1 hmem] at hgeneric
        cases hgeneric
      rw [takeWhile_of_notMem hscope] at ih
      rw [bare, hgeneric, if_neg (by decide), ScopedName.toList_text_within, ← ih,
        List.takeWhile_append_of_pos (ne_angle hscope), ← hx.takeWhile_eq]
      simp

/-- The class without namespaces and template arguments is the last name before the first template
arguments. -/
theorem bareOwner_eq (h : p.Prints text) (name : String) (thunk : Option ThunkKind) :
    Method.bareOwner { owner := String.ofList text, name, thunk } = p.bare.last.text := by
  rw [Method.bareOwner, withoutArgs, String.toList_ofList, h.takeWhile_eq, String.ofList_toList,
    ScopedName.withoutScope_text]

theorem ne_nil (h : p.Prints text) : text ≠ [] := by
  cases h with
  | @top x cs hx =>
    obtain ⟨c, cs', hchars, -⟩ := x.name.exists_chars_eq
    intro hnil
    rw [← hx.takeWhile_eq, hnil] at hchars
    cases hchars
  | within houter hx => simp

theorem isEmpty_eq_false {text : String} (h : p.Prints text.toList) : text.isEmpty = false := by
  have hnil := h.ne_nil
  rw [ne_eq, String.toList_eq_nil_iff] at hnil
  simpa using hnil

end Prints

/-! ## Readers -/

theorem loops_printed {n : Nat} (x : Component) {path : Path} {Q : Path → Cursor → Prop}
    (h : Balanced path.text.toList) (hcursor : cursor.Faces (x.name.code ++ (x.args ++ tail)))
    (hnext : ∀ path' cursor' cs, cursor'.Faces tail → x.Prints cs → path'.last = x.name.text →
      path'.text.toList =
        (if path.text.isEmpty then cs else path.text.toList ++ ':' :: ':' :: cs) →
      Loops (nestedRound (Level.of n)) path' cursor' Q) :
    Loops (nestedRound (Level.of n)) path cursor Q := by
  refine loops_component x.name h hcursor fun cursor' hcursor' => ?_
  have hbalanced := Path.balanced_extend h x.name
  have htext (cs : List Char) : (path.extend x.name).text.toList ++ cs =
      if path.text.isEmpty then x.name.chars ++ cs
      else path.text.toList ++ ':' :: ':' :: (x.name.chars ++ cs) := by
    unfold Path.extend
    dsimp only
    split <;> simp [Identifier.toList_text]
  rcases x.spelled.reads with hargs | ⟨hfirst, hargs⟩
  · rw [hargs, List.nil_append] at hcursor'
    refine hnext _ cursor' x.name.chars hcursor' ?_ rfl ?_
    · rw [Component.Prints, hargs]
      rfl
    · simpa using htext []
  · refine loops_args hfirst hargs hbalanced hcursor' fun shapes cursor' hcursor' hshapes => ?_
    refine hnext _ cursor' (x.name.chars ++ (Shape.renderArgs shapes).toList) hcursor' ?_ rfl ?_
    · obtain ⟨cs, hcs⟩ := hfirst
      rw [Component.Prints, hcs]
      exact ⟨_, hshapes, rfl⟩
    · rw [String.toList_append, htext]

theorem loops_code (p : ClassPath) {n : Nat} {Q : Path → Cursor → Prop}
    (hcursor : cursor.Faces (p.code ++ tail))
    (hnext : ∀ path cursor', cursor'.Faces tail → p.Prints path.text.toList →
      path.last = p.last.text → Loops (nestedRound (Level.of n)) path cursor' Q) :
    Loops (nestedRound (Level.of n)) {} cursor Q := by
  induction p generalizing cursor tail with
  | top x =>
    rw [code, List.append_assoc] at hcursor
    refine loops_printed x balanced_emptyPath hcursor ?_
    intro path' cursor' cs hcursor' hprints hlast htext
    refine hnext path' cursor' hcursor' ?_ hlast
    rw [htext]
    exact .top hprints
  | within outer x ih =>
    rw [code, List.append_assoc, List.append_assoc] at hcursor
    refine ih hcursor fun path cursor' hcursor' houter _ => ?_
    refine loops_printed x houter.isScope.balanced hcursor' ?_
    intro path' cursor' cs hcursor' hprints hlast htext
    refine hnext path' cursor' hcursor' ?_ hlast
    rw [htext, houter.isEmpty_eq_false]
    exact houter.within hprints

/-- The symbol of a member behind its mark. Its parameters, of builtin types, may be left out. -/
def symbolCode (p : ClassPath) (m : Member) (params : List Builtin) : List Char :=
  'N' :: (p.code ++ (m.code ++ 'E' :: params.flatMap fun b => b.spelling.1))

def symbol (p : ClassPath) (m : Member) (params : List Builtin) : String :=
  String.ofList ('_' :: 'Z' :: p.symbolCode m params)

theorem begins_code (p : ClassPath) : Begins (fun c => c = 'S' || c.isDigit) p.code := by
  induction p with
  | top x => exact (x.name.begins_code.mono fun c hc => by simp [hc]).append _
  | within outer x ih => exact ih.append _

theorem yields_name (p : ClassPath) (m : Member) (hsize : m.code.length < 2 ^ 63) (n : Nat)
    (hcursor : cursor.Faces ('N' :: (p.code ++ (m.code ++ 'E' :: tail)))) :
    Yields (readName (Level.of n)) cursor fun name cursor' => cursor'.Faces tail ∧
      ∃ scope, p.Prints scope ∧ name = { text := String.ofList scope ++ "::" ++ m.text p.last
                                         isSpecial := m.isSpecial } := by
  unfold readName
  refine Yields.step (run_rest cursor) ?_
  rw [hcursor.rest_eq]
  refine yields_nestedName (p.begins_code.append _) hcursor fun cursor' hcursor' => ?_
  refine p.loops_code hcursor' fun path cursor' hcursor' hpath hlast => ?_
  have hround := m.run_nestedRound (l := Level.of n) p.last hpath.isEmpty_eq_false hlast hsize
    hcursor'.rest_eq
  refine Loops.of_round (Yields.of_run hround ?_)
  refine loops_end (hcursor'.facing _) fun cursor' hcursor' => ⟨hcursor', _, hpath, ?_⟩
  rw [String.ofList_toList]

theorem atEnd_flatMap (params : List Builtin) :
    atEnd (params.flatMap fun b => b.spelling.1) = params.isEmpty := by
  cases params with
  | nil => rfl
  | cons b params =>
    rw [List.flatMap_cons]
    exact atEnd_of_begins ((Dictionary.begins_type [] (.builtin b)).append _)

theorem loops_params {n : Nat} (params : List Builtin) (items : List Shape)
    (hcursor : cursor.Faces (params.flatMap fun b => b.spelling.1)) :
    Loops (argumentRound (Level.of (n + 1))) items cursor fun shapes cursor' =>
      cursor'.Faces [] ∧ shapes = items.reverse ++ params.map fun b => .name b.spelling.2 := by
  induction params generalizing cursor items with
  | nil =>
    refine Loops.of_round (Yields.step (run_rest cursor) ?_)
    rw [hcursor.rest_eq]
    exact Yields.pure ⟨hcursor, by simp⟩
  | cons b params ih =>
    refine Loops.of_round (Yields.step (run_rest cursor) ?_)
    rw [hcursor.rest_eq, atEnd_flatMap]
    have htype := run_readType_builtin (l := Level.of n) b hcursor.rest_eq
    refine Yields.step htype (Yields.pure ?_)
    have hrest := ih (.name b.spelling.2 :: items) (hcursor.facing _)
    simp only [List.reverse_cons, List.append_assoc, List.singleton_append] at hrest
    exact hrest

theorem of_demangle {code : List Char} {P : String → Prop}
    (hread : Yields (Level.of maxNesting).encoding { rest := code } fun text cursor =>
      cursor.rest = [] ∧ P text) {text : String}
    (htext : demangle (String.ofList ('_' :: 'Z' :: code)) = some text) : P text := by
  have hlead : Text.afterLead "_Z".toList ('_' :: 'Z' :: code) = some code :=
    Text.afterLead_self ['_', 'Z'] code
  unfold demangle at htext
  simp only [String.toList_ofList, hlead, Option.bind_eq_bind, Option.bind_some] at htext
  obtain ⟨⟨text', cursor⟩, hrun, hend⟩ := Option.bind_eq_some_iff.1 htext
  obtain ⟨hrest, hP⟩ := hread text' cursor hrun
  rw [hrest] at hend
  cases hend
  exact hP

/-- Parameters in words, if they are not left out. -/
def paramSuffix (params : List Builtin) : String :=
  if params.isEmpty then "" else "(" ++ Builtin.paramText params ++ ")"

theorem demangle_symbol (p : ClassPath) (m : Member) (hsize : m.code.length < 2 ^ 63)
    (params : List Builtin) {text : String} (htext : demangle (p.symbol m params) = some text) :
    ∃ scope, p.Prints scope ∧
      text = String.ofList scope ++ "::" ++ m.text p.last ++ paramSuffix params := by
  refine of_demangle (P := fun text => ∃ scope, p.Prints scope ∧
    text = String.ofList scope ++ "::" ++ m.text p.last ++ paramSuffix params) ?_ htext
  change Yields (readEncoding (Level.of 255)) _ _
  have hcursor : Cursor.Faces { rest := p.symbolCode m params } (p.symbolCode m params) :=
    ⟨rfl, by simp⟩
  rw [readEncoding]
  refine Yields.step (run_peek _) ?_
  change Yields (do
    let name ← readName (Level.of 254)
    _) _ _
  refine Yields.bind ((p.yields_name m hsize 254 hcursor).mono ?_)
  rintro _ cursor' ⟨hcursor', scope, hscope, rfl⟩
  refine Yields.step (run_rest cursor') ?_
  rw [hcursor'.rest_eq, atEnd_flatMap]
  cases params with
  | nil =>
    refine Yields.pure ⟨hcursor'.rest_eq, scope, hscope, ?_⟩
    simp [paramSuffix]
  | cons b params =>
    refine Yields.step rfl ?_
    refine Yields.bind ((loops_params (b :: params) [] hcursor').yields.mono ?_)
    rintro _ cursor'' ⟨hcursor'', rfl⟩
    refine Yields.pure ⟨hcursor''.rest_eq, scope, hscope, ?_⟩
    have hquals : qualifierText [] = "" := rfl
    simp [paramSuffix, Builtin.paramText, hquals, String.append_assoc]

/-! ## Constructors and destructors -/

/-- A member is taken apart if its parameters are found; if they are not, they are taken for a part
of its name. -/
theorem ofSymbol?_of_accepted (p : ClassPath) (m : Member)
    (hparen : isCovered '(' 0 (m.text p.last).toList = true) (hsize : m.code.length < 2 ^ 63)
    (params : List Builtin) (haccepted : (demangle (p.symbol m params)).isSome = true) :
    ∃ scope, p.Prints scope ∧ Method.ofSymbol? (p.symbol m params) =
      some { owner := String.ofList scope
             name := if params = [] ∨ isCut (m.text p.last).toList (Builtin.paramText params).toList
               then m.text p.last else m.text p.last ++ paramSuffix params
             thunk := none } := by
  obtain ⟨text, htext⟩ := Option.isSome_iff_exists.1 haccepted
  obtain ⟨scope, hscope, rfl⟩ := p.demangle_symbol m hsize params htext
  refine ⟨scope, hscope, ?_⟩
  have hcolon := (m.text_isCovered p.last).1
  rw [Method.ofSymbol?, htext, Option.map_some]
  cases params with
  | nil =>
    have hlist : (String.ofList scope ++ "::" ++ m.text p.last ++ paramSuffix []).toList =
        scope ++ ':' :: ':' :: (m.text p.last).toList := by
      simp [paramSuffix]
    have hwhole : beforeParams (':' :: ':' :: scope.reverse) 0 (m.text p.last).toList =
        scope ++ ':' :: ':' :: (m.text p.last).toList := by
      rw [beforeParams_of_isCovered hparen]
      simp
    rw [Method.ofPrinted_eq hscope.isScope hcolon hwhole hlist, String.ofList_toList,
      if_pos (.inl rfl)]
  | cons b params =>
    have hlist :
        (String.ofList scope ++ "::" ++ m.text p.last ++ paramSuffix (b :: params)).toList =
          scope ++ ':' :: ':' :: ((m.text p.last).toList ++
            '(' :: (Builtin.paramText (b :: params)).toList ++ [')']) := by
      simp [paramSuffix]
    cases hcut : isCut (m.text p.last).toList (Builtin.paramText (b :: params)).toList with
    | true =>
      rw [Method.ofPrinted_of_isCut hscope.isScope hcolon hparen hlist
        (fun _ => Builtin.head?_paramText _) hcut, String.ofList_toList]
      simp
    | false =>
      rw [Method.ofPrinted_of_not_isCut hscope.isScope hcolon hparen hlist
        (Builtin.plain_paramText _) hcut]
      simp [paramSuffix, String.append_assoc]

end ClassPath

theorem Builtin.paramText_eq_empty_iff {params : List Builtin} (hparams : params ≠ []) :
    paramText params = "" ↔ params = [.void] := by
  obtain ⟨b, params, rfl⟩ := List.exists_cons_of_ne_nil hparams
  constructor
  · intro htext
    unfold paramText Shape.renderParams at htext
    split at htext
    case isTrue hvoid =>
      cases params with
      | nil =>
        rw [List.map_cons, List.map_nil, Shape.isVoidList, beq_iff_eq] at hvoid
        revert hvoid
        cases b <;> decide
      | cons other params => cases hvoid
    case isFalse =>
      obtain ⟨tail, htail, -⟩ := renderAll_map b params
      rw [htext, String.toList_empty] at htail
      exact absurd (List.append_eq_nil_iff.1 htail.symm).1 b.head?_spelling.1
  · intro hvoid
    rw [hvoid]
    rfl

/-- The parameters behind the name of a constructor or destructor are found unless the name ends as
that of the call operator begins and there are no parameters. -/
theorem Identifier.Names.isCut_iff {x : Identifier} {name : String} (h : x.Names name)
    (params : List Builtin) :
    (params = [] ∨ isCut name.toList (Builtin.paramText params).toList = true) ↔
      ¬ (operatorWord <:+ x.chars ∧ params = [.void]) := by
  by_cases hparams : params = []
  · simp [hparams]
  · rw [or_iff_right hparams, Symbol.isCut_iff, h.suffix_iff, String.toList_eq_nil_iff,
      Builtin.paramText_eq_empty_iff hparams]
    exact and_iff_right h.angles_eq

theorem Identifier.text_inj {x y : Identifier} : x.text = y.text ↔ x = y := by
  constructor
  · intro h
    have hchars : x.chars = y.chars := String.ofList_injective h
    cases x
    cases y
    cases hchars
    rfl
  · rintro rfl
    rfl

namespace ClassPath

/-- The name that is found for a constructor or destructor is that of the bare class if and only if
this is the class itself and the parameters are found. -/
theorem name_eq_iff (p : ClassPath) {lead : String} (hname : p.last.Names (lead ++ p.last.text))
    (params : List Builtin) :
    (if params = [] ∨ isCut (lead ++ p.last.text).toList (Builtin.paramText params).toList
      then lead ++ p.last.text else lead ++ p.last.text ++ paramSuffix params) =
        lead ++ p.bare.last.text ↔
      p.bare.last = p.last ∧ ¬ (operatorWord <:+ p.last.chars ∧ params = [.void]) := by
  rw [← hname.isCut_iff params]
  split
  case isTrue hfound =>
    rw [and_iff_left hfound, ← Identifier.text_inj, eq_comm]
    exact String.append_right_inj lead
  case isFalse hhidden =>
    refine iff_of_false ?_ fun h => hhidden h.2
    rw [String.append_assoc, String.append_right_inj]
    intro heq
    have hparams : params.isEmpty = false := by simpa using fun h => hhidden (.inl h)
    have hmem : '(' ∈ p.bare.last.text.toList := by
      rw [← heq]
      simp [paramSuffix, hparams]
    rw [Identifier.toList_text] at hmem
    exact p.bare.last.notMem (by decide) hmem

/-- A constructor is recognised if and only if its class is the one named before the first template
arguments, and its parameters are found; and so is a destructor. -/
theorem isStructor_iff (p : ClassPath) (params : List Builtin) :
    (∀ kind, (demangle (p.symbol (.constructor kind) params)).isSome = true →
      (isConstructor (p.symbol (.constructor kind) params) = true ↔
        p.bare.last = p.last ∧ ¬ (operatorWord <:+ p.last.chars ∧ params = [.void]))) ∧
    (∀ kind, (demangle (p.symbol (.destructor kind) params)).isSome = true →
      (isDestructor (p.symbol (.destructor kind) params) = true ↔
        p.bare.last = p.last ∧ ¬ (operatorWord <:+ p.last.chars ∧ params = [.void]))) := by
  have hempty : p.bare.last.text.isEmpty = false := by simpa using p.bare.last.text_ne_empty
  refine ⟨fun kind haccepted => ?_, fun kind haccepted => ?_⟩
  · have hname : p.last.Names ("" ++ p.last.text) := by
      rw [String.empty_append]
      exact p.last.names_text
    have hiff := p.name_eq_iff hname params
    rw [String.empty_append, String.empty_append] at hiff
    obtain ⟨scope, hscope, hmethod⟩ := p.ofSymbol?_of_accepted (.constructor kind)
      p.last.names_text.isCovered (by decide : 2 < 2 ^ 63) params haccepted
    rw [isConstructor, hmethod, Option.any_some, Method.isConstructor, hscope.bareOwner_eq, hempty,
      Bool.not_false, Bool.true_and, beq_iff_eq]
    exact hiff
  · have hiff := p.name_eq_iff p.last.names_tilde params
    obtain ⟨scope, hscope, hmethod⟩ := p.ofSymbol?_of_accepted (.destructor kind)
      p.last.names_tilde.isCovered (by decide : 2 < 2 ^ 63) params haccepted
    rw [isDestructor, hmethod, Option.any_some, Method.isDestructor, hscope.bareOwner_eq, hempty,
      Bool.not_false, Bool.true_and, beq_iff_eq]
    exact hiff

end ClassPath

/-- A template whose arguments are a builtin type and a class of its own namespace. -/
def Container.map : Component where
  name := ⟨"Map".toList, by decide, by decide⟩
  args := _
  spelled := .argList (.cons (.builtin .int) (.cons
    (.nested (.within (.back (@IsReference.place [] (by simp)) .noArgs)
      ⟨"List".toList, by decide, by decide⟩ .noArgs)) .nil))

def Container.path : ClassPath := .within (.top ⟨Listen.net.last, [], .noArgs⟩) map

def Container.entry : ClassPath :=
  path.within ⟨⟨"Entry".toList, by decide, by decide⟩, [], .noArgs⟩

theorem ClassPath.isStructor_iff_container :
    (demangle "_ZN3net3MapIiNS_4ListEEC2Ev").isSome = true ∧
      isConstructor "_ZN3net3MapIiNS_4ListEEC2Ev" = true ∧
      (demangle "_ZN3net3MapIiNS_4ListEED0Ev").isSome = true ∧
      isDestructor "_ZN3net3MapIiNS_4ListEED0Ev" = true := by
  have hconstructor : Container.path.symbol (.constructor .base) [.void] =
      "_ZN3net3MapIiNS_4ListEEC2Ev" := rfl
  have hdestructor : Container.path.symbol (.destructor .deleting) [.void] =
      "_ZN3net3MapIiNS_4ListEED0Ev" := rfl
  have hfirst : (demangle "_ZN3net3MapIiNS_4ListEEC2Ev").isSome = true := by decide +kernel
  have hsecond : (demangle "_ZN3net3MapIiNS_4ListEED0Ev").isSome = true := by decide +kernel
  have hclass : Container.path.bare.last = Container.path.last ∧
      ¬ (operatorWord <:+ Container.path.last.chars ∧ [Builtin.void] = [.void]) := by decide
  have hiff := Container.path.isStructor_iff [.void]
  rw [← hconstructor] at hfirst ⊢
  rw [← hdestructor] at hsecond ⊢
  exact ⟨hfirst, (hiff.1 .base hfirst).2 hclass, hsecond, (hiff.2 .deleting hsecond).2 hclass⟩

/-- The constructor and the destructor of a class inside a template are accepted and not
recognised, since the class is taken for the template. -/
theorem ClassPath.not_isStructor_entry :
    demangle (Container.entry.symbol (.constructor .complete) [.void]) =
        some "net::Map<int, net::List>::Entry::Entry()" ∧
      isConstructor (Container.entry.symbol (.constructor .complete) [.void]) = false ∧
      demangle (Container.entry.symbol (.destructor .complete) [.void]) =
        some "net::Map<int, net::List>::Entry::~Entry()" ∧
      isDestructor (Container.entry.symbol (.destructor .complete) [.void]) = false := by
  decide +kernel

end CallTargets.Symbol
