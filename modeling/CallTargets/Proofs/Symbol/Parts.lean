import CallTargets.Proofs.Symbol.Member
import CallTargets.Proofs.Symbol.Split

/-!
# The symbols of a class are taken apart

A member is printed as the path of its class, its own name and its parameters, and is taken apart
again by counting angle brackets in that text. `Member.ofSymbol?_symbol` says which name is found
for a member whose parameters are of builtin types: its own, unless brackets in it hide the
parameters or it looks like the call operator. `class_symbols_apart` says that members with ordinary
names, constructors, destructors and vtables are taken back to their parts, whatever their
parameters are.
-/

namespace CallTargets.Symbol

/-! ## Printed scopes and parameters -/

namespace ScopedName

theorem toList_text_within (s : ScopedName) (x : Identifier) :
    (s.within x).text.toList = s.text.toList ++ ':' :: ':' :: x.chars := by
  simp [ScopedName.text, Identifier.text]

theorem isScope_text (s : ScopedName) : IsScope s.text.toList := by
  induction s with
  | top x =>
    rw [ScopedName.text, Identifier.text, String.toList_ofList]
    exact .top (.inl rfl)
  | within s x ih =>
    rw [toList_text_within]
    exact ih.within (.inl rfl)

theorem withoutScope_text (s : ScopedName) : withoutScope s.text = s.last.text := by
  have hcolon (x : Identifier) : isCovered ':' 0 x.chars = true :=
    isCovered_of_notMem (x.notMem (by decide)) 0
  cases s with
  | top x =>
    have hnone := splitScope_append (hcolon x) [] none []
    rw [List.append_nil] at hnone
    rw [withoutScope, scopeParts, ScopedName.text, Identifier.text, String.toList_ofList, hnone]
    rfl
  | within s x =>
    rw [withoutScope, scopeParts, toList_text_within, s.isScope_text.splitScope_eq (hcolon x)]
    rfl

theorem notMem_text (s : ScopedName) : '<' ∉ s.text.toList := by
  induction s with
  | top x =>
    rw [ScopedName.text, Identifier.text, String.toList_ofList]
    exact x.notMem (by decide)
  | within s x ih =>
    rw [toList_text_within, List.mem_append, not_or]
    refine ⟨ih, ?_⟩
    simpa using x.notMem (by decide)

theorem withoutArgs_text (s : ScopedName) : withoutArgs s.text = s.text :=
  withoutArgs_eq_self s.notMem_text

end ScopedName

namespace Builtin

theorem plain_spelling (b : Builtin) : ∀ c ∈ b.spelling.2.toList, c ≠ '<' ∧ c ≠ '>' := by
  have hplain : b.spelling.2.toList.any (fun c => c = '<' || c = '>') = false := by
    cases b <;> decide
  intro c hc
  simpa using List.any_eq_false.1 hplain c hc

theorem head?_spelling (b : Builtin) :
    b.spelling.2.toList ≠ [] ∧ b.spelling.2.toList.head? ≠ some ')' := by
  cases b <;> decide

def paramText (params : List Builtin) : String :=
  Shape.renderParams (params.map fun b => .name b.spelling.2)

theorem shapes_map (params : List Builtin) :
    SourceType.shapes (params.map .builtin) = params.map fun b => .name b.spelling.2 := by
  induction params with
  | nil => rfl
  | cons b params ih => rw [List.map_cons, SourceType.shapes, ih, SourceType.shape, List.map_cons]

theorem areProper_map (params : List Builtin) :
    SourceType.areProper (params.map .builtin) = true := by
  induction params with
  | nil => rfl
  | cons b params ih =>
    rw [List.map_cons, SourceType.areProper, ih, SourceType.isProper]
    rfl

theorem depthAll_map (params : List Builtin) :
    SourceType.depthAll (params.map .builtin) = 0 := by
  induction params with
  | nil => rfl
  | cons b params ih =>
    rw [List.map_cons, SourceType.depthAll, ih, SourceType.depth]
    rfl

theorem renderAll_map (b : Builtin) (params : List Builtin) :
    ∃ tail, (Shape.renderAll ((b :: params).map fun b : Builtin => .name b.spelling.2)).toList =
      b.spelling.2.toList ++ tail ∧ ∀ c ∈ tail, c ≠ '<' ∧ c ≠ '>' := by
  induction params generalizing b with
  | nil => exact ⟨[], by simp [Shape.renderAll, Shape.render], by simp⟩
  | cons b' params ih =>
    obtain ⟨tail, htail, hplain⟩ := ih b'
    refine ⟨',' :: ' ' :: (b'.spelling.2.toList ++ tail), ?_, ?_⟩
    · rw [List.map_cons] at htail
      simp [Shape.renderAll, Shape.render, htail]
    · intro c hc
      simp only [List.mem_cons, List.mem_append] at hc
      rcases hc with rfl | rfl | hc | hc
      · decide
      · decide
      · exact b'.plain_spelling c hc
      · exact hplain c hc

theorem paramText_cases (params : List Builtin) :
    paramText params = "" ∨ ∃ (b : Builtin) (tail : List Char),
      (paramText params).toList = b.spelling.2.toList ++ tail ∧ ∀ c ∈ tail, c ≠ '<' ∧ c ≠ '>' := by
  unfold paramText Shape.renderParams
  split
  · exact .inl rfl
  · cases params with
    | nil => exact .inl rfl
    | cons b params => exact .inr ⟨b, renderAll_map b params⟩

theorem plain_paramText (params : List Builtin) :
    ∀ c ∈ (paramText params).toList, c ≠ '<' ∧ c ≠ '>' := by
  intro c hc
  rcases paramText_cases params with hempty | ⟨b, tail, htext, hplain⟩
  · rw [hempty] at hc
    cases hc
  · rw [htext] at hc
    rcases List.mem_append.1 hc with hc | hc
    · exact b.plain_spelling c hc
    · exact hplain c hc

theorem head?_paramText (params : List Builtin) : (paramText params).toList.head? ≠ some ')' := by
  rcases paramText_cases params with hempty | ⟨b, tail, htext, -⟩
  · rw [hempty]
    decide
  · obtain ⟨c, cs, hcs⟩ := List.exists_cons_of_ne_nil b.head?_spelling.1
    have hfirst := b.head?_spelling.2
    rw [hcs] at hfirst
    rw [htext, hcs]
    exact hfirst

end Builtin

/-! ## Members taken apart -/

/-- The names of operators have no scope separators, and no parentheses except for the call
operator. -/
theorem operators_texts : operators.all (fun e =>
    !(operatorText e.2).toList.contains ':' &&
      (operatorText e.2 == "operator()" || isCovered '(' 0 (operatorText e.2).toList)) = true := by
  decide +kernel

namespace Member

/-- The name of a member has no scope separators, and no parentheses unless it is that of the call
operator. -/
theorem text_isCovered (m : Member) (owner : Identifier) :
    isCovered ':' 0 (m.text owner).toList = true ∧
      (m.text owner = "operator()" ∨ isCovered '(' 0 (m.text owner).toList = true) := by
  have hident (x : Identifier) (c : Char) (hc : inIdentifier c = false) :
      isCovered c 0 x.text.toList = true := by
    rw [Identifier.text, String.toList_ofList]
    exact isCovered_of_notMem (x.notMem hc) 0
  cases m with
  | plain x => exact ⟨hident x ':' (by decide), .inr (hident x '(' (by decide))⟩
  | operator op =>
    obtain ⟨e, he, -, hsign⟩ := op.mem_operators
    have hfacts := List.all_eq_true.1 operators_texts e he
    rw [hsign, Bool.and_eq_true, Bool.not_eq_true', Bool.or_eq_true, beq_iff_eq] at hfacts
    refine ⟨isCovered_of_notMem (fun hmem => ?_) 0, hfacts.2⟩
    rw [text, ← List.contains_iff_mem, hfacts.1] at hmem
    cases hmem
  | constructor kind => exact ⟨hident owner ':' (by decide), .inr (hident owner '(' (by decide))⟩
  | destructor kind =>
    have htilde (c : Char) (hc : inIdentifier c = false) (hne : c ≠ '~') :
        isCovered c 0 ("~" ++ owner.text).toList = true := by
      have htext : ("~" ++ owner.text).toList = '~' :: owner.text.toList := by simp
      rw [htext, isCovered, decide_eq_true (Ne.symm hne), Bool.true_or, Bool.true_and]
      exact hident owner c hc
    exact ⟨htilde ':' (by decide) (by decide), .inr (htilde '(' (by decide) (by decide))⟩

theorem ofPrinted_call {scope : List Char} (hscope : IsScope scope) (params : List Char)
    {text : String}
    (htext : text.toList = scope ++ ':' :: ':' :: ("operator()".toList ++ '(' :: params ++ [')'])) :
    Method.ofPrinted text =
      { owner := String.ofList scope, name := "operator()", thunk := none } := by
  have hname : "operator()".toList = operatorWord ++ ['(', ')'] := by decide
  have hpass := @beforeParams_operator operatorWord (by decide) (by decide)
    (List.suffix_refl _) (':' :: scope.reverse) ('(' :: (params ++ [')']))
  have hcut : beforeParams (':' :: ':' :: scope.reverse) 0
      (operatorWord ++ ['(', ')'] ++ '(' :: params ++ [')']) =
        scope ++ ':' :: ':' :: (operatorWord ++ ['(', ')']) := by
    have hstop := hpass.trans (beforeParams_stop fun h => absurd h Bool.false_ne_true)
    simpa using hstop
  rw [hname] at htext
  rw [Method.ofPrinted_eq hscope (by decide) hcut htext, ← hname, String.ofList_toList]

theorem toList_printed (s : ScopedName) (name params : String) :
    (s.text ++ "::" ++ name ++ "(" ++ params ++ ")").toList =
      s.text.toList ++ ':' :: ':' :: (name.toList ++ '(' :: params.toList ++ [')']) := by
  simp

/-- A member is taken apart at the end of its scope and in front of its parameters. An angle bracket
in its name that is not closed hides the parameters, and so does a name that ends as that of the
call operator begins if there are none; then they are taken for a part of the name. -/
theorem ofSymbol?_symbol (s : ScopedName) (m : Member) (params : List Builtin)
    (hsize : (m.symbolCode s (params.map .builtin)).length < 2 ^ 63) :
    Method.ofSymbol? (m.symbol s (params.map .builtin)) =
      some { owner := s.text
             name := if isCut (m.text s.last).toList (Builtin.paramText params).toList
               then m.text s.last else m.text s.last ++ "(" ++ Builtin.paramText params ++ ")"
             thunk := none } := by
  have hdepth : SourceType.depthAll (params.map .builtin) + 2 < maxNesting := by
    rw [Builtin.depthAll_map]
    decide
  have hprinted := demangle_symbol s m (Builtin.areProper_map params) hdepth hsize
  rw [Builtin.shapes_map, ← Builtin.paramText] at hprinted
  have htext := toList_printed s (m.text s.last) (Builtin.paramText params)
  rw [Method.ofSymbol?, hprinted, Option.map_some]
  obtain ⟨hcolon, hcall | hparen⟩ := m.text_isCovered s.last
  · rw [hcall] at htext ⊢
    rw [isCut_of_not_suffix (by decide) (by decide), if_pos rfl,
      ofPrinted_call s.isScope_text _ htext, String.ofList_toList]
  · cases hcut : isCut (m.text s.last).toList (Builtin.paramText params).toList with
    | true =>
      rw [Method.ofPrinted_of_isCut s.isScope_text hcolon hparen htext
        (fun _ => Builtin.head?_paramText params) hcut, String.ofList_toList, String.ofList_toList]
      rfl
    | false =>
      rw [Method.ofPrinted_of_not_isCut s.isScope_text hcolon hparen htext
        (Builtin.plain_paramText params) hcut, String.ofList_toList]
      simp [String.append_assoc]

def Compare.owner : ScopedName := .top ⟨"Key".toList, by decide, by decide⟩

def Compare.less : Member := .operator ⟨"lt".toList, "<", by decide⟩

def Compare.threeWay : Member := .operator ⟨"ss".toList, "<=>", by decide⟩

def Compare.getter : Member := .plain ⟨"get_operator".toList, by decide, by decide⟩

/-- Brackets that are closed hide nothing. -/
theorem ofSymbol?_symbol_threeWay :
    (Compare.threeWay.symbolCode Compare.owner ([.int].map .builtin)).length < 2 ^ 63 ∧
      Method.ofSymbol? "_ZN3KeyssEi" =
        some { owner := "Key", name := "operator<=>", thunk := none } := by
  have hsize :
      (Compare.threeWay.symbolCode Compare.owner ([.int].map .builtin)).length < 2 ^ 63 := by
    decide +kernel
  have hsymbol : Compare.threeWay.symbol Compare.owner ([.int].map .builtin) = "_ZN3KeyssEi" := by
    decide +kernel
  refine ⟨hsize, ?_⟩
  rw [← hsymbol, ofSymbol?_symbol Compare.owner Compare.threeWay [.int] hsize]
  decide +kernel

/-- The names that are found for a comparison, and for a function without parameters whose name ends
as that of the call operator begins, are not their own: they have the parameters behind them. -/
theorem ofSymbol?_name_with_params :
    Method.ofSymbol? (Compare.less.symbol Compare.owner [.builtin .int]) =
        some { owner := "Key", name := "operator<(int)", thunk := none } ∧
      Compare.less.text Compare.owner.last = "operator<" ∧
      Method.ofSymbol? (Compare.getter.symbol Compare.owner []) =
        some { owner := "Key", name := "get_operator()", thunk := none } ∧
      Compare.getter.text Compare.owner.last = "get_operator" := by
  decide +kernel

end Member

/-! ## Constructors, destructors and vtables -/

def Identifier.Names (x : Identifier) (name : String) : Prop :=
  name.toList = x.chars ∨ name.toList = '~' :: x.chars

namespace Identifier

variable {x : Identifier} {name : String}

theorem toList_text (x : Identifier) : x.text.toList = x.chars := String.toList_ofList

theorem names_text (x : Identifier) : x.Names x.text := .inl x.toList_text

theorem names_tilde (x : Identifier) : x.Names ("~" ++ x.text) := by
  refine .inr ?_
  simp [toList_text]

theorem Names.isCovered (h : x.Names name) : isCovered '(' 0 name.toList = true := by
  have hparen : '(' ∉ x.chars := x.notMem (by decide)
  rcases h with h | h
  · rw [h]
    exact isCovered_of_notMem hparen 0
  · rw [h]
    exact isCovered_of_notMem (by simpa using hparen) 0

theorem Names.angles_eq (h : x.Names name) : angles 0 name.toList = 0 := by
  rcases h with h | h
  · rw [h]
    exact angles_of_plain x.plain 0
  · rw [h]
    exact angles_of_plain x.plain 0

theorem Names.suffix_iff (h : x.Names name) :
    operatorWord <:+ name.toList ↔ operatorWord <:+ x.chars := by
  rcases h with h | h
  · rw [h]
  · rw [h, List.suffix_cons_iff]
    refine or_iff_right ?_
    intro heq
    exact absurd (List.cons.inj heq).1 (by decide)

theorem tilde_ne (x : Identifier) : "~" ++ x.text ≠ x.text := by
  intro heq
  have hlength := congrArg String.length heq
  simp at hlength

theorem two_le_length_code (x : Identifier) : 2 ≤ x.code.length := by
  have hlength := x.length_lt_code
  obtain ⟨c, cs, hchars, -⟩ := x.exists_chars_eq
  rw [hchars, List.length_cons] at hlength
  omega

end Identifier

/-- A member with such a name is taken apart in front of its parameters, whatever their types
are. -/
theorem Member.ofSymbol?_of_names (s : ScopedName) (m : Member) {x : Identifier}
    {params : List SourceType} (hname : x.Names (m.text s.last)) (hx : ¬ operatorWord <:+ x.chars)
    (hproper : SourceType.areProper params = true)
    (hdepth : SourceType.depthAll params + 2 < maxNesting)
    (hsize : (m.symbolCode s params).length < 2 ^ 63) :
    Method.ofSymbol? (m.symbol s params) =
      some { owner := s.text, name := m.text s.last, thunk := none } := by
  have hword := mt hname.suffix_iff.1 hx
  rw [Method.ofSymbol?, demangle_symbol s m hproper hdepth hsize, Option.map_some,
    Method.ofPrinted_of_isCut s.isScope_text (m.text_isCovered s.last).1 hname.isCovered
      (toList_printed s (m.text s.last) _) (fun hsuffix => absurd hsuffix hword)
      (isCut_of_not_suffix hname.angles_eq hword _), String.ofList_toList, String.ofList_toList]

namespace ScopedName

theorem bareOwner_eq (s : ScopedName) (name : String) (thunk : Option ThunkKind) :
    Method.bareOwner { owner := s.text, name, thunk } = s.last.text := by
  rw [Method.bareOwner, s.withoutArgs_text, s.withoutScope_text]

/-- A member with the name of its class is a constructor, and one with that name behind a tilde is
a destructor. -/
theorem isConstructor_iff (s : ScopedName) (name : String) (thunk : Option ThunkKind) :
    (Method.isConstructor { owner := s.text, name, thunk } = true ↔ name = s.last.text) ∧
      (Method.isDestructor { owner := s.text, name, thunk } = true ↔
        name = "~" ++ s.last.text) := by
  have hne := s.last.text_ne_empty
  simp [Method.isConstructor, Method.isDestructor, bareOwner_eq, hne]

def vtableCode (s : ScopedName) : List Char := 'T' :: 'V' :: (Dictionary.type [] (.named s)).1

def vtableSymbol (s : ScopedName) : String := String.ofList ('_' :: 'Z' :: s.vtableCode)

theorem length_vtableCode (s : ScopedName) : s.vtableCode.length ≤ s.code.length + 4 := by
  have htype : (Dictionary.type [] (.named s)).1 = (Dictionary.path [] s).1 := rfl
  rw [vtableCode, htype]
  cases s with
  | top x => simp [Dictionary.path, ScopedName.code]
  | within outer x =>
    simp only [Dictionary.path, Dictionary.scope_nil, ScopedName.code, List.length_cons,
      List.length_append, List.length_nil]
    omega

theorem run_vtable {l : Level} {code : List Char} {shape : Shape} {cursor : Cursor}
    (hread : l.type.run (Dictionary.cursor [] code) = some (shape, cursor)) :
    (readEncoding l).run (Dictionary.cursor [] ('T' :: 'V' :: code)) =
      some ("vtable for " ++ shape.render, cursor) := by
  have hlabel : typeEntity? ['T', 'V'] = some "vtable for " := rfl
  simp [readEncoding, specialEntity, hlabel, hread]

theorem demangle_vtableSymbol (s : ScopedName) (hsize : s.vtableCode.length < 2 ^ 63) :
    demangle s.vtableSymbol = some ("vtable for " ++ s.text) := by
  have htype := (spells_named (Level.of 253) [] s).run [] (by simp) (by
    simp only [vtableCode, List.length_cons] at hsize
    simp only [Dictionary.Fits, List.append_nil, List.length_nil]
    omega)
  rw [List.append_nil] at htype
  have hread := run_vtable (l := Level.of 255) htype
  rw [SourceType.shape, Shape.render] at hread
  exact demangle_of_run hread rfl

theorem vtableClass?_vtableSymbol (s : ScopedName) (hsize : s.vtableCode.length < 2 ^ 63) :
    vtableClass? s.vtableSymbol = some s.text := by
  have hlead : Text.startsWith s.vtableSymbol "_ZTV" = true := by
    have hsymbol : s.vtableSymbol.toList =
        ['_', 'Z', 'T', 'V'] ++ (Dictionary.type [] (.named s)).1 := String.toList_ofList
    rw [Text.startsWith, hsymbol]
    exact congrArg Option.isSome (Text.afterLead_self ['_', 'Z', 'T', 'V'] _)
  have hlabel : Text.dropLead? ("vtable for " ++ s.text) "vtable for " = some s.text := by
    rw [Text.dropLead?, String.toList_append, Text.afterLead_self, Option.map_some,
      String.ofList_toList]
  rw [vtableClass?, if_pos hlead, s.demangle_vtableSymbol hsize]
  exact hlabel

end ScopedName

/-- The symbols of a class are taken back to their parts: a member to its class and its name, a
constructor and a destructor to what they are, and a vtable to its class. The name of the member and
that of the class do not end as that of the call operator begins; the parameters are any types of
253 levels at most, of which a function pointer has two. -/
theorem class_symbols_apart (s : ScopedName) (x : Identifier) {params : List SourceType}
    (hx : ¬ operatorWord <:+ x.chars) (hs : ¬ operatorWord <:+ s.last.chars)
    (hproper : SourceType.areProper params = true)
    (hdepth : SourceType.depthAll params + 2 < maxNesting)
    (hsize : ((Member.plain x).symbolCode s params).length < 2 ^ 63) :
    Method.ofSymbol? ((Member.plain x).symbol s params) =
        some { owner := s.text, name := x.text, thunk := none } ∧
      (∀ kind, isConstructor ((Member.constructor kind).symbol s params) = true ∧
        isDestructor ((Member.constructor kind).symbol s params) = false) ∧
      (∀ kind, isDestructor ((Member.destructor kind).symbol s params) = true ∧
        isConstructor ((Member.destructor kind).symbol s params) = false) ∧
      vtableClass? s.vtableSymbol = some s.text := by
  have htwo := x.two_le_length_code
  have hplain : (Member.plain x).code = x.code := rfl
  have hcode (m : Member) (hm : m.code.length = 2) : (m.symbolCode s params).length < 2 ^ 63 := by
    simp only [Member.symbolCode, hplain, List.length_append, List.length_cons] at hsize ⊢
    omega
  refine ⟨?_, fun kind => ?_, fun kind => ?_, s.vtableClass?_vtableSymbol ?_⟩
  · exact Member.ofSymbol?_of_names s _ x.names_text hx hproper hdepth hsize
  · have hmember : Method.ofSymbol? ((Member.constructor kind).symbol s params) =
        some { owner := s.text, name := s.last.text, thunk := none } :=
      Member.ofSymbol?_of_names s _ s.last.names_text hs hproper hdepth (hcode _ rfl)
    obtain ⟨hconstructor, hdestructor⟩ := s.isConstructor_iff s.last.text none
    rw [isConstructor, isDestructor, hmember, Option.any_some, Option.any_some, hconstructor,
      Bool.eq_false_iff, ne_eq, hdestructor]
    exact ⟨rfl, s.last.tilde_ne.symm⟩
  · have hmember : Method.ofSymbol? ((Member.destructor kind).symbol s params) =
        some { owner := s.text, name := "~" ++ s.last.text, thunk := none } :=
      Member.ofSymbol?_of_names s _ s.last.names_tilde hs hproper hdepth (hcode _ rfl)
    obtain ⟨hconstructor, hdestructor⟩ := s.isConstructor_iff ("~" ++ s.last.text) none
    rw [isConstructor, isDestructor, hmember, Option.any_some, Option.any_some, hdestructor,
      Bool.eq_false_iff, ne_eq, hconstructor]
    exact ⟨rfl, s.last.tilde_ne⟩
  · have hvtable := s.length_vtableCode
    simp only [Member.symbolCode, hplain, List.length_append, List.length_cons] at hsize
    omega

/-- A method of a class in a namespace. -/
def Socket.accept : Identifier := ⟨"accept".toList, by decide, by decide⟩

/-- Its parameters: a reference to a pointer, and a function pointer that takes such a pointer. -/
def Socket.params : List SourceType :=
  [.indirect .lvalueRef (.indirect .pointer (.builtin .char)),
    .indirect .pointer (.function (.builtin .void)
      [.indirect .pointer (.builtin .char), .indirect .pointer (.function (.builtin .int) [])])]

theorem class_symbols_apart_socket :
    (¬ operatorWord <:+ Socket.accept.chars ∧ ¬ operatorWord <:+ Listen.socket.last.chars ∧
      SourceType.areProper Socket.params = true ∧
      SourceType.depthAll Socket.params + 2 < maxNesting ∧
      ((Member.plain Socket.accept).symbolCode Listen.socket Socket.params).length < 2 ^ 63) ∧
      Method.ofSymbol? "_ZN3net6Socket6acceptERPcPFvS1_PFivEE" =
        some { owner := "net::Socket", name := "accept", thunk := none } ∧
      isConstructor "_ZN3net6SocketC2ERPcPFvS1_PFivEE" = true ∧
      isDestructor "_ZN3net6SocketD0ERPcPFvS1_PFivEE" = true ∧
      vtableClass? "_ZTVN3net6SocketE" = some "net::Socket" := by
  have hname : ¬ operatorWord <:+ Socket.accept.chars := by decide
  have hclass : ¬ operatorWord <:+ Listen.socket.last.chars := by decide
  have hproper : SourceType.areProper Socket.params = true := rfl
  have hdepth : SourceType.depthAll Socket.params + 2 < maxNesting := by decide
  have hsize :
      ((Member.plain Socket.accept).symbolCode Listen.socket Socket.params).length < 2 ^ 63 := by
    decide +kernel
  have happly := class_symbols_apart Listen.socket Socket.accept hname hclass hproper hdepth hsize
  refine ⟨⟨hname, hclass, hproper, hdepth, hsize⟩, ?_, ?_, ?_, ?_⟩
  · have hsymbol : (Member.plain Socket.accept).symbol Listen.socket Socket.params =
        "_ZN3net6Socket6acceptERPcPFvS1_PFivEE" := by decide +kernel
    rw [← hsymbol, happly.1]
    decide +kernel
  · have hsymbol : (Member.constructor .base).symbol Listen.socket Socket.params =
        "_ZN3net6SocketC2ERPcPFvS1_PFivEE" := by decide +kernel
    rw [← hsymbol]
    exact (happly.2.1 .base).1
  · have hsymbol : (Member.destructor .deleting).symbol Listen.socket Socket.params =
        "_ZN3net6SocketD0ERPcPFvS1_PFivEE" := by decide +kernel
    rw [← hsymbol]
    exact (happly.2.2.1 .deleting).1
  · have hsymbol : Listen.socket.vtableSymbol = "_ZTVN3net6SocketE" := rfl
    rw [← hsymbol, happly.2.2.2]
    decide +kernel

end CallTargets.Symbol
