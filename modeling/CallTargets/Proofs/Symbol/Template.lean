import CallTargets.Proofs.Symbol.Parts
import CallTargets.Proofs.Symbol.Yields

/-!
# Classes with template arguments

The codes of builtin types and classes, where the components of a class may have template arguments
that are such types again (`Spelled`). The main statement, `Spelled.reads`, is by induction on the
code: what reads it, if it accepts it, stops right behind it, and the angle brackets in what it is
printed as match (`Reads`). Whether it is accepted depends on how deeply it is nested and on where
its back-references point to.
-/

namespace CallTargets.Symbol

open Scan

variable {cursor : Cursor} {tail code args path : List Char} {l : Level}

/-! ## Codes -/

/-- The constructs of which the code of a class consists. -/
inductive Part where
  | type
  /-- What stands between `N` and `E`. -/
  | path
  /-- What stands between `I` and `E`. -/
  | args
  /-- A template argument list, or nothing. -/
  | suffix

/-- A back-reference, or the abbreviation of a class of the library. -/
inductive IsReference : List Char → Prop where
  | place {ds : List Char} (hds : ∀ c ∈ ds, (seqDigit? c).isSome = true) :
      IsReference ('S' :: ds ++ ['_'])
  | library {c : Char} {name : String} (hc : libraryClass? c = some name) : IsReference ['S', c]

/-- The codes of classes. Their paths consist of identifiers with or without template arguments, and
begin with one of them, with the namespace of the library or with a back-reference. -/
inductive Spelled : Part → List Char → Prop where
  | builtin (b : Builtin) : Spelled .type b.spelling.1
  | unscoped (x : Identifier) {args : List Char} (hargs : Spelled .suffix args) :
      Spelled .type (x.code ++ args)
  | std (x : Identifier) {args : List Char} (hargs : Spelled .suffix args) :
      Spelled .type ('S' :: 't' :: (x.code ++ args))
  | reference {r args : List Char} (hr : IsReference r) (hargs : Spelled .suffix args) :
      Spelled .type (r ++ args)
  | nested {path : List Char} (hpath : Spelled .path path) : Spelled .type ('N' :: path ++ ['E'])
  | top (x : Identifier) {args : List Char} (hargs : Spelled .suffix args) :
      Spelled .path (x.code ++ args)
  | library : Spelled .path ['S', 't']
  | back {r args : List Char} (hr : IsReference r) (hargs : Spelled .suffix args) :
      Spelled .path (r ++ args)
  | within {path : List Char} (hpath : Spelled .path path) (x : Identifier) {args : List Char}
      (hargs : Spelled .suffix args) : Spelled .path (path ++ (x.code ++ args))
  | nil : Spelled .args []
  | cons {t args : List Char} (ht : Spelled .type t) (hargs : Spelled .args args) :
      Spelled .args (t ++ args)
  | noArgs : Spelled .suffix []
  | argList {args : List Char} (hargs : Spelled .args args) : Spelled .suffix ('I' :: args ++ ['E'])

theorem IsReference.begins {r : List Char} (hr : IsReference r) : Begins (· = 'S') r := by
  cases hr with
  | place hds => exact ⟨'S', _, rfl, by decide⟩
  | library hc => exact ⟨'S', _, rfl, by decide⟩

namespace Spelled

theorem begins_type (h : Spelled .type code) : Begins opensPlain code := by
  have hdigit : ∀ c : Char, c.isDigit = true → opensPlain c = true := fun c hc => by
    simp [opensPlain, hc]
  cases h with
  | builtin b => exact Dictionary.begins_plain [] (t := .builtin b) rfl
  | unscoped x hargs => exact (x.begins_code.mono hdigit).append _
  | std x hargs => exact ⟨'S', _, rfl, rfl⟩
  | reference hr hargs =>
    refine (hr.begins.append _).mono fun c hc => ?_
    rw [of_decide_eq_true hc]
    rfl
  | nested hpath => exact ⟨'N', _, rfl, rfl⟩

theorem head?_args_ne (h : Spelled .args args) (tail : List Char) :
    (args ++ 'E' :: tail).head? ≠ some 'I' := by
  cases h with
  | nil => simp
  | cons ht hargs => exact ((ht.begins_type.append _).append _).head_ne (by decide)

end Spelled

/-! ## Readers -/

/-- What it means for a construct to be read: it is passed over, and the angle brackets in what it
is printed as match. A path is read in rounds that lead to another one. -/
def Reads : Part → List Char → Prop
  | .type, code => ∀ n cursor tail, tail.head? ≠ some 'I' → cursor.Faces (code ++ tail) →
      Yields (Level.of n).type cursor fun shape cursor' =>
        cursor'.Faces tail ∧ Balanced shape.render.toList
  | .path, code => ∀ n cursor tail Q, cursor.Faces (code ++ tail) →
      (∀ path cursor', cursor'.Faces tail → Balanced path.text.toList →
        Loops (nestedRound (Level.of n)) path cursor' Q) →
      Loops (nestedRound (Level.of n)) {} cursor Q
  | .args, code => ∀ n cursor tail items, cursor.Faces (code ++ 'E' :: tail) →
      (∀ shape ∈ items, Balanced shape.render.toList) →
      Loops (endRound (do templateArg (Level.of n) (← rest).length)) items cursor
        fun shapes cursor' =>
        cursor'.Faces tail ∧ ∀ shape ∈ shapes, Balanced shape.render.toList
  | .suffix, code => code = [] ∨ (∃ cs, code = 'I' :: cs) ∧
      ∀ n cursor tail, cursor.Faces (code ++ tail) →
        Yields (Level.of n).templateArgs cursor fun shapes cursor' =>
          cursor'.Faces tail ∧ IsArgs (Shape.renderArgs shapes).toList

/-! ### Template arguments -/

theorem balanced_renderAll {shapes : List Shape}
    (h : ∀ shape ∈ shapes, Balanced shape.render.toList) :
    Balanced (Shape.renderAll shapes).toList := by
  induction shapes with
  | nil => exact ⟨rfl, rfl⟩
  | cons shape shapes ih =>
    have hshape := h shape List.mem_cons_self
    have hshapes := ih fun shape hshape => h shape (List.mem_cons_of_mem _ hshape)
    cases shapes with
    | nil => exact hshape
    | cons other shapes =>
      have hcomma : Balanced ", ".toList := ⟨rfl, rfl⟩
      rw [Shape.renderAll, String.toList_append, String.toList_append]
      · exact (hshape.append hcomma).append hshapes
      · exact List.cons_ne_nil other shapes

theorem isArgs_renderArgs {shapes : List Shape}
    (h : ∀ shape ∈ shapes, Balanced shape.render.toList) :
    IsArgs (Shape.renderArgs shapes).toList := by
  refine ⟨_, balanced_renderAll h, ?_⟩
  simp [Shape.renderArgs]

theorem reads_nil : Reads .args [] := by
  intro n cursor tail items hcursor hitems
  have haccept := run_accept_eq hcursor.rest_eq
  refine Loops.of_round (Yields.step haccept (Yields.pure ⟨hcursor.facing tail, ?_⟩))
  intro shape hshape
  exact hitems shape (List.mem_reverse.1 hshape)

theorem templateArg_eq {c : Char} {cs : List Char} (hrest : cursor.rest = c :: cs)
    (hc : opensPlain c = true) :
    (templateArg l (c :: cs).length).run cursor = l.type.run cursor := by
  rw [List.length_cons]
  unfold templateArg
  simp only [Scan.run_bind, run_peek, hrest, List.head?_cons, Option.bind_eq_bind,
    Option.bind_some]
  split
  case h_4 => rfl
  case h_5 heq => cases heq
  all_goals
    rename_i heq
    rw [Option.some.inj heq] at hc
    exact absurd hc (by decide)

theorem run_endRound_plain {c : Char} {cs : List Char} (hrest : cursor.rest = c :: cs)
    (hc : opensPlain c = true) (items : List Shape) :
    (endRound (do templateArg l (← rest).length) items).run cursor =
      (l.type.run cursor).map fun read => (.again (read.1 :: items), read.2) := by
  have hend : cursor.rest.head? ≠ some 'E' := by
    rw [hrest]
    rintro heq
    rw [Option.some.inj heq] at hc
    exact absurd hc (by decide)
  have harg := @templateArg_eq cursor l c cs hrest hc
  rw [List.length_cons] at harg
  simp [endRound, run_accept_of_head?_ne hend, hrest, harg, Option.map_eq_bind]

theorem reads_cons {t : List Char} (hfirst : Begins opensPlain t) (ht : Reads .type t)
    (hargs : Spelled .args args) (hreads : Reads .args args) : Reads .args (t ++ args) := by
  intro n cursor tail items hcursor hitems
  rw [List.append_assoc] at hcursor
  obtain ⟨c, cs, hcs, hc⟩ := hfirst.append (args ++ 'E' :: tail)
  have htype := ht n cursor _ (hargs.head?_args_ne tail) hcursor
  refine Loops.of_round (Yields.of_map (fun shape => .again (shape :: items))
    (run_endRound_plain (hcursor.rest_eq.trans hcs) hc items) ?_)
  refine htype.mono fun shape cursor' hshape => hreads n cursor' tail _ hshape.1 ?_
  intro other hother
  rcases List.mem_cons.1 hother with rfl | hother
  · exact hshape.2
  · exact hitems other hother

theorem reads_argList (hreads : Reads .args args) : Reads .suffix ('I' :: args ++ ['E']) := by
  refine .inr ⟨⟨_, rfl⟩, fun n cursor tail hcursor => ?_⟩
  cases n with
  | zero => exact Yields.of_none rfl
  | succ n =>
    change Yields (readTemplateArgs (Level.of n)) cursor _
    unfold readTemplateArgs
    have hrest : cursor.rest = 'I' :: (args ++ 'E' :: tail) := by
      rw [hcursor.rest_eq]
      simp
    refine Yields.step (run_expect_eq hrest) (Yields.step rfl (Yields.step rfl ?_))
    have hinside : Cursor.Faces { cursor.facing (args ++ 'E' :: tail) with inArgs := true }
        (args ++ 'E' :: tail) := ⟨rfl, hcursor.balanced⟩
    have hloop := (hreads n _ tail [] hinside (by simp)).yields
    refine Yields.bind (hloop.mono fun shapes cursor' hshapes => ?_)
    refine Yields.step rfl (Yields.pure ⟨⟨hshapes.1.rest_eq, hshapes.1.balanced⟩, ?_⟩)
    exact isArgs_renderArgs hshapes.2

/-! ### Back-references -/

theorem balanced_libraryClass {c : Char} {name : String} (h : libraryClass? c = some name) :
    Balanced name.toList := by
  unfold libraryClass? at h
  split at h
  case h_7 => cases h
  all_goals
    cases h
    exact ⟨rfl, rfl⟩

theorem yields_seqId {ds : List Char} (hds : ∀ c ∈ ds, (seqDigit? c).isSome = true)
    (hcursor : cursor.Faces (ds ++ '_' :: tail)) :
    Yields seqId cursor fun _ cursor' => cursor'.Faces tail := by
  unfold seqId
  cases ds with
  | nil => exact Yields.step (run_accept_eq hcursor.rest_eq) (Yields.pure (hcursor.facing tail))
  | cons d ds =>
    have hfirst : cursor.rest.head? ≠ some '_' := by
      rw [hcursor.rest_eq]
      intro heq
      have hd := hds d List.mem_cons_self
      rw [Option.some.inj heq] at hd
      exact absurd hd (by decide)
    refine Yields.step (run_accept_of_head?_ne hfirst)
      (Yields.step (run_span_append hds (by decide) hcursor.rest_eq) ?_)
    refine Yields.congr (run_seqPlace _ _) (Yields.bind (Yields.lift fun _ _ => ?_))
    exact Yields.step (run_expect_eq rfl) (Yields.pure (hcursor.facing tail))

theorem yields_backReference {r : List Char} (hr : IsReference r)
    (hcursor : cursor.Faces (r ++ tail)) :
    Yields backReference cursor fun shape cursor' =>
      cursor'.Faces tail ∧ Balanced shape.render.toList := by
  unfold backReference
  cases hr with
  | @place ds hds =>
    have hrest : cursor.rest = 'S' :: (ds ++ '_' :: tail) := by
      rw [hcursor.rest_eq]
      simp
    have hnone : ∃ c, (ds ++ '_' :: tail).head? = some c ∧ libraryClass? c = none := by
      cases ds with
      | nil => exact ⟨'_', rfl, rfl⟩
      | cons d ds =>
        exact ⟨d, rfl, libraryClass?_of_reference (.inr (hds d List.mem_cons_self))⟩
    obtain ⟨c, hc, hnone⟩ := hnone
    refine Yields.step (run_expect_eq hrest) (Yields.step (run_peek _) ?_)
    rw [Cursor.rest_facing, hc]
    simp only [hnone]
    refine Yields.bind ((yields_seqId hds (hcursor.facing _)).mono fun place cursor' hcursor' => ?_)
    intro shape cursor'' hrun
    obtain ⟨_, hshape, heq⟩ := Option.map_eq_some_iff.1 hrun
    cases heq
    exact ⟨hcursor', hcursor'.balanced shape (Array.mem_of_getElem? hshape)⟩
  | @library c name hc =>
    have hrest : cursor.rest = 'S' :: c :: tail := hcursor.rest_eq
    refine Yields.step (run_expect_eq hrest) (Yields.step (run_peek _) ?_)
    rw [Cursor.rest_facing, List.head?_cons]
    simp only [hc]
    refine Yields.step (run_skip 1 _) (Yields.pure ⟨?_, ?_⟩)
    · exact hcursor.facing tail
    · exact balanced_libraryClass hc

/-! ### Names -/

theorem yields_component (x : Identifier) {last : String}
    (hcursor : cursor.Faces (x.code ++ tail)) :
    Yields (component l last) cursor fun read cursor' =>
      read = (x.text, false) ∧ cursor'.Faces tail := by
  have hrun := run_component l last x hcursor.rest_eq
  by_cases hsize : x.chars.length < 2 ^ 63
  · rw [if_pos hsize] at hrun
    exact Yields.of_run hrun ⟨rfl, hcursor.facing tail⟩
  · rw [if_neg hsize] at hrun
    exact Yields.of_none hrun

/-- The name is read and printed with angle brackets that match. -/
def ReadsName (code : List Char) : Prop :=
  ∀ n cursor tail, tail.head? ≠ some 'I' → cursor.Faces (code ++ tail) →
    Yields (Level.of n).name cursor fun name cursor' =>
      cursor'.Faces tail ∧ Balanced name.text.toList

theorem Identifier.balanced_text (x : Identifier) : Balanced x.text.toList := by
  rw [Identifier.toList_text]
  exact .of_plain x.plain

theorem yields_unscopedName (x : Identifier) (hargs : Reads .suffix args) {scope : String}
    (hscope : Balanced scope.toList) (htail : tail.head? ≠ some 'I') (n : Nat)
    (hcursor : cursor.Faces (x.code ++ (args ++ tail))) :
    Yields (unscopedName (Level.of n) scope) cursor fun name cursor' =>
      cursor'.Faces tail ∧ Balanced name.text.toList := by
  have htext : Balanced (scope ++ x.text).toList := by
    rw [String.toList_append]
    exact hscope.append x.balanced_text
  have hshape : Balanced (Shape.name (scope ++ x.text)).render.toList := by
    rwa [Shape.render]
  unfold unscopedName
  refine Yields.bind ((yields_component x hcursor).mono ?_)
  rintro _ cursor' ⟨rfl, hcursor'⟩
  refine Yields.step (run_peek cursor') ?_
  rw [hcursor'.rest_eq]
  rcases hargs with rfl | ⟨⟨cs, rfl⟩, hargs⟩
  · rw [List.nil_append] at hcursor'
    rw [List.nil_append, if_neg htail]
    exact Yields.pure ⟨hcursor', htext⟩
  · rw [List.cons_append, List.head?_cons, if_pos rfl]
    refine Yields.bind ((hcursor'.remember hshape).mono fun _ cursor' hcursor' => ?_)
    refine Yields.bind ((hargs n cursor' tail hcursor').mono fun shapes cursor' hshapes => ?_)
    refine Yields.pure ⟨hshapes.1, ?_⟩
    rw [String.toList_append]
    exact htext.append hshapes.2.balanced

theorem readsName_unscoped (x : Identifier) (hargs : Reads .suffix args) :
    ReadsName (x.code ++ args) := by
  intro n cursor tail htail hcursor
  cases n with
  | zero => exact Yields.of_none rfl
  | succ n =>
    rw [List.append_assoc] at hcursor
    have hempty : Balanced "".toList := ⟨rfl, rfl⟩
    have hname := yields_unscopedName x hargs hempty htail n hcursor
    obtain ⟨c, cs, hcs, hc⟩ := x.begins_code.append (args ++ tail)
    change Yields (readName (Level.of n)) cursor _
    unfold readName
    refine Yields.step (run_rest cursor) ?_
    rw [hcursor.rest_eq, hcs]
    split
    case h_5 => exact hname
    all_goals
      rename_i heq
      rw [(List.cons.inj heq).1] at hc
      exact absurd hc (by decide)

theorem readsName_std (x : Identifier) (hargs : Reads .suffix args) :
    ReadsName ('S' :: 't' :: (x.code ++ args)) := by
  intro n cursor tail htail hcursor
  cases n with
  | zero => exact Yields.of_none rfl
  | succ n =>
    have hrest : cursor.rest = 'S' :: 't' :: (x.code ++ (args ++ tail)) := by
      rw [hcursor.rest_eq]
      simp
    change Yields (readName (Level.of n)) cursor _
    unfold readName
    refine Yields.step (run_rest cursor) ?_
    rw [hrest]
    refine Yields.step (run_skip 2 cursor) ?_
    refine yields_unscopedName x hargs ⟨rfl, rfl⟩ htail n ?_
    rw [hrest]
    exact hcursor.facing _

/-! ### Paths -/

section Rounds

variable {Q : Path → Cursor → Prop}

theorem Path.balanced_extend {path : Path} (h : Balanced path.text.toList) (x : Identifier) :
    Balanced (path.extend x).text.toList := by
  have hseparator : Balanced "::".toList := ⟨rfl, rfl⟩
  unfold Path.extend
  dsimp only
  split
  · exact x.balanced_text
  · rw [String.toList_append, String.toList_append]
    exact (h.append hseparator).append x.balanced_text

theorem loops_component (x : Identifier) {path : Path} (h : Balanced path.text.toList)
    (hcursor : cursor.Faces (x.code ++ tail))
    (hnext : ∀ cursor', cursor'.Faces tail → Loops (nestedRound l) (path.extend x) cursor' Q) :
    Loops (nestedRound l) path cursor Q := by
  have hshape : Balanced (Shape.name (path.extend x).text).render.toList := by
    rw [Shape.render]
    exact Path.balanced_extend h x
  have hrun := run_nestedRound l path x hcursor.rest_eq
  refine Loops.of_round ?_
  by_cases hsize : x.chars.length < 2 ^ 63
  · rw [if_pos hsize] at hrun
    by_cases hend : tail.head? = some 'E'
    · rw [if_pos hend] at hrun
      exact Yields.of_run hrun (hnext _ (hcursor.facing tail))
    · rw [if_neg hend] at hrun
      exact Yields.of_run hrun (hnext _ ((hcursor.facing tail).remember hshape () _ rfl))
  · rw [if_neg hsize] at hrun
    exact Yields.of_none hrun

theorem loops_args {n : Nat} (hfirst : ∃ cs, args = 'I' :: cs)
    (hargs : ∀ n cursor tail, cursor.Faces (args ++ tail) →
      Yields (Level.of n).templateArgs cursor fun shapes cursor' =>
        cursor'.Faces tail ∧ IsArgs (Shape.renderArgs shapes).toList)
    {path : Path} (h : Balanced path.text.toList) (hcursor : cursor.Faces (args ++ tail))
    (hnext : ∀ shapes cursor', cursor'.Faces tail → IsArgs (Shape.renderArgs shapes).toList →
      Loops (nestedRound (Level.of n))
        { path with text := path.text ++ Shape.renderArgs shapes, isTemplate := true } cursor' Q) :
    Loops (nestedRound (Level.of n)) path cursor Q := by
  obtain ⟨cs, rfl⟩ := hfirst
  have hrest : cursor.rest = 'I' :: (cs ++ tail) := hcursor.rest_eq
  have hE : cursor.rest.head? ≠ some 'E' := by simp [hrest]
  refine Loops.of_round (Yields.step (run_accept_of_head?_ne hE) ?_)
  refine Yields.step (run_rest cursor) ?_
  rw [hrest]
  refine Yields.bind ?_
  unfold pathStep
  refine Yields.step (run_peek cursor) ?_
  rw [hrest, List.head?_cons]
  split
  case h_1 =>
    dsimp only
    split
    · exact Yields.bind (Yields.of_none rfl)
    · refine Yields.bind ((hargs n cursor tail hcursor).mono fun shapes cursor' hshapes => ?_)
      have hshape : Balanced (Shape.name (path.text ++ Shape.renderArgs shapes)).render.toList := by
        rw [Shape.render, String.toList_append]
        exact h.append hshapes.2.balanced
      refine Yields.pure (Yields.step (run_peek cursor') ?_)
      dsimp only
      split
      · refine Yields.bind ((hshapes.1.remember hshape).mono fun _ cursor' hcursor' => ?_)
        exact Yields.pure (hnext shapes cursor' hcursor' hshapes.2)
      · exact Yields.pure (hnext shapes cursor' hshapes.1 hshapes.2)
  case h_2 heq => cases heq
  case h_3 hnot _ => exact absurd rfl hnot

theorem loops_end {path : Path} (hcursor : cursor.Faces ('E' :: tail))
    (hQ : ∀ cursor', cursor'.Faces tail → Q path cursor') : Loops (nestedRound l) path cursor Q :=
  Loops.of_round (Yields.step (run_accept_eq hcursor.rest_eq)
    (Yields.pure (hQ _ (hcursor.facing tail))))

theorem loops_suffix {n : Nat} (hargs : Reads .suffix args) {path : Path}
    (h : Balanced path.text.toList) (hcursor : cursor.Faces (args ++ tail))
    (hnext : ∀ path cursor', cursor'.Faces tail → Balanced path.text.toList →
      Loops (nestedRound (Level.of n)) path cursor' Q) :
    Loops (nestedRound (Level.of n)) path cursor Q := by
  rcases hargs with rfl | ⟨hfirst, hargs⟩
  · exact hnext path cursor hcursor h
  · refine loops_args hfirst hargs h hcursor fun shapes cursor' hcursor' hshapes => ?_
    refine hnext _ cursor' hcursor' ?_
    rw [String.toList_append]
    exact h.append hshapes.balanced

end Rounds

theorem balanced_emptyPath : Balanced ({} : Path).text.toList := ⟨rfl, rfl⟩

theorem reads_top (x : Identifier) (hargs : Reads .suffix args) : Reads .path (x.code ++ args) := by
  intro n cursor tail Q hcursor hnext
  rw [List.append_assoc] at hcursor
  refine loops_component x balanced_emptyPath hcursor fun cursor' hcursor' => ?_
  exact loops_suffix hargs (Path.balanced_extend balanced_emptyPath x) hcursor' hnext

theorem reads_within (hpath : Reads .path path) (x : Identifier) (hargs : Reads .suffix args) :
    Reads .path (path ++ (x.code ++ args)) := by
  intro n cursor tail Q hcursor hnext
  rw [List.append_assoc, List.append_assoc] at hcursor
  refine hpath n cursor _ Q hcursor fun outer cursor' hcursor' houter => ?_
  refine loops_component x houter hcursor' fun cursor' hcursor' => ?_
  exact loops_suffix hargs (Path.balanced_extend houter x) hcursor' hnext

theorem reads_library : Reads .path ['S', 't'] := by
  intro n cursor tail Q hcursor hnext
  have hrest : cursor.rest = 'S' :: 't' :: tail := hcursor.rest_eq
  have hE : cursor.rest.head? ≠ some 'E' := by simp [hrest]
  refine Loops.of_round (Yields.step (run_accept_of_head?_ne hE) ?_)
  refine Yields.step (run_rest cursor) ?_
  rw [hrest]
  refine Yields.step (run_skip 2 cursor) (Yields.pure ?_)
  rw [hrest]
  exact hnext _ _ (hcursor.facing tail) ⟨rfl, rfl⟩

theorem IsReference.exists_eq {r : List Char} (hr : IsReference r) :
    ∃ c cs, r = 'S' :: c :: cs ∧ c ≠ 't' := by
  cases hr with
  | @place ds hds =>
    cases ds with
    | nil => exact ⟨'_', [], rfl, by decide⟩
    | cons d ds =>
      refine ⟨d, ds ++ ['_'], rfl, ?_⟩
      rintro rfl
      exact absurd (hds 't' List.mem_cons_self) (by decide)
  | @library c name hc =>
    refine ⟨c, [], rfl, ?_⟩
    rintro rfl
    cases hc

theorem reads_back {r : List Char} (hr : IsReference r) (hargs : Reads .suffix args) :
    Reads .path (r ++ args) := by
  intro n cursor tail Q hcursor hnext
  rw [List.append_assoc] at hcursor
  have hread := yields_backReference hr hcursor
  obtain ⟨c, cs, rfl, hc⟩ := hr.exists_eq
  have hrest : cursor.rest = 'S' :: c :: (cs ++ (args ++ tail)) := hcursor.rest_eq
  have hE : cursor.rest.head? ≠ some 'E' := by simp [hrest]
  refine Loops.of_round (Yields.step (run_accept_of_head?_ne hE) ?_)
  refine Yields.step (run_rest cursor) ?_
  rw [hrest]
  split
  case h_1 heq =>
    cases heq
    exact absurd rfl hc
  case h_2 =>
    refine Yields.bind (hread.mono fun shape cursor' hshape => Yields.pure ?_)
    exact loops_suffix hargs hshape.2 hshape.1 hnext
  case h_3 hnot => exact absurd rfl (hnot _)

theorem Spelled.begins_path (h : Spelled .path path) :
    Begins (fun c => c = 'S' || c.isDigit) path := by
  generalize hpart : Part.path = part at h
  induction h with
  | top x hargs => exact (x.begins_code.mono fun c hc => by simp [hc]).append _
  | library => exact ⟨'S', _, rfl, rfl⟩
  | back hr hargs => exact (hr.begins.append _).mono fun c hc => by simp_all
  | within hpath x hargs ih => exact (ih rfl).append _
  | _ => cases hpart

theorem yields_nestedName {body : List Char} {R : Name → Cursor → Prop}
    (hfirst : Begins (fun c => c = 'S' || c.isDigit) body) (hcursor : cursor.Faces ('N' :: body))
    (hloop : ∀ cursor', cursor'.Faces body → Loops (nestedRound l) {} cursor' fun path cursor' =>
      R { text := path.text, isTemplate := path.isTemplate, isSpecial := path.isSpecial } cursor') :
    Yields (nestedName l) cursor R := by
  have hbody := hcursor.facing body
  have hr : (cursor.facing body).rest.head? ≠ some 'r' := hfirst.head_ne (by decide)
  have hV : (cursor.facing body).rest.head? ≠ some 'V' := hfirst.head_ne (by decide)
  have hK : (cursor.facing body).rest.head? ≠ some 'K' := hfirst.head_ne (by decide)
  have hR : (cursor.facing body).rest.head? ≠ some 'R' := hfirst.head_ne (by decide)
  have hO : (cursor.facing body).rest.head? ≠ some 'O' := hfirst.head_ne (by decide)
  have hquals : qualifiers.run (cursor.facing body) = some ([], cursor.facing body) := by
    simp [qualifiers, run_accept_of_head?_ne hr, run_accept_of_head?_ne hV,
      run_accept_of_head?_ne hK]
  rw [nestedName]
  refine Yields.step (run_expect_eq hcursor.rest_eq) (Yields.step hquals ?_)
  refine Yields.step (run_accept_of_head?_ne hR) (Yields.step (run_accept_of_head?_ne hO) ?_)
  exact Yields.bind ((hloop _ hbody).yields.mono fun path cursor' hpath => Yields.pure hpath)

theorem readsName_nested (hpath : Spelled .path path) (hreads : Reads .path path) :
    ReadsName ('N' :: path ++ ['E']) := by
  intro n cursor tail htail hcursor
  cases n with
  | zero => exact Yields.of_none rfl
  | succ n =>
    have hbody : 'N' :: path ++ ['E'] ++ tail = 'N' :: (path ++ 'E' :: tail) := by simp
    rw [hbody] at hcursor
    change Yields (readName (Level.of n)) cursor _
    unfold readName
    refine Yields.step (run_rest cursor) ?_
    rw [hcursor.rest_eq]
    refine yields_nestedName (hpath.begins_path.append _) hcursor fun cursor' hcursor' => ?_
    refine hreads n cursor' _ _ hcursor' fun outer cursor' hcursor' houter => ?_
    exact loops_end hcursor' fun cursor' hcursor' => ⟨hcursor', houter⟩

/-! ### Types -/

theorem reads_builtin (b : Builtin) : Reads .type b.spelling.1 := by
  intro n cursor tail htail hcursor
  cases n with
  | zero => exact Yields.of_none rfl
  | succ n =>
    refine Yields.of_run (run_readType_builtin b hcursor.rest_eq) ⟨hcursor.facing tail, ?_⟩
    rw [Shape.render]
    exact .of_plain b.plain_spelling

theorem yields_readType (hfirst : Begins opensCompound cursor.rest)
    (hread : Yields (compoundType l) cursor fun read cursor' =>
      cursor'.Faces tail ∧ Balanced read.1.render.toList) :
    Yields (readType l) cursor fun shape cursor' =>
      cursor'.Faces tail ∧ Balanced shape.render.toList := by
  refine Yields.congr (run_readType_eq hfirst) (Yields.bind (hread.mono ?_))
  rintro ⟨shape, isNamed⟩ cursor' ⟨hcursor', hshape⟩
  cases isNamed with
  | false => exact Yields.pure ⟨hcursor', hshape⟩
  | true =>
    refine Yields.bind ((hcursor'.remember hshape).mono fun _ cursor'' hcursor'' => ?_)
    exact Yields.pure ⟨hcursor'', hshape⟩

theorem run_compoundType_std {cs : List Char} (hrest : cursor.rest = 'S' :: 't' :: cs) :
    (compoundType l).run cursor =
      (l.name.run cursor).map fun read => ((.name read.1.text, true), read.2) := by
  simp [compoundType, hrest, Option.map_eq_bind]

theorem reads_of_name (hname : ReadsName code) (hfirst : Begins opensCompound code)
    (hclass : ∀ l cursor tail, cursor.rest = code ++ tail → (compoundType l).run cursor =
      (l.name.run cursor).map fun read => ((.name read.1.text, true), read.2)) :
    Reads .type code := by
  intro n cursor tail htail hcursor
  cases n with
  | zero => exact Yields.of_none rfl
  | succ n =>
    have hrest : Begins opensCompound cursor.rest := by
      rw [hcursor.rest_eq]
      exact hfirst.append tail
    refine yields_readType hrest (Yields.of_map (fun name => (.name name.text, true))
      (hclass _ cursor tail hcursor.rest_eq) ((hname n cursor tail htail hcursor).mono ?_))
    rintro name cursor' ⟨hcursor', htext⟩
    refine ⟨hcursor', ?_⟩
    rwa [Shape.render]

theorem reads_of_opensName (hname : ReadsName code) (hfirst : Begins opensName code) :
    Reads .type code := by
  refine reads_of_name hname (hfirst.mono fun c hc => ?_) fun l cursor tail hrest => ?_
  · exact opensName_elim rfl (fun c => opensCompound_of_isDigit) hc
  · refine run_compoundType_name ?_
    rw [hrest]
    exact hfirst.append tail

theorem reads_reference {r : List Char} (hr : IsReference r) (hargs : Reads .suffix args) :
    Reads .type (r ++ args) := by
  intro n cursor tail htail hcursor
  cases n with
  | zero => exact Yields.of_none rfl
  | succ n =>
    rw [List.append_assoc] at hcursor
    have hread := yields_backReference hr hcursor
    obtain ⟨c, cs, rfl, hc⟩ := hr.exists_eq
    have hrest : cursor.rest = 'S' :: c :: (cs ++ (args ++ tail)) := hcursor.rest_eq
    refine yields_readType ⟨'S', _, hrest, rfl⟩ ?_
    unfold compoundType
    refine Yields.step (run_rest cursor) ?_
    rw [hrest]
    split
    case h_9 heq =>
      cases heq
      exact absurd rfl hc
    case h_10 =>
      refine Yields.bind (hread.mono fun shape cursor' hshape => ?_)
      refine Yields.step (run_peek cursor') ?_
      rw [hshape.1.rest_eq]
      rcases hargs with rfl | ⟨⟨cs, rfl⟩, hargs⟩
      · rw [List.nil_append, if_neg htail]
        exact Yields.pure hshape
      · rw [List.cons_append, List.head?_cons, if_pos rfl]
        refine Yields.bind ((hargs n cursor' tail hshape.1).mono fun shapes cursor' hshapes => ?_)
        refine Yields.pure ⟨hshapes.1, ?_⟩
        rw [Shape.render, String.toList_append]
        exact hshape.2.append hshapes.2.balanced
    case h_12 hnot _ heq => exact (hnot (List.cons.inj heq).1.symm).elim
    case h_13 heq => cases heq
    all_goals
      rename_i heq
      exact absurd (List.cons.inj heq).1 (by decide)

theorem Spelled.reads {part : Part} (h : Spelled part code) : Reads part code := by
  induction h with
  | builtin b => exact reads_builtin b
  | unscoped x hargs ih =>
    exact reads_of_opensName (readsName_unscoped x ih) (x.begins_name.append _)
  | std x hargs ih =>
    exact reads_of_name (readsName_std x ih) ⟨'S', _, rfl, rfl⟩ fun l cursor tail hrest =>
      run_compoundType_std hrest
  | reference hr hargs ih => exact reads_reference hr ih
  | nested hpath ih => exact reads_of_opensName (readsName_nested hpath ih) ⟨'N', _, rfl, rfl⟩
  | top x hargs ih => exact reads_top x ih
  | library => exact reads_library
  | back hr hargs ih => exact reads_back hr ih
  | within hpath x hargs ihpath ihargs => exact reads_within ihpath x ihargs
  | nil => exact reads_nil
  | cons ht hargs iht ihargs => exact reads_cons ht.begins_type iht hargs ihargs
  | noArgs => exact .inl rfl
  | argList hargs ih => exact reads_argList ih

end CallTargets.Symbol
