import CallTargets.Proofs.Class.Evidence

/-!
# What vtables show

The arrays of a vtable are found in its initial value (`HasArrays`), and each entry is a function, a
description, a null, an integer or something else (`IsEntry`). An array is cut behind every integer
(`IsCut`). A piece with slots adds one table to the class: its slots in order, behind as many copies
of the first one as the last run of nulls right behind a description is long (`AddsTables`).
An integer shows that the class has several tables, and a vtable with functions that are all pure
virtual that it is abstract. Functions show inheritance by the class of their method, and no other
entry shows anything. `Vtable.recorded_scan` says that this is exactly what the vtables of a module
add to each class.
-/

namespace CallTargets

open Hierarchy (canInherit)

/-! ## One more thing about a class -/

namespace Traits

theorem contains_insert (t : Traits) (bit bit' : UInt8) :
    (t.insert bit).contains bit' = true ↔ t.contains bit' = true ∨ bit &&& bit' ≠ 0 := by
  have hsplit : (t.bits ||| bit) &&& bit' = (t.bits &&& bit') ||| (bit &&& bit') :=
    UInt8.toBitVec_inj.1 BitVec.and_or_distrib_right
  have hzero (x y : UInt8) : x ||| y = 0 ↔ x = 0 ∧ y = 0 := by
    simp only [← UInt8.toBitVec_inj]
    exact BitVec.or_eq_zero_iff
  simp only [contains, insert, hsplit, bne_iff_ne, ne_eq, hzero, not_and_or]

end Traits

namespace Hierarchy

def Has (h : Hierarchy) (c : String) (bit : UInt8) : Prop := (h.traitsOf c).contains bit = true

variable (h : Hierarchy) (c c' : String)

theorem has_addTrait (bit bit' : UInt8) :
    (h.addTrait c bit).Has c' bit' ↔ h.Has c' bit' ∨ c = c' ∧ bit &&& bit' ≠ 0 := by
  unfold Has traitsOf addTrait
  rw [OrdMap.get?_alter]
  by_cases hc : c = c'
  · subst hc
    rw [if_pos rfl, Option.getD_some, Traits.contains_insert]
    simp
  · simp [hc]

section Steps

/- A class may turn out to be an instance of a template when it is added; the other properties are
not touched then. -/
variable {bit : UInt8} (hbit : Traits.template &&& bit = 0)
include hbit

theorem has_addClass : (h.addClass c).Has c' bit ↔ h.Has c' bit := by
  unfold addClass
  split
  · rfl
  · dsimp only
    split
    · refine (has_addTrait _ c c' Traits.template bit).trans (or_iff_left ?_)
      rintro ⟨-, hne⟩
      exact hne hbit
    · rfl

theorem has_inherit (base : String) : (h.inherit c base).2.Has c' bit ↔ h.Has c' bit := by
  unfold inherit
  split
  · exact (has_addClass _ base c' hbit).trans (has_addClass h c c' hbit)
  · rfl

theorem has_setVtable (symbol : String) : (h.setVtable c symbol).Has c' bit ↔ h.Has c' bit :=
  has_addClass h c c' hbit

theorem has_addTable (slots : List FunctionId) :
    (h.addTable c slots).Has c' bit ↔ h.Has c' bit := by
  unfold addTable
  split
  · rfl
  · exact has_addClass h c c' hbit

end Steps

theorem tablesOf_inherit (base : String) : (h.inherit c base).2.tablesOf c' = h.tablesOf c' := by
  rw [tablesOf, tables_inherit, tablesOf]

theorem tablesOf_setVtable (symbol : String) :
    (h.setVtable c symbol).tablesOf c' = h.tablesOf c' := by
  rw [tablesOf, setVtable, tables_addClass, tablesOf]

theorem tablesOf_addTable (slots : List FunctionId) : (h.addTable c slots).tablesOf c' =
    h.tablesOf c' ++ if c = c' ∧ slots ≠ [] then [slots] else [] := by
  unfold addTable tablesOf
  cases slots with
  | nil => simp
  | cons f fs =>
    rw [if_neg (by simp), OrdMap.get?_alter]
    by_cases hc : c = c'
    · subst hc
      simp
    · simp [hc]

theorem edges_setVtable (symbol : String) : (h.setVtable c symbol).edges = h.edges :=
  edges_addClass h c

theorem edges_addTable (slots : List FunctionId) : (h.addTable c slots).edges = h.edges := by
  unfold addTable
  split
  · rfl
  · exact edges_addClass h c

end Hierarchy

namespace Vtable

variable {vs elements : List ValueId} {v init : ValueId} {e : Entry}

/-! ## Entries and arrays -/

/-- What an entry is, by the kind of its value. -/
inductive IsPlain (p : Program) : Option ValueKind → Entry → Prop where
  | function (f : FunctionId) : IsPlain p (some (.function f)) (.function f)
  | typeinfo {g : GlobalId} {global : Global} (hglobal : p.global? g = some global)
      (hname : global.isTypeinfo = true) : IsPlain p (some (.global g)) .typeinfo
  | null : IsPlain p (some (.const .null)) .null
  | integer (n : Int) : IsPlain p (some (.const (.int n))) .offset
  | other {kind : Option ValueKind} (hfunction : ∀ f, kind ≠ some (.function f))
      (hglobal : ∀ g global, kind = some (.global g) → p.global? g = some global →
        global.isTypeinfo = false)
      (hnull : kind ≠ some (.const .null)) (hint : ∀ n, kind ≠ some (.const (.int n))) :
      IsPlain p kind .other

/-- What an entry is. An integer may be cast to a pointer; other casts are looked through. -/
inductive IsEntry (p : Program) (v : ValueId) : Entry → Prop where
  | cast {n : ValueId} (hcast : p.cast? v = some (.intToPtr, n)) : IsEntry p v .offset
  | plain {e : Entry} (hcast : ∀ n, p.cast? v ≠ some (.intToPtr, n))
      (hplain : IsPlain p ((p.value? (p.strip v)).map Value.kind) e) : IsEntry p v e

/-- The value is a constant with these elements. -/
def Holds (p : Program) (v : ValueId) (vs : List ValueId) : Prop :=
  (p.value? v).map Value.kind = some (.const (.aggregate vs))

/-- The elements are a struct with elements of its own and a composite value that is no struct. -/
def Wraps (p : Program) (elements vs : List ValueId) : Prop :=
  ∃ inner trailing, elements = [inner, trailing] ∧ (p.type? inner).any p.types.isStruct = true ∧
    (p.type? trailing).any p.types.isStruct = false ∧ p.isComposite trailing = true ∧
    Holds p inner vs

/-- The elements of those values that have some, in order. -/
inductive Nested (p : Program) : List ValueId → List (List ValueId) → Prop where
  | nil : Nested p [] []
  | array {v : ValueId} {vs rest : List ValueId} {arrays : List (List ValueId)} (hv : Holds p v vs)
      (hrest : Nested p rest arrays) : Nested p (v :: rest) (vs :: arrays)
  | other {v : ValueId} {rest : List ValueId} {arrays : List (List ValueId)}
      (hv : ∀ vs, ¬ Holds p v vs) (hrest : Nested p rest arrays) : Nested p (v :: rest) arrays

/-- The arrays of an initial value are nested in it, or in the struct that it wraps. If there are
none, it is an array itself. -/
inductive HasArrays (p : Program) (init : ValueId) : List (List ValueId) → Prop where
  | none (hinit : ∀ elements, ¬ Holds p init elements) : HasArrays p init []
  | some {elements parts : List ValueId} {arrays : List (List ValueId)}
      (hinit : Holds p init elements)
      (hparts : Wraps p elements parts ∨ (∀ vs, ¬ Wraps p elements vs) ∧ parts = elements)
      (harrays : Nested p parts arrays) :
      HasArrays p init (if arrays = [] then [elements] else arrays)

def Reads (p : Program) (init : ValueId) (arrays : List (List Entry)) : Prop :=
  ∃ values, HasArrays p init values ∧ List.Forall₂ (List.Forall₂ (IsEntry p)) values arrays

section Arrays

variable {p : Program}

theorem isPlain_iff : IsPlain p ((p.value? v).map Value.kind) e ↔ plainEntry p v = e := by
  unfold plainEntry
  generalize (p.value? v).map Value.kind = kind
  constructor
  · rintro (_ | ⟨hglobal, hname⟩ | _ | _ | ⟨hfunction, hglobal, hnull, hint⟩)
    · rfl
    · simp [hglobal, hname]
    · rfl
    · rfl
    · split
      · exact absurd rfl (hfunction _)
      · rename_i g
        refine if_neg fun hany => ?_
        obtain ⟨global, hg, hname⟩ := (Option.any_eq_true _ _).1 hany
        rw [hglobal g global rfl hg] at hname
        cases hname
      · exact absurd rfl hnull
      · exact absurd rfl (hint _)
      · rfl
  · rintro rfl
    split
    · exact .function _
    · rename_i g
      split
      · rename_i hany
        obtain ⟨global, hg, hname⟩ := (Option.any_eq_true _ _).1 hany
        exact .typeinfo hg hname
      · rename_i hany
        refine .other (by simp) (fun g' global hg' hglobal => ?_) (by simp) (by simp)
        cases hg'
        simpa [hglobal] using hany
    · exact .null
    · exact .integer _
    · rename_i hfunction hglobal hnull hint
      exact .other hfunction (fun g _ hg => absurd hg (hglobal g)) hnull hint

theorem isEntry_iff : IsEntry p v e ↔ entry p v = e := by
  unfold entry
  constructor
  · rintro (⟨hcast⟩ | ⟨hcast, hplain⟩)
    · rw [hcast]
    · split
      · rename_i n hn
        exact absurd hn (hcast n)
      · exact isPlain_iff.1 hplain
  · rintro rfl
    split
    · rename_i n hn
      exact .cast hn
    · rename_i hcast
      exact .plain hcast (isPlain_iff.2 rfl)

theorem forall₂_isEntry_iff {arrays : List (List ValueId)} {entries : List (List Entry)} :
    List.Forall₂ (List.Forall₂ (IsEntry p)) arrays entries ↔
      arrays.map (List.map (entry p)) = entries := by
  have hentry : IsEntry p = fun v e => entry p v = e := by
    funext v e
    exact propext isEntry_iff
  have hentries : List.Forall₂ (IsEntry p) = fun vs es => vs.map (entry p) = es := by
    funext vs es
    rw [hentry, ← List.forall₂_map_left_iff (R := Eq), List.forall₂_eq_eq_eq]
  rw [hentries, ← List.forall₂_map_left_iff (R := Eq), List.forall₂_eq_eq_eq]

theorem holds_iff : Holds p v vs ↔ p.elements? v = some vs := by
  rw [Holds, ← Program.const?_eq_some_iff, Program.elements?]
  split <;> simp_all

theorem nested_iff {arrays : List (List ValueId)} :
    Nested p vs arrays ↔ vs.filterMap p.elements? = arrays := by
  constructor
  · intro h
    induction h with
    | nil => rfl
    | array hv _ ih => rw [List.filterMap_cons_some (holds_iff.1 hv), ih]
    | other hv _ ih =>
      have hnone : p.elements? _ = none :=
        Option.eq_none_iff_forall_ne_some.2 fun vs h => hv vs (holds_iff.2 h)
      rw [List.filterMap_cons_none hnone, ih]
  · rintro rfl
    induction vs with
    | nil => exact .nil
    | cons v vs ih =>
      cases hv : p.elements? v with
      | none =>
        rw [List.filterMap_cons_none hv]
        exact .other (fun vs h => by simp [holds_iff.1 h] at hv) ih
      | some elements =>
        rw [List.filterMap_cons_some hv]
        exact .array (holds_iff.2 hv) ih

theorem parts_eq_of_wraps (h : Wraps p elements vs) : parts p elements = vs := by
  obtain ⟨inner, trailing, rfl, hinner, htrailing, hcomposite, hvs⟩ := h
  simp [parts, hinner, htrailing, hcomposite, holds_iff.1 hvs]

theorem parts_eq_of_not_wraps (h : ∀ vs, ¬ Wraps p elements vs) : parts p elements = elements := by
  unfold parts
  split
  · rename_i inner trailing
    split
    · rename_i hshape
      simp only [Bool.and_eq_true, Bool.not_eq_true'] at hshape
      cases hvs : p.elements? inner with
      | none => rfl
      | some vs =>
        exact absurd ⟨inner, trailing, rfl, hshape.1.1, hshape.1.2, hshape.2, holds_iff.2 hvs⟩
          (h vs)
    · rfl
  · rfl

theorem hasParts_iff :
    (Wraps p elements vs ∨ (∀ vs, ¬ Wraps p elements vs) ∧ vs = elements) ↔
      parts p elements = vs := by
  constructor
  · rintro (h | ⟨h, rfl⟩)
    · exact parts_eq_of_wraps h
    · exact parts_eq_of_not_wraps h
  · rintro rfl
    by_cases h : ∃ vs, Wraps p elements vs
    · obtain ⟨vs, h⟩ := h
      exact .inl (parts_eq_of_wraps h ▸ h)
    · have hnot := not_exists.1 h
      exact .inr ⟨hnot, parts_eq_of_not_wraps hnot⟩

theorem arrays_eq_of_hasArrays {values : List (List ValueId)} (h : HasArrays p init values) :
    arrays p init = values.map (List.map (entry p)) := by
  unfold arrays
  cases h with
  | none hinit =>
    rw [Option.eq_none_iff_forall_ne_some.2 fun vs hvs => hinit vs (holds_iff.2 hvs)]
    rfl
  | some hinit hparts hnested =>
    rw [holds_iff.1 hinit, ← nested_iff.1 hnested, ← hasParts_iff.1 hparts]
    dsimp only
    cases (parts p _).filterMap p.elements? <;> rfl

theorem exists_hasArrays (init : ValueId) : ∃ values, HasArrays p init values := by
  cases hinit : p.elements? init with
  | none => exact ⟨_, .none fun vs hvs => by simp [holds_iff.1 hvs] at hinit⟩
  | some elements =>
    exact ⟨_, .some (holds_iff.2 hinit) (hasParts_iff.2 rfl) (nested_iff.2 rfl)⟩

theorem reads_iff {entries : List (List Entry)} :
    Reads p init entries ↔ arrays p init = entries := by
  constructor
  · rintro ⟨values, hvalues, hentries⟩
    rw [arrays_eq_of_hasArrays hvalues]
    exact forall₂_isEntry_iff.1 hentries
  · rintro rfl
    obtain ⟨values, hvalues⟩ := exists_hasArrays (p := p) init
    exact ⟨values, hvalues, forall₂_isEntry_iff.2 (arrays_eq_of_hasArrays hvalues).symm⟩

variable (p) in
theorem exists_reads_iff {P : List (List Entry) → Prop} :
    (∃ entries, Reads p init entries ∧ P entries) ↔ P (arrays p init) := by
  simp only [reads_iff, exists_eq_left']

end Arrays

/-! ## Tables -/

inductive IsCut : List Entry → List (List Entry) → Prop where
  | nil : IsCut [] []
  | last {piece : List Entry} (hpiece : piece ≠ []) (hinside : .offset ∉ piece) :
      IsCut piece [piece]
  | cut (piece : List Entry) {rest : List Entry} {pieces : List (List Entry)}
      (hinside : .offset ∉ piece) (hrest : IsCut rest pieces) :
      IsCut (piece ++ .offset :: rest) ((piece ++ [.offset]) :: pieces)

/-- The function calls another one directly, and makes no direct call after that. -/
def LastCallee (p : Program) (f g : FunctionId) : Prop :=
  ∃ before site after, p.callSites f = before ++ site :: after ∧
    p.baseFunction? site.call.callee = some g ∧
    ∀ later ∈ after, p.baseFunction? later.call.callee = none

inductive FillsSlots (p : Program) : List Entry → List FunctionId → Prop where
  | nil : FillsSlots p [] []
  | method {f : FunctionId} {rest : List Entry} {fs : List FunctionId}
      (hf : Symbol.thunkKind? (p.functionName f) = none) (hrest : FillsSlots p rest fs) :
      FillsSlots p (.function f :: rest) (f :: fs)
  | thunk {f g : FunctionId} {rest : List Entry} {fs : List FunctionId}
      (hf : Symbol.thunkKind? (p.functionName f) ≠ none) (hg : LastCallee p f g)
      (hrest : FillsSlots p rest fs) : FillsSlots p (.function f :: rest) (g :: fs)
  | dropped {f : FunctionId} {rest : List Entry} {fs : List FunctionId}
      (hf : Symbol.thunkKind? (p.functionName f) ≠ none)
      (hnone : ∀ site ∈ p.callSites f, p.baseFunction? site.call.callee = none)
      (hrest : FillsSlots p rest fs) : FillsSlots p (.function f :: rest) fs
  | other {e : Entry} {rest : List Entry} {fs : List FunctionId} (he : ∀ f, e ≠ .function f)
      (hrest : FillsSlots p rest fs) : FillsSlots p (e :: rest) fs

/-- There are nulls right behind a description, and the last run of them has a length. -/
def LastRun (piece : List Entry) (n : Nat) : Prop :=
  0 < n ∧ ∃ before behind, piece = before ++ .typeinfo :: (List.replicate n .null ++ behind) ∧
    behind.head? ≠ some .null ∧ ¬ [.typeinfo, .null] <:+: behind

/-- The number of copies of the first slot in front of the slots of a piece. -/
def Copies (piece : List Entry) (n : Nat) : Prop :=
  LastRun piece n ∨ n = 0 ∧ ¬ [.typeinfo, .null] <:+: piece

inductive AddsTables (p : Program) : List (List Entry) → List (List FunctionId) → Prop where
  | nil : AddsTables p [] []
  | empty {piece : List Entry} {pieces : List (List Entry)} {tables : List (List FunctionId)}
      (hslots : FillsSlots p piece []) (hpieces : AddsTables p pieces tables) :
      AddsTables p (piece :: pieces) tables
  | table {piece : List Entry} {pieces : List (List Entry)} {tables : List (List FunctionId)}
      {first : FunctionId} {rest : List FunctionId} {n : Nat}
      (hslots : FillsSlots p piece (first :: rest)) (hcopies : Copies piece n)
      (hpieces : AddsTables p pieces tables) :
      AddsTables p (piece :: pieces) ((List.replicate n first ++ first :: rest) :: tables)

def HasTables (p : Program) (init : ValueId) (tables : List (List FunctionId)) : Prop :=
  ∃ arrays pieces, Reads p init arrays ∧ List.Forall₂ IsCut arrays pieces ∧
    AddsTables p pieces.flatten tables

section Tables

variable {p : Program}

theorem IsCut.cons (he : e ≠ .offset) {rest : List Entry} {pieces : List (List Entry)}
    (h : IsCut rest pieces) : IsCut (e :: rest) ((e :: pieces.headD []) :: pieces.tail) := by
  cases h with
  | nil => exact .last (by simp) (by simpa using he.symm)
  | last hpiece hinside => exact .last (by simp) (by simp [he.symm, hinside])
  | cut piece hinside hrest => exact .cut (e :: piece) (by simp [he.symm, hinside]) hrest

theorem isCut_cut (array : List Entry) : IsCut array (cut array) := by
  induction array with
  | nil => exact .nil
  | cons e rest ih =>
    by_cases he : e = .offset
    · subst he
      exact .cut [] (by simp) ih
    · rw [cut_cons he]
      exact ih.cons he

theorem lastCallee_of_thunkTarget? {f g : FunctionId} (h : thunkTarget? p f = some g) :
    LastCallee p f g := by
  rw [thunkTarget?, List.getLast?_filterMap] at h
  obtain ⟨after, site, before, hsites, hsite, hafter⟩ := List.findSome?_eq_some_iff.1 h
  refine ⟨before.reverse, site, after.reverse, ?_, hsite, fun later hlater => ?_⟩
  · rw [← List.reverse_reverse (p.callSites f), hsites]
    simp
  · exact hafter later (List.mem_reverse.1 hlater)

theorem fillsSlots_filterMap (piece : List Entry) :
    FillsSlots p piece (piece.filterMap (slot? p)) := by
  induction piece with
  | nil => exact .nil
  | cons e rest ih =>
    cases e with
    | function f =>
      rw [List.filterMap_cons, slot?]
      by_cases hf : Symbol.thunkKind? (p.functionName f) = none
      · rw [hf, Option.isSome_none, if_neg Bool.false_ne_true]
        exact .method hf ih
      · rw [if_pos (Option.isSome_iff_ne_none.2 hf)]
        cases htarget : thunkTarget? p f with
        | none =>
          refine .dropped hf (fun site hsite => ?_) ih
          rw [thunkTarget?, List.getLast?_filterMap, List.findSome?_eq_none_iff] at htarget
          exact htarget site (List.mem_reverse.2 hsite)
        | some g => exact .thunk hf (lastCallee_of_thunkTarget? htarget) ih
    | _ => exact .other (by simp) ih

theorem padding?_eq_none_iff (piece : List Entry) :
    padding? piece = none ↔ ¬ [.typeinfo, .null] <:+: piece := by
  induction piece with
  | nil => simp [padding?]
  | cons e rest ih =>
    have hhere : [.typeinfo, .null] <+: e :: rest ↔ e = .typeinfo ∧ rest.head? = some .null := by
      cases rest <;> simp [List.cons_prefix_cons, eq_comm]
    rw [padding?_cons, Option.or_eq_none_iff, ih, List.infix_cons_iff, hhere, not_or, and_comm]
    refine and_congr_left' ?_
    split <;> simp_all

theorem lastRun_of_head {rest : List Entry} (hhead : rest.head? = some .null)
    (hnone : ¬ [.typeinfo, .null] <:+: rest) :
    LastRun (.typeinfo :: rest) (rest.takeWhile (· = .null)).length := by
  have hnulls : rest.takeWhile (· = .null) =
      List.replicate (rest.takeWhile (· = .null)).length .null :=
    List.eq_replicate_of_mem fun e he =>
      of_decide_eq_true (List.all_eq_true.1 List.all_takeWhile e he)
  refine ⟨?_, [], rest.dropWhile (· = .null), ?_, fun hnull => ?_, fun hpair => ?_⟩
  · obtain ⟨rest, rfl⟩ := List.head?_eq_some_iff.1 hhead
    simp
  · rw [← hnulls, List.takeWhile_append_dropWhile, List.nil_append]
  · obtain ⟨behind, hbehind⟩ := List.head?_eq_some_iff.1 hnull
    have hne : rest.dropWhile (· = .null) ≠ [] := by simp [hbehind]
    have hstop := List.head_dropWhile_not (fun e : Entry => e = .null) hne
    simp [hbehind] at hstop
  · exact hnone (hpair.trans (List.dropWhile_suffix _).isInfix)

theorem lastRun_of_padding? {piece : List Entry} {n : Nat} (h : padding? piece = some n) :
    LastRun piece n := by
  induction piece with
  | nil => cases h
  | cons e rest ih =>
    rw [padding?_cons] at h
    cases hrest : padding? rest with
    | some m =>
      rw [hrest, Option.some_or, Option.some.injEq] at h
      subst h
      obtain ⟨hpos, before, behind, hpiece, hbehind⟩ := ih hrest
      exact ⟨hpos, e :: before, behind, congrArg (e :: ·) hpiece, hbehind⟩
    | none =>
      rw [hrest, Option.none_or] at h
      split at h
      · rename_i hrun
        obtain ⟨rfl, hhead⟩ := hrun
        cases h
        exact lastRun_of_head hhead ((padding?_eq_none_iff rest).1 hrest)
      · cases h

theorem copies_padding? (piece : List Entry) : Copies piece ((padding? piece).getD 0) := by
  cases h : padding? piece with
  | none => exact .inr ⟨rfl, (padding?_eq_none_iff piece).1 h⟩
  | some n => exact .inl (lastRun_of_padding? h)

theorem addsTables_slots (pieces : List (List Entry)) :
    AddsTables p pieces ((pieces.map (slots p)).filter (· ≠ [])) := by
  induction pieces with
  | nil => exact .nil
  | cons piece pieces ih =>
    have hslots := fillsSlots_filterMap (p := p) piece
    rw [List.map_cons, slots]
    cases hfs : piece.filterMap (slot? p) with
    | nil =>
      rw [hfs] at hslots
      exact .empty hslots ih
    | cons first rest =>
      rw [hfs] at hslots
      rw [List.filter_cons_of_pos (by simp)]
      exact .table hslots (copies_padding? piece) ih

variable (p) in
/-- The tables that a vtable adds, piece by piece. -/
def tables (init : ValueId) : List (List FunctionId) :=
  (((arrays p init).flatMap cut).map (slots p)).filter (· ≠ [])

theorem hasTables_tables (init : ValueId) : HasTables p init (tables p init) := by
  refine ⟨arrays p init, (arrays p init).map cut, reads_iff.2 rfl, ?_, ?_⟩
  · rw [List.forall₂_map_right_iff]
    exact List.forall₂_same.2 fun array _ => isCut_cut array
  · rw [← List.flatMap_def]
    exact addsTables_slots _

end Tables

/-! ## What a vtable adds -/

section Record

variable (p : Program) (c c' : String)

def owner? (f : FunctionId) : Option String :=
  (Symbol.Method.ofSymbol? (p.functionName f)).map Symbol.Method.owner

theorem recordOwner_eq (h : Hierarchy) (f : FunctionId) : recordOwner p c h f =
    (owner? p f).elim h fun base => (h.inherit c base).2 := by
  unfold recordOwner owner?
  cases Symbol.Method.ofSymbol? (p.functionName f) <;> rfl

theorem tablesOf_recordEntry (h : Hierarchy) (e : Entry) :
    (recordEntry p c h e).tablesOf c' = h.tablesOf c' := by
  cases e with
  | function f =>
    rw [recordEntry, recordOwner_eq]
    cases owner? p f with
    | none => rfl
    | some base => exact h.tablesOf_inherit c c' base
  | _ => rfl

theorem has_recordEntry {bit : UInt8} (hbit : Traits.template &&& bit = 0) (h : Hierarchy)
    (e : Entry) : (recordEntry p c h e).Has c' bit ↔
      h.Has c' bit ∨ c = c' ∧ e = .offset ∧ Traits.multipleInheritance &&& bit ≠ 0 := by
  cases e with
  | function f =>
    rw [recordEntry, recordOwner_eq]
    cases owner? p f with
    | none => simp
    | some base => simpa using h.has_inherit c c' hbit base
  | offset =>
    rw [recordEntry, h.has_addTrait, and_iff_right rfl]
  | _ => simp [recordEntry]

theorem mem_edges_recordEntry (base : String) (h : Hierarchy) (e : Entry) :
    (c', base) ∈ (recordEntry p c h e).edges ↔ (c', base) ∈ h.edges ∨
      c = c' ∧ canInherit c' base = true ∧ ∃ f, e = .function f ∧ owner? p f = some base := by
  cases e with
  | function f =>
    rw [recordEntry, recordOwner_eq]
    cases howner : owner? p f with
    | none => simp [howner]
    | some owner =>
      rw [Option.elim_some, Hierarchy.mem_edges_inherit]
      refine or_congr_right ⟨?_, ?_⟩
      · rintro ⟨hcan, ⟨⟩⟩
        exact ⟨rfl, hcan, f, rfl, howner⟩
      · rintro ⟨rfl, hcan, f, ⟨⟩, hbase⟩
        rw [howner, Option.some.injEq] at hbase
        subst hbase
        exact ⟨hcan, rfl⟩
  | offset => simp [recordEntry, Hierarchy.addTrait]
  | _ => simp [recordEntry]

theorem tablesOf_recordTable (h : Hierarchy) (piece : List Entry) :
    (recordTable p c h piece).tablesOf c' =
      h.tablesOf c' ++ if c = c' ∧ slots p piece ≠ [] then [slots p piece] else [] := by
  have hentries : (piece.foldl (recordEntry p c) h).tablesOf c' = h.tablesOf c' :=
    List.foldlRecOn (motive := fun h' : Hierarchy => h'.tablesOf c' = h.tablesOf c') piece _ rfl
      fun h' heq e _ => (tablesOf_recordEntry p c c' h' e).trans heq
  rw [recordTable, Hierarchy.tablesOf_addTable, hentries]

theorem tablesOf_record (h : Hierarchy) (symbol : String) (init : ValueId) :
    (record p h c symbol init).tablesOf c' =
      h.tablesOf c' ++ if c = c' then tables p init else [] := by
  have hpieces (h : Hierarchy) (pieces : List (List Entry)) :
      (pieces.foldl (recordTable p c) h).tablesOf c' = h.tablesOf c' ++
        if c = c' then (pieces.map (slots p)).filter (· ≠ []) else [] := by
    induction pieces generalizing h with
    | nil => simp
    | cons piece pieces ih =>
      rw [List.foldl_cons, ih, tablesOf_recordTable, List.append_assoc, List.map_cons]
      by_cases hc : c = c' <;> by_cases hslots : slots p piece = [] <;> simp [hc, hslots]
  have htrait (h : Hierarchy) (bit : UInt8) : (h.addTrait c bit).tablesOf c' = h.tablesOf c' := rfl
  rw [record_eq, apply_ite (Hierarchy.tablesOf · c'), htrait, ite_self, hpieces,
    Hierarchy.tablesOf_setVtable]
  rfl

/-- The vtable has functions, and all of them are pure virtual. -/
def AllPure (init : ValueId) : Prop :=
  ∃ arrays, Reads p init arrays ∧ (∃ f, .function f ∈ arrays.flatten) ∧
    ∀ f, .function f ∈ arrays.flatten → p.functionName f = "__cxa_pure_virtual"

theorem mem_functions {entries : List Entry} {f : FunctionId} :
    f ∈ entries.filterMap function? ↔ .function f ∈ entries := by
  rw [List.mem_filterMap]
  constructor
  · rintro ⟨e, he, hf⟩
    cases e with
    | function g =>
      cases hf
      exact he
    | _ => cases hf
  · exact fun hf => ⟨_, hf, rfl⟩

theorem allPure_iff (init : ValueId) : AllPure p init ↔
    (!((arrays p init).flatten.filterMap function?).isEmpty &&
      ((arrays p init).flatten.filterMap function?).all fun f =>
        p.functionName f = Symbol.pureVirtual) = true := by
  have hsome (fs : List FunctionId) : fs.isEmpty = false ↔ ∃ f, f ∈ fs := by
    rw [List.isEmpty_eq_false_iff]
    exact ⟨List.exists_mem_of_ne_nil fs, fun hf => hf.elim fun _ => List.ne_nil_of_mem⟩
  simp only [AllPure, exists_reads_iff, Bool.and_eq_true, Bool.not_eq_true',
    List.all_eq_true, mem_functions, decide_eq_true_eq, hsome]
  rfl

theorem flatten_pieces (init : ValueId) :
    ((arrays p init).flatMap cut).flatten = (arrays p init).flatten := by
  induction arrays p init with
  | nil => rfl
  | cons array arrays ih =>
    rw [List.flatMap_cons, List.flatten_append, flatten_cut, ih, List.flatten_cons]

variable {p c} in
theorem record_adds_iff {P : Hierarchy → Prop} {adds : Entry → Prop} {pure : Prop}
    (hentry : ∀ h e, P (recordEntry p c h e) ↔ P h ∨ adds e)
    (htable : ∀ h slots, P (h.addTable c slots) ↔ P h)
    (hpure : ∀ h, P (h.addTrait c Traits.pureAbstract) ↔ P h ∨ pure)
    {h : Hierarchy} {symbol : String} (hset : P (h.setVtable c symbol) ↔ P h) (init : ValueId) :
    P (record p h c symbol init) ↔
      P h ∨ (∃ e ∈ (arrays p init).flatten, adds e) ∨ AllPure p init ∧ pure := by
  have hpiece (h : Hierarchy) (piece : List Entry) :
      P (recordTable p c h piece) ↔ P h ∨ ∃ e ∈ piece, adds e :=
    (htable _ _).trans (foldl_adds_iff (fun h e _ => hentry h e) h)
  have htables : P (((arrays p init).flatMap cut).foldl (recordTable p c) (h.setVtable c symbol)) ↔
      P h ∨ ∃ e ∈ (arrays p init).flatten, adds e := by
    rw [foldl_adds_iff (P := P) fun h piece _ => hpiece h piece, hset, ← flatten_pieces]
    simp only [List.mem_flatten]
    grind
  rw [record_eq, ← or_assoc, ← htables]
  split
  · rename_i hall
    rw [hpure, and_iff_right ((allPure_iff p init).2 hall)]
  · rename_i hnot
    exact (or_iff_left fun hall => hnot ((allPure_iff p init).1 hall.1)).symm

variable (h : Hierarchy) (symbol : String) (init : ValueId)

theorem has_record {bit : UInt8} (hbit : Traits.template &&& bit = 0) :
    (record p h c symbol init).Has c' bit ↔ h.Has c' bit ∨ c = c' ∧
      (.offset ∈ (arrays p init).flatten ∧ Traits.multipleInheritance &&& bit ≠ 0 ∨
        AllPure p init ∧ Traits.pureAbstract &&& bit ≠ 0) := by
  refine (record_adds_iff (P := (Hierarchy.Has · c' bit)) (has_recordEntry p c c' hbit)
    (fun h => h.has_addTable c c' hbit) (fun h => h.has_addTrait c c' _ bit)
    (h.has_setVtable c c' hbit symbol) init).trans (or_congr_right ⟨?_, ?_⟩)
  · rintro (⟨e, he, hc, rfl, hne⟩ | ⟨hall, hc, hne⟩)
    · exact ⟨hc, .inl ⟨he, hne⟩⟩
    · exact ⟨hc, .inr ⟨hall, hne⟩⟩
  · rintro ⟨hc, ⟨he, hne⟩ | ⟨hall, hne⟩⟩
    · exact .inl ⟨_, he, hc, rfl, hne⟩
    · exact .inr ⟨hall, hc, hne⟩

theorem mem_edges_record (base : String) :
    (c', base) ∈ (record p h c symbol init).edges ↔ (c', base) ∈ h.edges ∨ c = c' ∧
      canInherit c' base = true ∧
        ∃ f, .function f ∈ (arrays p init).flatten ∧ owner? p f = some base := by
  have hpure (h : Hierarchy) : (c', base) ∈ (h.addTrait c Traits.pureAbstract).edges ↔
      (c', base) ∈ h.edges ∨ False := (or_iff_left id).symm
  refine (record_adds_iff (P := ((c', base) ∈ Hierarchy.edges ·))
    (mem_edges_recordEntry p c c' base) (fun h slots => by rw [h.edges_addTable]) hpure
    (by rw [h.edges_setVtable]) init).trans (or_congr_right ⟨?_, ?_⟩)
  · rintro (⟨e, he, hc, hcan, f, rfl, howner⟩ | ⟨-, ⟨⟩⟩)
    exact ⟨hc, hcan, f, he, howner⟩
  · rintro ⟨hc, hcan, f, hf, howner⟩
    exact .inl ⟨_, hf, hc, hcan, f, rfl, howner⟩

end Record

/-! ## What a module adds -/

section Scan

variable (p : Program) (m : Module) (c : String)

/-- The initial values of the vtables of a class, in the order of the module. -/
def initsOf : List ValueId :=
  (m.globals.filterMap p.global?).filterMap fun g =>
    if g.isVtable = true ∧ Symbol.vtableClass? g.name = some c then g.init else none

def initOf? (found : String × String × ValueId) : Option ValueId :=
  if found.1 = c then some found.2.2 else none

theorem initsOf_eq :
    initsOf p m c = (m.globals.filterMap (ofGlobal? p)).filterMap (initOf? c) := by
  rw [initsOf, List.filterMap_filterMap, List.filterMap_filterMap]
  congr 1
  funext id
  unfold ofGlobal?
  cases p.global? id with
  | none => rfl
  | some g =>
    cases hvtable : g.isVtable <;> cases hinit : g.init <;>
      cases hclass : Symbol.vtableClass? g.name <;> simp [initOf?, hvtable, hinit, hclass]

theorem exists_initsOf_iff {shows : ValueId → Prop} : (∃ init ∈ initsOf p m c, shows init) ↔
    ∃ found ∈ m.globals.filterMap (ofGlobal? p), found.1 = c ∧ shows found.2.2 := by
  rw [initsOf_eq]
  simp only [List.mem_filterMap (l := m.globals.filterMap _), initOf?,
    Option.ite_none_right_eq_some, Option.some.injEq]
  grind

theorem scan_adds_iff {P : Hierarchy → Prop} {shows : ValueId → Prop}
    (hrecord : ∀ h c' symbol init, P (record p h c' symbol init) ↔ P h ∨ c' = c ∧ shows init)
    (h : Hierarchy) : P (scan p h m).2 ↔ P h ∨ ∃ init ∈ initsOf p m c, shows init := by
  rw [exists_initsOf_iff]
  exact foldl_adds_iff (P := P) (fun h found _ => hrecord h found.1 found.2.1 found.2.2) h

theorem tablesOf_scan (h : Hierarchy) :
    (scan p h m).2.tablesOf c = h.tablesOf c ++ (initsOf p m c).flatMap (tables p) := by
  rw [initsOf_eq]
  unfold scan
  generalize m.globals.filterMap (ofGlobal? p) = found
  dsimp only
  induction found generalizing h with
  | nil => simp
  | cons first found ih =>
    rw [List.foldl_cons, ih, tablesOf_record, List.append_assoc, List.filterMap_cons, initOf?]
    by_cases hc : first.1 = c <;> simp [hc]

/-- What the vtables of a module add to a class. -/
structure Recorded (h h' : Hierarchy) : Prop where
  tables : ∃ added, List.Forall₂ (HasTables p) (initsOf p m c) added ∧
    h'.tablesOf c = h.tablesOf c ++ added.flatten
  multipleInheritance : h'.Has c Traits.multipleInheritance ↔
    h.Has c Traits.multipleInheritance ∨
      ∃ init ∈ initsOf p m c, ∃ arrays, Reads p init arrays ∧ .offset ∈ arrays.flatten
  pureAbstract : h'.Has c Traits.pureAbstract ↔
    h.Has c Traits.pureAbstract ∨ ∃ init ∈ initsOf p m c, AllPure p init
  edges (base : String) : (c, base) ∈ h'.edges ↔ (c, base) ∈ h.edges ∨
    ∃ init ∈ initsOf p m c, canInherit c base = true ∧ ∃ arrays, Reads p init arrays ∧
      ∃ f, .function f ∈ arrays.flatten ∧ owner? p f = some base

/-- The vtables of a module add their tables to each class, with all slots in order, and what their
entries show besides. -/
theorem recorded_scan (h : Hierarchy) : Recorded p m c h (scan p h m).2 where
  tables := by
    refine ⟨(initsOf p m c).map (Vtable.tables p), ?_, ?_⟩
    · rw [List.forall₂_map_right_iff]
      exact List.forall₂_same.2 fun init _ => hasTables_tables init
    · rw [tablesOf_scan, List.flatMap_def]
  multipleInheritance := by
    have hsame : Traits.multipleInheritance &&& Traits.multipleInheritance ≠ 0 := by decide
    have hother : Traits.pureAbstract &&& Traits.multipleInheritance = 0 := rfl
    refine scan_adds_iff p m c (P := (Hierarchy.Has · c _)) (fun h c' symbol init => ?_) h
    refine (has_record p c' c h symbol init rfl).trans (or_congr_right (and_congr_right' ?_))
    rw [and_iff_left hsame, or_iff_left fun hall => hall.2 hother, exists_reads_iff]
  pureAbstract := by
    have hsame : Traits.pureAbstract &&& Traits.pureAbstract ≠ 0 := by decide
    have hother : Traits.multipleInheritance &&& Traits.pureAbstract = 0 := rfl
    refine scan_adds_iff p m c (P := (Hierarchy.Has · c _)) (fun h c' symbol init => ?_) h
    refine (has_record p c' c h symbol init rfl).trans (or_congr_right (and_congr_right' ?_))
    rw [and_iff_left hsame, or_iff_right fun he => he.2 hother]
  edges base := by
    refine scan_adds_iff p m c (P := ((c, base) ∈ Hierarchy.edges ·)) (fun h c' symbol init => ?_) h
    rw [exists_reads_iff]
    exact mem_edges_record p c' c h symbol init base

end Scan

open Sample in
/-- The vtable of `A` is a struct in front of an array. It has a slot for `f`, then behind an offset
a table with a description, two nulls, a thunk for `g`, and `f`. -/
def virtualBase : Program :=
  let const (t : Nat) (c : Const) : Value := value t (.const c)
  let function (name : String) (n : Nat) (blocks : List Block) : Function :=
    ⟨name, 8, 0, .external, [⟨3 + n⟩], blocks, ⟨n⟩, false⟩
  Program.withUses
    { types := ⟨#[.void, .integer 8, .pointer 1, .array 2 7, .struct none [3] false, .array 1 4,
        .struct none [4, 5] false, .pointer 6, .function 0 [2] false, .pointer 8]⟩
      values := #[value 9 (.function 0), value 9 (.function 1), value 9 (.function 2),
        value 2 (.argument 0 0), value 2 (.argument 1 0), value 2 (.argument 2 0),
        value 7 (.global 0), value 2 (.global 1), const 1 (.int (-8)),
        const 2 (.cast .intToPtr 8), const 2 .null, const 2 (.cast .bitCast 0),
        const 2 (.cast .bitCast 2), const 3 (.aggregate [11, 9, 7, 10, 10, 12, 11]),
        const 4 (.aggregate [13]), const 5 .undef, const 6 (.aggregate [14, 15]),
        value 0 (.instr ⟨2, 0, .call ⟨1, [5], 8, false⟩, none⟩)]
      functions := #[function "_ZN1A1fEv" 0 [], function "_ZN1A1gEv" 1 [],
        function "_ZThn8_N1A1gEv" 2 [⟨0, [17]⟩]]
      globals := #[⟨"_ZTV1A", 0, 6, 6, some 16, .external, true⟩,
        ⟨"_ZTI1A", 0, 1, 7, none, .external, true⟩]
      modules := #[⟨0, "a.cpp", [0, 1, 2], [0, 1], []⟩] }

def virtualBaseModule : Module := ⟨0, "a.cpp", [0, 1, 2], [0, 1], []⟩

theorem recorded_scan_virtualBase : virtualBase.Valid ∧
    Reads virtualBase 16
      [[.function 0, .offset, .typeinfo, .null, .null, .function 2, .function 0]] ∧
    (∃ added, List.Forall₂ (HasTables virtualBase) [16] added ∧
      added.flatten = [[0], [1, 1, 1, 0]]) ∧
    (scan virtualBase {} virtualBaseModule).2.Has "A" Traits.multipleInheritance := by
  have hrecorded := recorded_scan virtualBase virtualBaseModule "A" {}
  have hinits : initsOf virtualBase virtualBaseModule "A" = [16] := by decide +kernel
  have hreads : Reads virtualBase 16
      [[.function 0, .offset, .typeinfo, .null, .null, .function 2, .function 0]] :=
    reads_iff.2 (by decide +kernel)
  obtain ⟨added, hadded, htables⟩ := hrecorded.tables
  have hscan : (scan virtualBase {} virtualBaseModule).2.tablesOf "A" = [[0], [1, 1, 1, 0]] := by
    decide +kernel
  rw [hinits] at hadded
  rw [hscan] at htables
  refine ⟨Program.valid_withUses (by decide +kernel), hreads, ⟨added, hadded, htables.symm⟩,
    hrecorded.multipleInheritance.2 (.inr ?_)⟩
  rw [hinits]
  exact ⟨16, by simp, _, hreads, by decide⟩

end Vtable

end CallTargets
