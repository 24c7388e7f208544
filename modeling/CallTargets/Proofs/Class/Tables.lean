import CallTargets.Class.Vtable

/-!
# Vtables table by table

The entries of a vtable are read in one pass, with the table that is being read as its state. What
the pass records is what the tables show one after another (`record_eq`): each array is cut behind
every integer (`cut`), what the entries of a piece say about the class is recorded entry by entry,
and then the slots of the piece are added. The pass counts a run of nulls ahead, over all entries
behind it, and not only over those of the table. That makes no difference, since a table ends with
an integer or with its array (`takeWhile_head_cut`).
-/

namespace CallTargets

namespace Vtable

/-! ## Pieces -/

/-- The tables of an array: it is cut behind every integer. -/
def cut : List Entry → List (List Entry)
  | [] => []
  | .offset :: rest => [.offset] :: cut rest
  | e :: rest =>
    match cut rest with
    | [] => [[e]]
    | piece :: pieces => (e :: piece) :: pieces

/-- The length of the last run of nulls right behind a description. -/
def padding? : List Entry → Option Nat
  | [] => none
  | e :: rest =>
    match padding? rest with
    | some n => some n
    | none =>
      if e = .typeinfo && rest.head? = some .null then
        some (rest.takeWhile (· = .null)).length
      else none

def slots (p : Program) (table : List Entry) : List FunctionId :=
  match table.filterMap (slot? p) with
  | [] => []
  | first :: rest => List.replicate ((padding? table).getD 0) first ++ first :: rest

/-- What an entry says about its class: it has several tables, or it inherits a method. -/
def recordEntry (p : Program) (c : String) (h : Hierarchy) : Entry → Hierarchy
  | .offset => h.addTrait c Traits.multipleInheritance
  | .function f => recordOwner p c h f
  | _ => h

def recordTable (p : Program) (c : String) (h : Hierarchy) (table : List Entry) : Hierarchy :=
  (table.foldl (recordEntry p c) h).addTable c (slots p table)

def function? : Entry → Option FunctionId
  | .function f => some f
  | _ => none

theorem cut_cons {e : Entry} (he : e ≠ .offset) (rest : List Entry) :
    cut (e :: rest) = (e :: (cut rest).headD []) :: (cut rest).tail := by
  cases hcut : cut rest with
  | nil =>
    cases e with
    | offset => exact absurd rfl he
    | _ => simp only [cut, hcut, List.headD_nil, List.tail_nil]
  | cons piece pieces =>
    cases e with
    | offset => exact absurd rfl he
    | _ => simp only [cut, hcut, List.headD_cons, List.tail_cons]

theorem flatten_cut (array : List Entry) : (cut array).flatten = array := by
  induction array with
  | nil => rfl
  | cons e rest ih =>
    by_cases he : e = .offset
    · subst he
      rw [cut, List.flatten_cons, ih, List.singleton_append]
    · have hjoin : (cut rest).headD [] ++ (cut rest).tail.flatten = (cut rest).flatten := by
        cases cut rest <;> rfl
      rw [cut_cons he, List.flatten_cons, List.cons_append, hjoin, ih]

theorem mem_of_mem_cut {table array : List Entry} {e : Entry} (htable : table ∈ cut array)
    (he : e ∈ table) : e ∈ array := by
  rw [← flatten_cut array]
  exact List.mem_flatten_of_mem htable he

theorem takeWhile_head_cut (array : List Entry) :
    ((cut array).headD []).takeWhile (· = .null) = array.takeWhile (· = .null) := by
  induction array with
  | nil => rfl
  | cons e rest ih =>
    by_cases he : e = .offset
    · subst he
      rfl
    · rw [cut_cons he, List.headD_cons, List.takeWhile_cons, List.takeWhile_cons, ih]

/-! ## Slots -/

theorem pad_cons (first : FunctionId) (rest : List FunctionId) (nulls : Nat) :
    pad (first :: rest) nulls = List.replicate nulls first ++ first :: rest := by
  unfold pad
  induction nulls with
  | zero => rfl
  | succ n ih =>
    have hplace : (List.replicate n first ++ first :: rest)[n]? = some first := by
      rw [List.getElem?_append_right (by simp)]
      simp
    rw [List.range_succ, List.foldl_append, ih, List.foldl_cons, List.foldl_nil, hplace]
    rfl

example : pad [4, 7] 2 = [4, 4, 4, 7] := by decide

theorem pad_nil (nulls : Nat) : pad [] nulls = [] := by
  unfold pad
  induction nulls with
  | zero => rfl
  | succ n ih =>
    rw [List.range_succ, List.foldl_append, ih]
    rfl

theorem slots_eq (p : Program) (table : List Entry) :
    slots p table = pad (table.filterMap (slot? p)) ((padding? table).getD 0) := by
  unfold slots
  cases table.filterMap (slot? p) with
  | nil => exact (pad_nil _).symm
  | cons first rest => exact (pad_cons first rest _).symm

/-- The length of the last run of nulls, as it is found from left to right: `before` is the entry
before the piece, and `nulls` the length so far. -/
def nullsIn (before : Option Entry) (nulls : Nat) : List Entry → Nat
  | [] => nulls
  | e :: rest =>
    nullsIn (some e) (if e = .null ∧ before = some .typeinfo then
      ((e :: rest).takeWhile (· = .null)).length else nulls) rest

theorem padding?_cons (e : Entry) (rest : List Entry) :
    padding? (e :: rest) = (padding? rest).or
      (if e = .typeinfo ∧ rest.head? = some .null then
        some (rest.takeWhile (· = .null)).length else none) := by
  rw [padding?]
  cases padding? rest with
  | some n => rfl
  | none => simp

theorem padding?_cons_of_ne {e : Entry} (he : e ≠ .typeinfo) (rest : List Entry) :
    padding? (e :: rest) = padding? rest := by
  rw [padding?_cons, if_neg fun h => he h.1, Option.or_none]

/-- Both ways to look for the last run find the same, and the entry before the piece counts if it
is a description. -/
theorem nullsIn_eq (before : Option Entry) (nulls : Nat) (piece : List Entry) :
    nullsIn before nulls piece =
      (padding? (if before = some .typeinfo then .typeinfo :: piece else piece)).getD nulls := by
  induction piece generalizing before nulls with
  | nil =>
    unfold nullsIn
    split <;> rfl
  | cons e rest ih =>
    have hrest : padding? (if some e = some .typeinfo then .typeinfo :: rest else rest) =
        padding? (e :: rest) := by
      by_cases he : e = .typeinfo
      · rw [he, if_pos rfl]
      · rw [if_neg fun h => he (Option.some.inj h), padding?_cons_of_ne he]
    rw [nullsIn, ih, hrest]
    by_cases hbefore : before = some .typeinfo
    · rw [if_pos hbefore, padding?_cons .typeinfo (e :: rest), List.head?_cons]
      cases padding? (e :: rest) with
      | some n => rfl
      | none => by_cases he : e = .null <;> simp [he, hbefore]
    · rw [if_neg hbefore, if_neg fun h => hbefore h.2]

theorem nullsIn_fresh {before : Option Entry} (hbefore : before ≠ some .typeinfo)
    (piece : List Entry) : nullsIn before 0 piece = (padding? piece).getD 0 := by
  rw [nullsIn_eq, if_neg hbefore]

/-! ## The pass -/

section Pass

variable (p : Program) (c : String)

theorem addTable_nil (h : Hierarchy) : h.addTable c [] = h := rfl

theorem foldl_recordTable (h : Hierarchy) (pieces : List (List Entry)) :
    pieces.foldl (recordTable p c) h = pieces.tail.foldl (recordTable p c)
      (((pieces.headD []).foldl (recordEntry p c) h).addTable c (slots p (pieces.headD []))) := by
  cases pieces with
  | nil => exact (addTable_nil c h).symm
  | cons piece pieces => rfl

namespace Reading

variable (r : Reading) (before : Option Entry)

theorem entry_offset (behind : List Entry) : r.entry p c before .offset behind =
    { r with
      hierarchy := (recordEntry p c r.hierarchy .offset).addTable c (pad r.slots r.nulls)
      slots := []
      nulls := 0 } := rfl

theorem entry_of_ne {e : Entry} (he : e ≠ .offset) (behind : List Entry) :
    r.entry p c before e behind =
      { hierarchy := recordEntry p c r.hierarchy e
        slots := r.slots ++ (slot? p e).toList
        nulls := if e = .null ∧ before = some .typeinfo then
          ((e :: behind).takeWhile (· = .null)).length else r.nulls
        hasFunction := r.hasFunction || (function? e).isSome
        allPure := r.allPure &&
          (function? e).all fun f => p.functionName f = Symbol.pureVirtual } := by
  cases e with
  | offset => exact absurd rfl he
  | null =>
    by_cases hbefore : before = some .typeinfo <;>
      simp [entry, recordEntry, slot?, function?, hbefore]
  | function f => simp [entry, Reading.function, recordEntry, function?]
  | typeinfo => simp [entry, recordEntry, slot?, function?]
  | other => simp [entry, recordEntry, slot?, function?]

theorem hierarchy_entries (array : List Entry) :
    (entries p c before r array).hierarchy = (cut array).tail.foldl (recordTable p c)
      ((((cut array).headD []).foldl (recordEntry p c) r.hierarchy).addTable c
        (pad (r.slots ++ ((cut array).headD []).filterMap (slot? p))
          (nullsIn before r.nulls ((cut array).headD [])))) := by
  induction array generalizing before r with
  | nil =>
    rw [cut, List.headD_nil, List.filterMap_nil, List.append_nil]
    rfl
  | cons e behind ih =>
    rw [entries, ih]
    by_cases he : e = .offset
    · subst he
      rw [entry_offset, List.nil_append, nullsIn_fresh (by decide), ← slots_eq,
        ← foldl_recordTable, cut, List.headD_cons, List.tail_cons,
        List.filterMap_cons_none rfl, List.filterMap_nil, List.append_nil]
      rfl
    · have hrun : (e :: (cut behind).headD []).takeWhile (· = .null) =
          (e :: behind).takeWhile (· = .null) := by
        rw [List.takeWhile_cons, List.takeWhile_cons, takeWhile_head_cut]
      have hslots : r.slots ++ (slot? p e).toList ++ ((cut behind).headD []).filterMap (slot? p) =
          r.slots ++ (e :: (cut behind).headD []).filterMap (slot? p) := by
        rw [List.append_assoc, List.filterMap_cons]
        cases slot? p e <;> rfl
      rw [entry_of_ne p c r before he, cut_cons he, List.headD_cons, List.tail_cons,
        List.foldl_cons, nullsIn, hrun, hslots]

theorem hasFunction_entries (array : List Entry) : (entries p c before r array).hasFunction =
    (r.hasFunction || !(array.filterMap function?).isEmpty) := by
  induction array generalizing before r with
  | nil => simp [entries, endTable]
  | cons e behind ih =>
    rw [entries, ih]
    by_cases he : e = .offset
    · subst he
      rfl
    · rw [entry_of_ne p c r before he, List.filterMap_cons]
      cases function? e <;> simp

theorem allPure_entries (array : List Entry) : (entries p c before r array).allPure =
    (r.allPure && (array.filterMap function?).all fun f =>
      p.functionName f = Symbol.pureVirtual) := by
  induction array generalizing before r with
  | nil => simp [entries, endTable]
  | cons e behind ih =>
    rw [entries, ih]
    by_cases he : e = .offset
    · subst he
      rfl
    · rw [entry_of_ne p c r before he, List.filterMap_cons]
      cases function? e <;> simp [Bool.and_assoc]

theorem slots_entries (array : List Entry) : (entries p c before r array).slots = [] := by
  induction array generalizing before r with
  | nil => rfl
  | cons e behind ih => exact ih _ _

theorem nulls_entries (array : List Entry) : (entries p c before r array).nulls = 0 := by
  induction array generalizing before r with
  | nil => rfl
  | cons e behind ih => exact ih _ _

theorem foldl_entries (hslots : r.slots = []) (hnulls : r.nulls = 0)
    (arrays : List (List Entry)) : arrays.foldl (entries p c none) r =
      { hierarchy := (arrays.flatMap cut).foldl (recordTable p c) r.hierarchy
        hasFunction := r.hasFunction || !(arrays.flatten.filterMap function?).isEmpty
        allPure := r.allPure && (arrays.flatten.filterMap function?).all fun f =>
          p.functionName f = Symbol.pureVirtual } := by
  induction arrays generalizing r with
  | nil =>
    cases r
    simp_all
  | cons array arrays ih =>
    have hempty (fs gs : List FunctionId) :
        (!(fs ++ gs).isEmpty) = (!fs.isEmpty || !gs.isEmpty) := by
      cases fs <;> rfl
    have harray : (entries p c none r array).hierarchy =
        (cut array).foldl (recordTable p c) r.hierarchy := by
      rw [hierarchy_entries, hslots, hnulls, List.nil_append, nullsIn_fresh (by decide),
        ← slots_eq, ← foldl_recordTable]
    rw [List.foldl_cons, ih _ (slots_entries p c r none array) (nulls_entries p c r none array),
      harray, hasFunction_entries, allPure_entries, List.flatMap_cons, List.foldl_append,
      List.flatten_cons, List.filterMap_append, List.all_append, hempty, Bool.or_assoc,
      Bool.and_assoc]

end Reading

theorem record_eq (h : Hierarchy) (symbol : String) (init : ValueId) :
    record p h c symbol init =
      if !((arrays p init).flatten.filterMap function?).isEmpty &&
          ((arrays p init).flatten.filterMap function?).all fun f =>
            p.functionName f = Symbol.pureVirtual then
        (((arrays p init).flatMap cut).foldl (recordTable p c) (h.setVtable c symbol)).addTrait c
          Traits.pureAbstract
      else ((arrays p init).flatMap cut).foldl (recordTable p c) (h.setVtable c symbol) := by
  rw [record, Reading.foldl_entries p c _ rfl rfl, Bool.false_or, Bool.true_and]

end Pass

end Vtable

end CallTargets
