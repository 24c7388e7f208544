import CallTargets.Ordered.Map
import CallTargets.Ordered.Set

/-!
# More about ordered sets and maps

Adding what is there changes nothing, and a fold adds what its steps add (`foldl_adds_iff`). A
property of all entries of a map (`OrdMap.All`) is kept by writes of entries that have it. A map to
sets is a relation (`OrdMap.Relates`).
-/

namespace CallTargets

theorem foldl_adds_iff {α β : Type} {P : β → Prop} {step : β → α → β} {adds : α → Prop}
    {as : List α} (hstep : ∀ b, ∀ a ∈ as, P (step b a) ↔ P b ∨ adds a) (b : β) :
    P (as.foldl step b) ↔ P b ∨ ∃ a ∈ as, adds a := by
  induction as generalizing b with
  | nil => simp
  | cons a as ih =>
    rw [List.foldl_cons, ih fun b a ha => hstep b a (List.mem_cons_of_mem _ ha),
      hstep b a List.mem_cons_self, or_assoc]
    simp

namespace OrdSet

variable {α : Type} [DecidableEq α] {s t : OrdSet α}

omit [DecidableEq α] in
theorem eq_empty_iff : s = ∅ ↔ ∀ a, a ∉ s := by
  constructor
  · rintro rfl
    exact not_mem_empty
  · exact fun h => ext (List.eq_nil_iff_forall_not_mem.2 h)

theorem insertMany_eq_self {as : List α} (h : ∀ a ∈ as, a ∈ s) : s.insertMany as = s := by
  induction as with
  | nil => rfl
  | cons a as ih =>
    rw [insertMany, List.foldl_cons, insert_of_mem (h a List.mem_cons_self)]
    exact ih fun b hb => h b (List.mem_cons_of_mem a hb)

theorem union_eq_left (h : ∀ a ∈ t, a ∈ s) : s.union t = s := insertMany_eq_self h

theorem toList_insertMany {as : List α} (h : (s.toList ++ as).Nodup) :
    (s.insertMany as).toList = s.toList ++ as := by
  induction as generalizing s with
  | nil => exact (List.append_nil _).symm
  | cons a as ih =>
    have hnew : a ∉ s := fun ha => (List.nodup_append.1 h).2.2 a ha a List.mem_cons_self rfl
    have hinsert : (s.insert a).toList = s.toList ++ [a] := (toList_insert s a).trans (if_neg hnew)
    have hmany := ih (s := s.insert a) (by rwa [hinsert, List.append_assoc])
    rwa [hinsert, List.append_assoc] at hmany

theorem insertMany_toList (s : OrdSet α) : (∅ : OrdSet α).insertMany s.toList = s :=
  ext (toList_insertMany (s := ∅) s.nodup)

end OrdSet

namespace OrdMap

variable {κ ν : Type}

theorem eq_of_toList {m n : OrdMap κ ν} (h : m.toList = n.toList) : m = n := by
  cases m
  cases n
  cases h
  rfl

def All (P : κ → ν → Prop) (m : OrdMap κ ν) : Prop := ∀ e ∈ m.toList, P e.1 e.2

variable {P : κ → ν → Prop} {m : OrdMap κ ν}

theorem All.empty : (∅ : OrdMap κ ν).All P := fun _ he => by cases he

theorem all_mapValues {f : κ → ν → ν} : (m.mapValues f).All P ↔ m.All fun k v => P k (f k v) :=
  List.forall_mem_map

theorem All.mapValues {f : κ → ν → ν} (h : m.All P) (hf : ∀ k v, P k v → P k (f k v)) :
    (m.mapValues f).All P := all_mapValues.2 fun e he => hf e.1 e.2 (h e he)

variable [DecidableEq κ] {k : κ}

theorem mem_of_findIn {v : ν} {es : List (κ × ν)} (h : findIn k es = some v) : (k, v) ∈ es := by
  induction es with
  | nil => cases h
  | cons e es ih =>
    unfold findIn at h
    split at h
    · rename_i hkey
      subst hkey
      cases h
      exact List.mem_cons_self
    · exact List.mem_cons_of_mem e (ih h)

theorem mem_toList_of_get? {v : ν} (h : m.get? k = some v) : (k, v) ∈ m.toList := mem_of_findIn h

theorem findIn_of_mem {v : ν} {es : List (κ × ν)} (hnodup : (es.map Prod.fst).Nodup)
    (hmem : (k, v) ∈ es) : findIn k es = some v := by
  induction es with
  | nil => cases hmem
  | cons e es ih =>
    obtain ⟨hnew, hrest⟩ := List.nodup_cons.1 hnodup
    rcases List.mem_cons.1 hmem with rfl | hmem
    · exact if_pos rfl
    · have hne : e.1 ≠ k := by
        rintro rfl
        exact hnew (List.mem_map.2 ⟨_, hmem, rfl⟩)
      exact (if_neg hne).trans (ih hrest hmem)

theorem get?_of_mem_toList {v : ν} (h : (k, v) ∈ m.toList) : m.get? k = some v :=
  findIn_of_mem m.nodup h

theorem get?_mapValues (m : OrdMap κ ν) (f : κ → ν → ν) (k : κ) :
    (m.mapValues f).get? k = (m.get? k).map (f k) := by
  have hfind : ∀ es : List (κ × ν),
      findIn k (es.map fun e => (e.1, f e.1 e.2)) = (findIn k es).map (f k) := by
    intro es
    induction es with
    | nil => rfl
    | cons e es ih =>
      by_cases hkey : e.1 = k
      · simp [findIn, hkey]
      · simp [findIn, hkey, ih]
  exact hfind m.toList

theorem alter_eq_self {f : Option ν → ν} {v : ν} (hget : m.get? k = some v)
    (hf : f (some v) = v) : m.alter k f = m := by
  have halter : ∀ es : List (κ × ν), findIn k es = some v → alterIn k f es = es := by
    intro es
    induction es with
    | nil => exact fun h => by cases h
    | cons e es ih =>
      intro h
      by_cases hkey : e.1 = k
      · simp only [findIn, if_pos hkey, Option.some.injEq] at h
        simp only [alterIn, if_pos hkey, h, hf]
        subst h
        rfl
      · simp only [findIn, if_neg hkey] at h
        simp only [alterIn, if_neg hkey, ih h]
  exact eq_of_toList (halter m.toList hget)

theorem mem_alterIn {f : Option ν → ν} {e : κ × ν} {es : List (κ × ν)}
    (h : e ∈ alterIn k f es) : e ∈ es ∨ e = (k, f (findIn k es)) := by
  induction es with
  | nil => exact .inr (List.mem_singleton.1 h)
  | cons e' es ih =>
    obtain ⟨k', v⟩ := e'
    unfold alterIn at h
    unfold findIn
    split at h
    · rename_i hkey
      subst hkey
      rw [if_pos rfl]
      exact (List.mem_cons.1 h).symm.imp_left (List.mem_cons_of_mem _)
    · rename_i hkey
      rw [if_neg hkey]
      rcases List.mem_cons.1 h with rfl | h
      · exact .inl List.mem_cons_self
      · exact (ih h).imp_left (List.mem_cons_of_mem _)

namespace All

theorem of_get? (h : m.All P) {v : ν} (hv : m.get? k = some v) : P k v :=
  h (k, v) (mem_toList_of_get? hv)

theorem alter (h : m.All P) {f : Option ν → ν}
    (hf : ∀ v?, (∀ v, v? = some v → P k v) → P k (f v?)) : (m.alter k f).All P := by
  intro e he
  rcases mem_alterIn he with he | rfl
  · exact h e he
  · exact hf _ fun v hv => h.of_get? hv

theorem insert (h : m.All P) {v : ν} (hv : P k v) : (m.insert k v).All P := h.alter fun _ _ => hv

end All

section Sets

variable {α : Type} {m : OrdMap κ (OrdSet α)} {j : κ} {a b : α}

def Relates (m : OrdMap κ (OrdSet α)) (k : κ) (a : α) : Prop := a ∈ (m.get? k).getD ∅

theorem exists_of_relates (h : m.Relates k a) : ∃ s, m.get? k = some s ∧ a ∈ s := by
  unfold Relates at h
  cases hget : m.get? k with
  | none =>
    rw [hget] at h
    exact absurd h (OrdSet.not_mem_empty a)
  | some s =>
    rw [hget] at h
    exact ⟨s, rfl, h⟩

theorem relates_insertIfNew : (m.insertIfNew k ∅).Relates j b ↔ m.Relates j b := by
  unfold Relates insertIfNew
  rw [get?_alter]
  split
  · rename_i hkey
    subst hkey
    rw [Option.getD_some]
  · rfl

variable [DecidableEq α]

theorem relates_add :
    (m.alter k fun s => (s.getD ∅).insert a).Relates j b ↔ m.Relates j b ∨ j = k ∧ b = a := by
  unfold Relates
  rw [get?_alter]
  split
  · rename_i hkey
    subst hkey
    rw [Option.getD_some, OrdSet.mem_insert]
    simp
  · rename_i hkey
    simp [Ne.symm hkey]

theorem All.add {Q : κ → α → Prop} (h : m.All fun k s => ∀ a ∈ s, Q k a) (ha : Q k a) :
    (m.alter k fun s => (s.getD ∅).insert a).All fun k s => ∀ a ∈ s, Q k a := by
  refine h.alter fun s? hs b hb => ?_
  rcases OrdSet.mem_insert.1 hb with hb | rfl
  · cases s? with
    | none => exact absurd hb (OrdSet.not_mem_empty b)
    | some s => exact hs s rfl b hb
  · exact ha

end Sets

end OrdMap

end CallTargets
