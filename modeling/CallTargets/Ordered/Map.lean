/-!
# Maps in order of arrival

`OrdMap` lists its entries in the order in which their keys were first written.
Writing to a key that is already there keeps the place of its entry.

The view is the look-up `get?`, with `keys` for the order.
-/

namespace CallTargets

universe u v

/-- A finite map that lists its entries in order of arrival of their keys. -/
structure OrdMap (κ : Type u) (ν : Type v) where
  /-- The entries, oldest key first. -/
  toList : List (κ × ν)
  nodup : (toList.map Prod.fst).Nodup

namespace OrdMap

variable {κ : Type u} {ν : Type v}

instance : EmptyCollection (OrdMap κ ν) := ⟨⟨[], List.nodup_nil⟩⟩

instance : Inhabited (OrdMap κ ν) := ⟨∅⟩

def keys (m : OrdMap κ ν) : List κ := m.toList.map Prod.fst

def size (m : OrdMap κ ν) : Nat := m.toList.length

/-- Every value changed by a function that may look at its key. -/
def mapValues (m : OrdMap κ ν) (f : κ → ν → ν) : OrdMap κ ν :=
  ⟨m.toList.map fun e => (e.1, f e.1 e.2), by
    have h : (m.toList.map fun e => (e.1, f e.1 e.2)).map Prod.fst = m.toList.map Prod.fst := by
      simp
    rw [h]
    exact m.nodup⟩

section

variable [DecidableEq κ]

def findIn (k : κ) : List (κ × ν) → Option ν
  | [] => none
  | (k', v) :: rest => if k' = k then some v else findIn k rest

/-- Changes the entry of a key in place, or appends one. -/
def alterIn (k : κ) (f : Option ν → ν) : List (κ × ν) → List (κ × ν)
  | [] => [(k, f none)]
  | (k', v) :: rest => if k' = k then (k', f (some v)) :: rest else (k', v) :: alterIn k f rest

theorem keys_alterIn (k : κ) (f : Option ν → ν) (es : List (κ × ν)) :
    (alterIn k f es).map Prod.fst =
      if k ∈ es.map Prod.fst then es.map Prod.fst else es.map Prod.fst ++ [k] := by
  induction es with
  | nil => simp [alterIn]
  | cons e es ih =>
    obtain ⟨k', v⟩ := e
    by_cases h : k' = k
    · simp [alterIn, h]
    · have h' : k ≠ k' := fun e => h e.symm
      simp only [alterIn, h, if_false, List.map_cons, List.mem_cons, h', false_or]
      rw [ih]
      split <;> simp

theorem findIn_alterIn (k : κ) (f : Option ν → ν) (j : κ) (es : List (κ × ν)) :
    findIn j (alterIn k f es) = if k = j then some (f (findIn k es)) else findIn j es := by
  induction es with
  | nil => simp [alterIn, findIn]
  | cons e es ih =>
    obtain ⟨k', v⟩ := e
    by_cases h : k' = k
    · subst h
      by_cases hj : k' = j <;> simp [alterIn, findIn, hj]
    · by_cases hj : k' = j
      · subst hj
        have h' : ¬ k = k' := fun e => h e.symm
        simp [alterIn, findIn, h, h']
      · simp [alterIn, findIn, h, hj, ih]

def get? (m : OrdMap κ ν) (k : κ) : Option ν := findIn k m.toList

def contains (m : OrdMap κ ν) (k : κ) : Bool := (m.get? k).isSome

/-- Sets the value of a key to a function of its present value, if any. -/
def alter (m : OrdMap κ ν) (k : κ) (f : Option ν → ν) : OrdMap κ ν :=
  ⟨alterIn k f m.toList, by
    rw [keys_alterIn]
    split
    · exact m.nodup
    · rename_i h
      refine List.nodup_append.2 ⟨m.nodup, by simp, ?_⟩
      intro a ha b hb
      obtain rfl : b = k := by simpa using hb
      rintro rfl
      exact h ha⟩

def insert (m : OrdMap κ ν) (k : κ) (v : ν) : OrdMap κ ν := m.alter k fun _ => v

/-- Sets the value of a key that has none. -/
def insertIfNew (m : OrdMap κ ν) (k : κ) (v : ν) : OrdMap κ ν := m.alter k (·.getD v)

@[simp]
theorem get?_empty (k : κ) : (∅ : OrdMap κ ν).get? k = none := rfl

@[simp]
theorem get?_alter (m : OrdMap κ ν) (k : κ) (f : Option ν → ν) (j : κ) :
    (m.alter k f).get? j = if k = j then some (f (m.get? k)) else m.get? j :=
  findIn_alterIn k f j m.toList

@[simp]
theorem get?_insert (m : OrdMap κ ν) (k : κ) (v : ν) (j : κ) :
    (m.insert k v).get? j = if k = j then some v else m.get? j :=
  get?_alter m k _ j

end

end OrdMap

end CallTargets
