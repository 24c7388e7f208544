/-!
# Sets in order of arrival

Every set the analysis reports is listed in the order in which its members were
first found. `OrdSet` keeps exactly that: a list without repetition, to which a
new member is appended and an old one is not added again.

The view is `toList`; each operation has a lemma that says what it does to it.
-/

namespace CallTargets

universe u v

/-- A finite set that lists its members in order of arrival. -/
structure OrdSet (α : Type u) where
  /-- The members, oldest first. -/
  toList : List α
  nodup : toList.Nodup

namespace OrdSet

variable {α : Type u} {β : Type v}

instance : EmptyCollection (OrdSet α) := ⟨⟨[], List.nodup_nil⟩⟩

instance : Inhabited (OrdSet α) := ⟨∅⟩

instance : Membership α (OrdSet α) := ⟨fun s a => a ∈ s.toList⟩

@[simp]
theorem mem_toList {s : OrdSet α} {a : α} : a ∈ s.toList ↔ a ∈ s := Iff.rfl

@[ext]
theorem ext {s t : OrdSet α} (h : s.toList = t.toList) : s = t := by
  cases s
  cases t
  cases h
  rfl

instance [DecidableEq α] : DecidableEq (OrdSet α) := fun s t =>
  decidable_of_iff (s.toList = t.toList) ⟨ext, fun h => h ▸ rfl⟩

instance [DecidableEq α] (a : α) (s : OrdSet α) : Decidable (a ∈ s) :=
  inferInstanceAs (Decidable (a ∈ s.toList))

def size (s : OrdSet α) : Nat := s.toList.length

def isEmpty (s : OrdSet α) : Bool := s.toList.isEmpty

@[simp]
theorem toList_empty : (∅ : OrdSet α).toList = [] := rfl

@[simp]
theorem not_mem_empty (a : α) : ¬ a ∈ (∅ : OrdSet α) := List.not_mem_nil

/-- The members that satisfy a test, in their old order. -/
def filter (s : OrdSet α) (p : α → Bool) : OrdSet α :=
  ⟨s.toList.filter p, s.nodup.filter p⟩

@[simp]
theorem toList_filter (s : OrdSet α) (p : α → Bool) :
    (s.filter p).toList = s.toList.filter p := rfl

@[simp]
theorem mem_filter {s : OrdSet α} {p : α → Bool} {a : α} :
    a ∈ s.filter p ↔ a ∈ s ∧ p a = true := List.mem_filter

section

variable [DecidableEq α]

/-- Appends a member that is not there yet. -/
def insert (s : OrdSet α) (a : α) : OrdSet α :=
  if h : a ∈ s.toList then s
  else ⟨s.toList ++ [a], by
    refine List.nodup_append.2 ⟨s.nodup, by simp, ?_⟩
    intro b hb c hc
    obtain rfl : c = a := by simpa using hc
    rintro rfl
    exact h hb⟩

theorem toList_insert (s : OrdSet α) (a : α) :
    (s.insert a).toList = if a ∈ s then s.toList else s.toList ++ [a] := by
  unfold insert
  split <;> rename_i h
  · exact (if_pos h).symm
  · exact (if_neg h).symm

@[simp]
theorem mem_insert {s : OrdSet α} {a b : α} : b ∈ s.insert a ↔ b ∈ s ∨ b = a := by
  rw [← mem_toList, toList_insert]
  split
  · rename_i h
    exact ⟨Or.inl, fun hb => hb.elim id fun e => e ▸ h⟩
  · simp

theorem insert_of_mem {s : OrdSet α} {a : α} (h : a ∈ s) : s.insert a = s := by
  unfold insert
  exact dif_pos h

def insertMany (s : OrdSet α) (as : List α) : OrdSet α := as.foldl insert s

@[simp]
theorem mem_insertMany {s : OrdSet α} {as : List α} {b : α} :
    b ∈ s.insertMany as ↔ b ∈ s ∨ b ∈ as := by
  induction as generalizing s with
  | nil => simp [insertMany]
  | cons a as ih =>
    have := ih (s := s.insert a)
    simp only [insertMany, List.foldl_cons] at this ⊢
    rw [this, mem_insert, List.mem_cons, or_assoc]

/-- The members of a list, each at its first place. -/
def ofList (as : List α) : OrdSet α := (∅ : OrdSet α).insertMany as

@[simp]
theorem mem_ofList {as : List α} {b : α} : b ∈ ofList as ↔ b ∈ as := by
  simp [ofList]

/-- `s` followed by what `t` adds. -/
def union (s t : OrdSet α) : OrdSet α := s.insertMany t.toList

@[simp]
theorem mem_union {s t : OrdSet α} {b : α} : b ∈ s.union t ↔ b ∈ s ∨ b ∈ t := by
  simp [union]

end

def image [DecidableEq β] (s : OrdSet α) (f : α → β) : OrdSet β := ofList (s.toList.map f)

@[simp]
theorem mem_image [DecidableEq β] {s : OrdSet α} {f : α → β} {b : β} :
    b ∈ s.image f ↔ ∃ a ∈ s, f a = b := by
  simp [image]

end OrdSet

end CallTargets
