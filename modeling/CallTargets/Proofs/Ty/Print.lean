import CallTargets.Proofs.Lookup.Program
import CallTargets.Proofs.Program.Built

/-!
# Printed types

In a valid table all parts of a type exist, and only named structs have parts that do not come
before them. The name alone is printed of a named struct, so printing goes down the table and
never runs out of depth: a type is printed as its parts are (`TypeTable.print_eq`), and what is
true of a type if it is true of the parts printed with it is true of all types
(`TypeTable.Valid.induct`).
-/

namespace CallTargets

theorem mapM_eq_some_map {α β : Type} {f : α → Option β} {g : α → β} {l : List α}
    (h : ∀ a ∈ l, f a = some (g a)) : l.mapM f = some (l.map g) := by
  induction l with
  | nil => rfl
  | cons a l ih =>
    rw [List.mapM_cons, h a List.mem_cons_self, ih fun b hb => h b (List.mem_cons_of_mem a hb)]
    rfl

namespace TypeTable

variable {t : TypeTable} {id : TypeId} {ty : Ty}

/-- The parts of all types exist, and come before them except for named structs. -/
def Valid (t : TypeTable) : Prop :=
  ∀ id ty, t.get? id = some ty → ∀ part ∈ ty.parts,
    part.index < t.size ∧ (ty.structName? = none → part.index < id.index)

theorem exists_get? (h : id.index < t.size) : ∃ ty, t.get? id = some ty :=
  ⟨_, Array.getElem?_eq_getElem h⟩

theorem lt_size_of_get? (h : t.get? id = some ty) : id.index < t.size :=
  (Array.getElem?_eq_some_iff.1 h).1

theorem mem_ids_of_get? (h : t.get? id = some ty) : id ∈ t.ids :=
  List.mem_map.2 ⟨id.index, List.mem_range.2 (lt_size_of_get? h), rfl⟩

instance (t : TypeTable) : Decidable t.Valid :=
  decidable_of_iff (∀ id ∈ t.ids, ∀ ty ∈ t.get? id, ∀ part ∈ ty.parts,
      part.index < t.size ∧ (ty.structName? = none → part.index < id.index))
    ⟨fun h id ty hty => h id (mem_ids_of_get? hty) ty hty, fun h id _ ty hty => h id ty hty⟩

theorem Valid.lt_of_mem_shown (h : t.Valid) (hty : t.get? id = some ty) {part : TypeId}
    (hpart : part ∈ ty.shown) : part.index < id.index := by
  refine (h id ty hty part (Ty.mem_parts_of_mem_shown hpart)).2 ?_
  cases ty with
  | struct name fields bodiless =>
    cases name with
    | none => rfl
    | some name => cases hpart
  | _ => rfl

theorem Valid.exists_shown (h : t.Valid) (hty : t.get? id = some ty) {part : TypeId}
    (hpart : part ∈ ty.shown) : part.index < t.size :=
  (h id ty hty part (Ty.mem_parts_of_mem_shown hpart)).1

theorem Valid.exists_field (h : t.Valid) {field : TypeId}
    (hfield : field ∈ (t.fields? id).getD []) : ∃ ty, t.get? field = some ty := by
  cases hty : t.get? id with
  | none => simp [TypeTable.fields?, hty] at hfield
  | some ty =>
    rw [TypeTable.fields?, hty] at hfield
    exact exists_get? (h id ty hty field (Ty.mem_parts_of_fields? hfield)).1

theorem Valid.induct (h : t.Valid) {P : TypeId → Prop}
    (step : ∀ id ty, t.get? id = some ty → (∀ part ∈ ty.shown, P part) → P id) :
    ∀ id : TypeId, id.index < t.size → P id := by
  intro id
  obtain ⟨n, hn⟩ : ∃ n, id.index = n := ⟨_, rfl⟩
  induction n using Nat.strongRecOn generalizing id with
  | ind n ih =>
    intro hlt
    obtain ⟨ty, hty⟩ := exists_get? hlt
    refine step id ty hty fun part hpart => ?_
    exact ih part.index (hn ▸ h.lt_of_mem_shown hty hpart) part rfl (h.exists_shown hty hpart)

/-! ## Depth -/

theorem Valid.printUpTo_eq (h : t.Valid) (hid : id.index < t.size) :
    ∃ text, ∀ depth, id.index < depth → t.printUpTo depth id = some text := by
  refine h.induct (P := fun id => ∃ text, ∀ depth, id.index < depth →
    t.printUpTo depth id = some text) (fun id ty hty ih => ?_) id hid
  choose! text htext using ih
  refine ⟨ty.textOf (ty.shown.map text), fun depth hdepth => ?_⟩
  obtain ⟨depth, rfl⟩ : ∃ d, depth = d + 1 := ⟨depth - 1, by omega⟩
  have hparts : ty.shown.mapM (t.printUpTo depth) = some (ty.shown.map text) :=
    mapM_eq_some_map fun part hpart => htext part hpart depth (by
      have := h.lt_of_mem_shown hty hpart
      omega)
  simp [printUpTo, hty, hparts]

theorem Valid.printUpTo_eq_print (h : t.Valid) (hid : id.index < t.size) {depth : Nat}
    (hdepth : id.index < depth) : t.printUpTo depth id = some (t.print id) := by
  obtain ⟨text, htext⟩ := h.printUpTo_eq hid
  rw [print, print?, htext depth hdepth, htext t.size hid, Option.getD_some]

def written (t : TypeTable) (ty : Ty) : String := ty.textOf (ty.shown.map t.print)

theorem print_eq (h : t.Valid) (hty : t.get? id = some ty) : t.print id = t.written ty := by
  have hlt := lt_size_of_get? hty
  have hparts : ty.shown.mapM (t.printUpTo id.index) = some (ty.shown.map t.print) :=
    mapM_eq_some_map fun part hpart =>
      h.printUpTo_eq_print (h.exists_shown hty hpart) (h.lt_of_mem_shown hty hpart)
  have hprint := h.printUpTo_eq_print hlt (Nat.lt_succ_self id.index)
  rw [printUpTo, hty, Option.bind_eq_bind, Option.bind_some, hparts] at hprint
  exact (Option.some.inj hprint).symm

/-! ## Further types -/

theorem Valid.push (h : t.Valid) (hparts : ∀ part ∈ ty.parts, part.index < t.size) :
    TypeTable.Valid ⟨t.types.push ty⟩ := by
  have hsize : (TypeTable.mk (t.types.push ty)).size = t.size + 1 := Array.size_push ty
  intro id ty' hty' part hpart
  rw [hsize]
  rcases Program.get?_push_eq_some_iff.1 hty' with hold | ⟨hindex, rfl⟩
  · exact ⟨Nat.lt_succ_of_lt (h id ty' hold part hpart).1, (h id ty' hold part hpart).2⟩
  · exact ⟨Nat.lt_succ_of_lt (hparts part hpart), fun _ => hindex ▸ hparts part hpart⟩

theorem Valid.print_push (h : t.Valid) (hparts : ∀ part ∈ ty.parts, part.index < t.size)
    (hid : id.index < t.size) : (TypeTable.mk (t.types.push ty)).print id = t.print id := by
  refine h.induct (P := fun id => (TypeTable.mk (t.types.push ty)).print id = t.print id) ?_ id hid
  intro id ty' hty' ih
  have hpush := print_eq (h.push hparts) (Program.get?_push_eq_some_iff.2 (.inl hty'))
  rw [hpush, print_eq h hty', written, written, List.map_congr_left ih]

theorem Valid.print_intern (h : t.Valid) (hname : ty.structName? = none)
    (hparts : ∀ part ∈ ty.parts, part.index < t.size) :
    (t.intern ty).2.print (t.intern ty).1 = t.written ty := by
  unfold intern
  cases hfind : t.find? ty with
  | some id =>
    obtain ⟨ty', hty', heq⟩ := Program.get?_of_find? hfind
    rw [print_eq h hty', heq hname]
  | none =>
    have hshown : ∀ part ∈ ty.shown, (TypeTable.mk (t.types.push ty)).print part = t.print part :=
      fun part hpart => h.print_push hparts (hparts part (Ty.mem_parts_of_mem_shown hpart))
    rw [print_eq (h.push hparts) (Program.get?_push_self t ty), written, written,
      List.map_congr_left hshown]

end TypeTable

end CallTargets
