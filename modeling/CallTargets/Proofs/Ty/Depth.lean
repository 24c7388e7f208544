import CallTargets.Key.Basic
import CallTargets.Proofs.Ty.Print

/-!
# Types whose parts lead back to them

Named structs may be made of any types, so the parts of a type need not come to an end. What
prints a type stops at the name of a struct. In a table that passes its check it never gets deeper
than there are types before the one that it prints, and asks for no type outside the table. Keys
are written here without defaults, so that they have no result if it does.

Main statement: `Program.results_of_validateTypes`.
-/

namespace CallTargets

open Relation

theorem Program.valid_of_validateTypes {p : Program} (h : p.validateTypes = .ok ()) :
    p.types.Valid := by
  simp only [validateTypes, forM_zipIdx_eq_ok, Array.getElem?_toList, validateType_eq_ok] at h
  exact fun id ty hty part hpart => h id.index ty hty part hpart

namespace TypeTable

variable {t : TypeTable} {id : TypeId} {ty : Ty}

/-! ## Keys -/

/-- The kinds of the fields of a type, all of which have to be there. -/
def fieldKinds? (t : TypeTable) (id : TypeId) : Option String := do
  let fields := (← t.get? id).fields?.getD []
  return kindsText (← fields.mapM fun field => (t.get? field).map Ty.kindCode)

/-- The text that a type is known by, for which it is printed up to a depth. -/
def keyText? (t : TypeTable) (depth : Nat) (shapes : Shapes) (id : TypeId) : Option String := do
  (← t.get? id).keyText shapes (t.fieldKinds? id) (t.printUpTo depth id)

theorem Valid.fieldKinds?_eq (h : t.Valid) (hty : t.get? id = some ty) :
    t.fieldKinds? id = some (t.fieldKinds id) := by
  have hfields : t.fields? id = ty.fields? := by rw [TypeTable.fields?, hty, Option.bind_some]
  have hkinds : (ty.fields?.getD []).mapM (fun field => (t.get? field).map Ty.kindCode) =
      some ((ty.fields?.getD []).map fun field => ((t.get? field).map Ty.kindCode).getD 0) := by
    refine mapM_eq_some_map fun field hfield => ?_
    obtain ⟨ty', hty'⟩ := h.exists_field (hfields ▸ hfield)
    rw [hty', Option.map_some, Option.getD_some]
  simp [fieldKinds?, hty, hkinds, fieldKinds, hfields]

theorem Valid.keyText?_eq (h : t.Valid) (shapes : Shapes) (hid : id.index < t.size) {depth : Nat}
    (hdepth : id.index < depth) : t.keyText? depth shapes id = some (t.keyText shapes id) := by
  obtain ⟨ty, hty⟩ := exists_get? hid
  simp [keyText?, keyText, hty, h.fieldKinds?_eq hty, h.printUpTo_eq_print hid hdepth,
    Ty.keyText_some]

/-! ## Pointers -/

/-- Pointers lead from a type to one that is no pointer. -/
def Uncovers (t : TypeTable) (id bottom : TypeId) : Prop :=
  ReflTransGen (fun a b => t.pointee? a = some b) id bottom ∧
    ∃ ty, t.get? bottom = some ty ∧ ty.pointee? = none

theorem mem_shown_of_pointee? {u : TypeId} (hu : ty.pointee? = some u) : u ∈ ty.shown := by
  cases ty <;> simp_all [Ty.pointee?, Ty.shown, Ty.parts]

theorem Valid.uncovers_go_innermost (h : t.Valid) (hid : id.index < t.size) {n : Nat}
    (hn : id.index < n) : t.Uncovers id (innermost.go t n id) := by
  refine h.induct (P := fun id => ∀ n, id.index < n → t.Uncovers id (innermost.go t n id))
    (fun id ty hty ih n hn => ?_) id hid n hn
  obtain ⟨n, rfl⟩ : ∃ m, n = m + 1 := ⟨n - 1, by omega⟩
  have hpointee : t.pointee? id = ty.pointee? := by rw [TypeTable.pointee?, hty, Option.bind_some]
  cases hu : ty.pointee? with
  | none =>
    rw [innermost.go, hpointee, hu]
    exact ⟨.refl, ty, hty, hu⟩
  | some u =>
    have hshown := mem_shown_of_pointee? hu
    have hlt := h.lt_of_mem_shown hty hshown
    obtain ⟨hreach, hbottom⟩ := ih u hshown n (by omega)
    rw [innermost.go, hpointee, hu]
    exact ⟨.head (hpointee.trans hu) hreach, hbottom⟩

end TypeTable

/-- In a program whose types pass their check, each of them is printed and has a key, for which any
depth beyond its place in the table is enough, and behind the pointers around it there is a type
that is no pointer. -/
theorem Program.results_of_validateTypes {p : Program} (h : p.validateTypes = .ok ())
    {id : TypeId} (hid : id.index < p.types.size) (shapes : Shapes) :
    (∀ depth, id.index < depth → p.types.printUpTo depth id = some (p.types.print id) ∧
      p.types.keyText? depth shapes id = some (p.types.keyText shapes id)) ∧
      p.types.Uncovers id (p.types.innermost id) := by
  have hvalid := valid_of_validateTypes h
  exact ⟨fun depth hdepth => ⟨hvalid.printUpTo_eq_print hid hdepth,
      hvalid.keyText?_eq shapes hid hdepth⟩,
    hvalid.uncovers_go_innermost hid (Nat.lt_succ_of_lt hid)⟩

/-- A struct that points to itself and to one behind it, which holds both pointers. -/
def Program.linkedStructs : Program :=
  { types := ⟨#[.struct (some "a") [1, 3] false, .pointer 0,
      .struct (some "b") [1, 3, 2] false, .pointer 2, .pointer 3]⟩ }

theorem Program.results_linkedStructs :
    linkedStructs.validateTypes = .ok () ∧
      linkedStructs.types.printUpTo 7 4 = some (linkedStructs.types.print 4) ∧
      linkedStructs.types.print 4 = "%b**" ∧ linkedStructs.types.Uncovers 4 2 := by
  have hvalid : linkedStructs.validateTypes = .ok () := by decide
  have hid : (4 : TypeId).index < linkedStructs.types.size := by decide
  obtain ⟨hprints, hbottom⟩ := results_of_validateTypes hvalid hid ∅
  exact ⟨hvalid, (hprints 7 (by decide)).1, by decide, hbottom⟩

end CallTargets
