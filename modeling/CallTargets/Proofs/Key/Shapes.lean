import CallTargets.Key.Basic
import CallTargets.Proofs.Ty.Print

/-!
# Structs known by the kinds of their fields

The kinds of a struct's fields are written as numbers of one or two digits, with nothing between
them. All numbers of two digits begin with 1, which is no kind itself, so no number begins another
one and the kinds can be read back. A struct without a name is taken for one with a name on the
strength of what is written.

Main statement: `Program.shapes_exact`.
-/

namespace CallTargets

/-! ## Kinds and their numbers -/

inductive TypeKind where
  | half | single | double | extended | quadruple
  | void | label | integer | function | pointer | struct | array | vector
  deriving DecidableEq

/-- A float whose width has no kind of its own counts as one of the widest kind. -/
def Ty.kind : Ty → TypeKind
  | void => .void
  | label => .label
  | integer _ => .integer
  | float bits =>
    if bits = 16 then .half else if bits = 32 then .single else if bits = 64 then .double
    else if bits = 80 then .extended else .quadruple
  | pointer _ => .pointer
  | function .. => .function
  | struct .. => .struct
  | array .. => .array
  | vector .. => .vector

namespace TypeKind

def code : TypeKind → Nat
  | half => 0
  | single => 2
  | double => 3
  | extended => 4
  | quadruple => 5
  | void => 7
  | label => 8
  | integer => 13
  | function => 14
  | pointer => 15
  | struct => 16
  | array => 17
  | vector => 18

def digits (k : TypeKind) : List Char := Nat.toDigits 10 k.code

theorem digits_ne_nil (k : TypeKind) : k.digits ≠ [] := by
  cases k <;> decide

/-- No number of a kind begins that of another one. -/
theorem eq_of_digits_begins {j k : TypeKind} (h : j.digits <+: k.digits) : j = k := by
  revert h
  cases j <;> cases k <;> decide

theorem eq_of_flatMap_digits {js ks : List TypeKind} (h : js.flatMap digits = ks.flatMap digits) :
    js = ks := by
  induction js generalizing ks with
  | nil =>
    cases ks with
    | nil => rfl
    | cons k ks => exact absurd (List.append_eq_nil_iff.1 h.symm).1 k.digits_ne_nil
  | cons j js ih =>
    cases ks with
    | nil => exact absurd (List.append_eq_nil_iff.1 h).1 j.digits_ne_nil
    | cons k ks =>
      rw [List.flatMap_cons, List.flatMap_cons] at h
      -- the first numbers begin the same text, so one of them begins the other
      have hk : k.digits <+: j.digits ++ js.flatMap digits := h ▸ List.prefix_append _ _
      obtain rfl : j = k := by
        rcases List.prefix_or_prefix_of_prefix (List.prefix_append _ _) hk with hjk | hkj
        · exact eq_of_digits_begins hjk
        · exact (eq_of_digits_begins hkj).symm
      rw [ih (List.append_cancel_left h)]

end TypeKind

theorem Ty.kindCode_eq (ty : Ty) : ty.kindCode = ty.kind.code := by
  cases ty with
  | float bits =>
    unfold kindCode kind
    grind [TypeKind.code]
  | _ => rfl

namespace TypeTable

variable {t : TypeTable} {id id' : TypeId}

/-- The kinds of the fields of a struct, in their order. -/
def shape (t : TypeTable) (id : TypeId) : List (Option TypeKind) :=
  ((t.fields? id).getD []).map fun field => (t.get? field).map Ty.kind

theorem toList_kindsText (kinds : List TypeKind) :
    (kindsText (kinds.map TypeKind.code)).toList = kinds.flatMap TypeKind.digits := by
  have hfold : ∀ text : String, ((kinds.map TypeKind.code).foldl (· ++ toString ·) text).toList =
      text.toList ++ kinds.flatMap TypeKind.digits := by
    induction kinds with
    | nil => exact fun text => (List.append_nil _).symm
    | cons k kinds ih =>
      intro text
      rw [List.map_cons, List.foldl_cons, ih]
      simp [TypeKind.digits]
  exact hfold ""

theorem Valid.exists_kinds (h : t.Valid) (id : TypeId) :
    ∃ kinds : List TypeKind, t.shape id = kinds.map some ∧
      (t.fieldKinds id).toList = kinds.flatMap TypeKind.digits := by
  have hthere : ∀ f ∈ (t.fields? id).getD [], ∃ ty, t.get? f = some ty :=
    fun f hf => h.exists_field hf
  choose! ty hty using hthere
  refine ⟨((t.fields? id).getD []).map fun f => (ty f).kind, ?_, ?_⟩
  · rw [shape, List.map_map]
    exact List.map_congr_left fun f hf => by simp [hty f hf]
  · rw [← toList_kindsText, fieldKinds, List.map_map]
    congr 2
    exact List.map_congr_left fun f hf => by simp [hty f hf, Ty.kindCode_eq]

theorem Valid.fieldKinds_eq_iff (h : t.Valid) :
    t.fieldKinds id = t.fieldKinds id' ↔ t.shape id = t.shape id' := by
  obtain ⟨kinds, hshape, htext⟩ := h.exists_kinds id
  obtain ⟨kinds', hshape', htext'⟩ := h.exists_kinds id'
  rw [← String.toList_inj, htext, htext', hshape, hshape',
    List.map_inj_right fun _ _ => Option.some.inj]
  exact ⟨TypeKind.eq_of_flatMap_digits, congrArg _⟩

end TypeTable

/-! ## The first struct with a name -/

theorem OrdSet.head?_insert {α : Type} [DecidableEq α] (s : OrdSet α) (a : α) :
    (s.insert a).toList.head? = s.toList.head?.or (some a) := by
  rw [toList_insert]
  split
  · rename_i hmem
    obtain ⟨b, bs, hs⟩ := List.exists_cons_of_ne_nil (List.ne_nil_of_mem hmem)
    rw [hs]
    rfl
  · rw [List.head?_append, List.head?_cons]

/-- A struct with a name whose fields are known. -/
def TypeTable.isDefined (t : TypeTable) (id : TypeId) : Bool :=
  match t.get? id with
  | none => false
  | some (.struct (some _) _ false) => true
  | some _ => false

namespace Shapes

variable {types : TypeTable} {kinds : String} {t : TypeId}

/-- A defined struct whose fields are of the given kinds. -/
def fits (types : TypeTable) (kinds : String) (t : TypeId) : Bool :=
  types.isDefined t && types.fieldKinds t = kinds

theorem of_fits (h : fits types kinds t = true) : types.fieldKinds t = kinds ∧
    ∃ name fields, types.get? t = some (.struct (some name) fields false) := by
  obtain ⟨hdefined, hkinds⟩ := Bool.and_eq_true_iff.1 h
  refine ⟨of_decide_eq_true hkinds, ?_⟩
  unfold TypeTable.isDefined at hdefined
  split at hdefined
  · cases hdefined
  · rename_i name fields hty
    exact ⟨name, fields, hty⟩
  · cases hdefined

/-- Of the structs of a shape the first one registered stays the first. -/
theorem first?_register (shapes : Shapes) (t : TypeId) (kinds : String) :
    (shapes.register types t).first? kinds =
      (shapes.first? kinds).or (if fits types kinds t then types.structName? t else none) := by
  unfold register
  split
  · rename_i name fields hty
    by_cases hkinds : types.fieldKinds t = kinds
    · subst hkinds
      cases hnames : shapes.get? (types.fieldKinds t) <;>
        simp [first?, fits, TypeTable.structName?, hty, hnames, TypeTable.isDefined,
          Ty.structName?, OrdSet.head?_insert]
    · simp [first?, fits, hkinds]
  · rename_i hother
    have hfits : ¬fits types kinds t = true := fun hfits => by
      obtain ⟨-, name, fields, hty⟩ := of_fits hfits
      exact hother name fields hty
    rw [if_neg hfits, Option.or_none]

theorem first?_foldl_register (ts : List TypeId) (shapes : Shapes) (kinds : String) :
    (ts.foldl (register types) shapes).first? kinds =
      (shapes.first? kinds).or ((ts.find? (fits types kinds)).bind types.structName?) := by
  induction ts generalizing shapes with
  | nil => simp
  | cons t ts ih =>
    rw [List.foldl_cons, ih, first?_register, Option.or_assoc]
    cases hfits : fits types kinds t with
    | false => simp [hfits]
    | true =>
      obtain ⟨-, name, fields, hty⟩ := of_fits hfits
      simp [hfits, TypeTable.structName?, hty, Ty.structName?]

end Shapes

namespace Program

/-- The defined structs of a program: those of the modules come first. -/
def definedStructs (p : Program) : List TypeId :=
  (p.modules.toList.flatMap Module.structs ++ p.types.ids).filter p.types.isDefined

theorem find?_definedStructs {p : Program} (h : p.types.Valid) (a : TypeId) :
    p.definedStructs.find? (p.types.shape · = p.types.shape a) =
      (p.modules.toList.flatMap Module.structs ++ p.types.ids).find?
        (Shapes.fits p.types (p.types.fieldKinds a)) := by
  rw [definedStructs, List.find?_filter]
  congr 1
  funext t
  simp only [Shapes.fits, h.fieldKinds_eq_iff, Bool.decide_and, Bool.decide_eq_true]

/-- Two structs are written alike exactly if they have as many fields, of the same kinds one by
one. So a struct without a name has the key of the first defined struct with fields of the same
kinds as soon as there is one. -/
theorem shapes_exact {p : Program} (h : p.types.Valid) :
    (∀ s s', p.types.fieldKinds s = p.types.fieldKinds s' ↔ p.types.shape s = p.types.shape s') ∧
      ∀ a fields bodiless, p.types.get? a = some (.struct none fields bodiless) →
        ∀ s ∈ p.definedStructs, p.types.shape s = p.types.shape a →
          ∃ first, p.definedStructs.find? (p.types.shape · = p.types.shape a) = some first ∧
            p.types.keyText (Shapes.ofProgram p) a =
              p.types.keyText (Shapes.ofProgram p) first := by
  refine ⟨fun s s' => h.fieldKinds_eq_iff, fun a fields bodiless ha s hs hshape => ?_⟩
  have hsome : (p.definedStructs.find? (p.types.shape · = p.types.shape a)).isSome = true :=
    List.find?_isSome.2 ⟨s, hs, decide_eq_true hshape⟩
  obtain ⟨first, hfirst⟩ := Option.isSome_iff_exists.1 hsome
  refine ⟨first, hfirst, ?_⟩
  rw [find?_definedStructs h] at hfirst
  obtain ⟨hkinds, name, fields', hty⟩ := Shapes.of_fits (List.find?_some hfirst)
  have hcount : fields'.length = fields.length := by
    have := congrArg List.length (h.fieldKinds_eq_iff.1 hkinds)
    simpa [TypeTable.shape, TypeTable.fields?, ha, hty, Ty.fields?] using this
  have hname : (Shapes.ofProgram p).first? (p.types.fieldKinds a) = some name := by
    rw [Shapes.ofProgram, Shapes.first?_foldl_register, hfirst]
    simp [Shapes.first?, TypeTable.structName?, hty, Ty.structName?]
  simp [TypeTable.keyText, ha, hty, Ty.keyText, hname, hcount]

/-- Structs with the same fields as the last one. The module lists one without a body, and the
later one of two with a body. -/
def copies : Program :=
  { types := ⟨#[.float 64, .integer 8, .pointer 1, .struct (some "early") [0, 1, 2] false,
      .struct (some "hidden") [0, 1, 2] true, .struct (some "other") [1, 0, 2] false,
      .struct (some "late") [0, 1, 2] false, .struct none [0, 1, 2] false]⟩,
    modules := #[⟨0, "a.c", [], [], [4, 5, 6]⟩] }

theorem shapes_exact_copies :
    copies.types.Valid ∧ copies.types.shape 3 = copies.types.shape 7 ∧
      copies.types.fieldKinds 5 ≠ copies.types.fieldKinds 7 ∧
      copies.types.keyText (Shapes.ofProgram copies) 7 =
        copies.types.keyText (Shapes.ofProgram copies) 6 := by
  have hvalid : copies.types.Valid := by decide
  have hshape : copies.types.shape 3 = copies.types.shape 7 := by decide
  obtain ⟨hexact, hkey⟩ := shapes_exact hvalid
  obtain ⟨first, hfirst, hkey⟩ := hkey 7 _ _ rfl 3 (by decide) hshape
  obtain rfl : 6 = first := Option.some.inj (.trans (by decide) hfirst)
  exact ⟨hvalid, hshape, fun h => absurd ((hexact _ _).1 h) (by decide), hkey⟩

end Program

end CallTargets
