import CallTargets.Proofs.Program.Request

/-!
# Programs that requests build

A program is built by requests in a row, each of which may be refused. If they name only entities
that earlier ones yielded (`Request.Named`), all that a request names is there when it is made,
so it comes to changes that keep a program free of faults. If also no struct is given fields a
second time (`Request.FillsOnce`), the types of values follow from their operands. Whatever the
requests name, types are found under their names (`Request.indexed_built`).
-/

namespace CallTargets

open Relation

namespace Request

variable {refill : Prop} {p p' : Program} {known : List Entity} {rs : List Request}

def apply (p : Program) (r : Request) : Program := (r.perform.run p).2

def yields (p : Program) (r : Request) : List Entity :=
  match (r.perform.run p).1 with
  | .ok es => es
  | .error _ => []

def built (rs : List Request) : Program := (rs.foldl apply {}).withUses

def Named (known : List Entity) (p : Program) : List Request → Prop
  | [] => True
  | r :: rs => (∀ e ∈ r.entities, e ∈ known) ∧ Named (known ++ r.yields p) (r.apply p) rs

/-- Each request gives fields only to a struct that has none by then. -/
def FillsOnce (p : Program) : List Request → Prop
  | [] => True
  | r :: rs => r.Fills p ∧ FillsOnce (r.apply p) rs

instance decidableNamed : (known : List Entity) → (p : Program) → (rs : List Request) →
    Decidable (Named known p rs)
  | _, _, [] => inferInstanceAs (Decidable True)
  | known, p, r :: rs =>
    have := decidableNamed (known ++ r.yields p) (r.apply p) rs
    inferInstanceAs (Decidable ((∀ e ∈ r.entities, e ∈ known) ∧ _))

instance decidableFillsOnce : (p : Program) → (rs : List Request) → Decidable (FillsOnce p rs)
  | _, [] => inferInstanceAs (Decidable True)
  | p, r :: rs =>
    have := decidableFillsOnce (r.apply p) rs
    have : Decidable (r.Fills p) :=
      inferInstanceAs (Decidable (∀ t ∈ r.filled? p, (p.types.fields? t).getD [] = []))
    inferInstanceAs (Decidable (r.Fills p ∧ _))

/-- What a request ensures, it also ensures when it is refused if that holds with nothing yielded
and nothing changed. -/
theorem apply_of_ensures {r : Request} {post : List Entity → Program → Prop}
    (h : r.perform.Ensures p post) (hrefused : post [] p) : post (r.yields p) (r.apply p) := by
  unfold Build.Ensures at h
  unfold yields apply
  generalize r.perform.run p = outcome at h
  obtain ⟨result, p'⟩ := outcome
  cases result with
  | ok es => exact h
  | error fault =>
    obtain rfl := h
    exact hrefused

theorem makes_apply (hp : p.RecordsOk) {r : Request} (hr : ∀ e ∈ r.entities, p.Has e)
    (hfills : refill ∨ r.Fills p) : p.Makes refill (r.yields p) (r.apply p) :=
  apply_of_ensures (ensures_perform hp hr hfills) ⟨.refl, nofun⟩

/-! ## Keys of types -/

theorem nodup_keys_foldl (h : p.types.keys.Nodup) (rs : List Request) :
    (rs.foldl apply p).types.keys.Nodup := by
  induction rs generalizing p with
  | nil => exact h
  | cons r rs ih =>
    have hstep : (r.apply p).types.keys.Nodup := apply_of_ensures (ensures_nodup_keys h r) h
    exact ih hstep

theorem indexed_built (rs : List Request) : (built rs).types.Indexed := by
  have hempty : (Program.types {}).keys.Nodup := List.nodup_nil
  exact TypeTable.indexed_of_nodup (nodup_keys_foldl hempty rs)

end Request

/-! ## Checks -/

namespace Program

variable {refill : Prop} {p p' : Program} {es : List Entity}

theorem Makes.recordsOk (h : p.Makes refill es p') (hp : p.RecordsOk) : p'.RecordsOk :=
  h.keeps (fun hchange hq => hchange.recordsOk hq) hp

theorem Makes.wellTyped (h : p.Makes False es p') (hp : p.WellTyped) : p'.WellTyped :=
  h.keeps (fun hchange hq => hchange.wellTyped hq) hp

theorem recordsOk_empty : RecordsOk {} := by
  constructor <;> intro i record hrecord <;> cases hrecord

theorem wellTyped_empty : WellTyped {} := by
  constructor <;> intro i record hrecord <;> cases hrecord

end Program

namespace Request

variable {refill : Prop} {p : Program} {known : List Entity} {rs : List Request}

theorem makes_foldl (hp : p.RecordsOk) (hknown : ∀ e ∈ known, p.Has e)
    (hnamed : Named known p rs) (hfills : refill ∨ FillsOnce p rs) :
    p.Makes refill [] (rs.foldl apply p) := by
  induction rs generalizing p known with
  | nil => exact ⟨.refl, nofun⟩
  | cons r rs ih =>
    obtain ⟨hr, hrs⟩ := hnamed
    have hmakes : p.Makes refill (r.yields p) (r.apply p) :=
      makes_apply hp (fun e he => hknown e (hr e he)) (hfills.imp_right And.left)
    refine hmakes.trans (ih (hmakes.recordsOk hp) (fun e he => ?_) hrs (hfills.imp_right And.right))
    rcases List.mem_append.1 he with he | he
    · exact hmakes.extends.has (hknown e he)
    · exact hmakes.has e he

/-- Requests build a program without faults if each names only entities that earlier ones
yielded, whichever of them are refused. -/
theorem validate_built (hnamed : Named [] {} rs) : (built rs).validate = .ok () := by
  have hmakes : Program.Makes True {} [] (rs.foldl apply {}) :=
    makes_foldl Program.recordsOk_empty (List.forall_mem_nil _) hnamed (.inl trivial)
  have hchecked : (rs.foldl apply {}).validate = .ok () :=
    Program.validate_eq_ok_iff.2 (hmakes.recordsOk Program.recordsOk_empty)
  exact (Program.valid_withUses hchecked).checked

/-- A list whose nodes are declared before their fields are known. The first look into a node is
refused, and the body of the function is opened twice. -/
def listRequests : List Request :=
  [.addModule "list",
   .intern (.struct (some "node") [] true),
   .intern (.pointer 0),
   .intern (.function 1 [1] false),
   .define 0 "last" 2,
   .param 0 0,
   .instr { function := 0 } (.gep 1 [.const 0, .const 1]) none,
   .setBody 0 [1, 1],
   .instr { function := 0 } (.gep 1 [.const 0, .const 1]) none,
   .instr { function := 0 } (.load 2) (some "next"),
   .functionValue 0,
   .instr { function := 0 } (.call 0 [3] false) none,
   .addBlock 0,
   .instr { function := 0, block := 1 } (.ret (some 4)) none,
   .addGlobal 0 "head" 0 none,
   .globalValue 0,
   .constGep 6 [0, 1],
   .null 1,
   .aggregate 0 [8, 8],
   .setInit 0 9,
   .setLinkage 0 .internal,
   .setGlobalLinkage 0 .priv,
   .enter 0,
   .instr { function := 0 } (.branch none [1]) none,
   .nameValue 4 "end"]

theorem validate_built_list : Named [] {} listRequests ∧ (built listRequests).validate = .ok () :=
  have hnamed : Named [] {} listRequests := by decide +kernel
  ⟨hnamed, validate_built hnamed⟩

/-- In a program that is built without giving a struct fields a second time, the types of values
follow from their operands. -/
theorem wellTyped_built (hnamed : Named [] {} rs) (hfills : FillsOnce {} rs) :
    (built rs).WellTyped := by
  have hmakes : Program.Makes False {} [] (rs.foldl apply {}) :=
    makes_foldl Program.recordsOk_empty (List.forall_mem_nil _) hnamed (.inr hfills)
  exact Program.wellTyped_withUses (hmakes.wellTyped Program.wellTyped_empty)

theorem wellTyped_built_list : FillsOnce {} listRequests ∧ (built listRequests).WellTyped :=
  have hnamed : Named [] {} listRequests := by decide +kernel
  have hfills : FillsOnce {} listRequests := by decide +kernel
  ⟨hfills, wellTyped_built hnamed hfills⟩

end Request

end CallTargets
