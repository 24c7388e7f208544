import CallTargets.Proofs.Layer.Record
import Mathlib

/-!
# A field and the whole of its type

An address computation with an unknown index may select any field of a type. What it finds is to
be no less than what the field holds that it may select. That is so for what is stored
(`mem_targets_whole`), but not for what is copied into the field itself (`matched_whole_iff`), nor
for a field that escaped.
-/

namespace CallTargets

namespace Facts

variable {κ : Type} [DecidableEq κ] {facts : Facts κ} {r : Record κ} {l source : Layer κ} {t : κ}
  {f : FunctionId}

theorem mem_matched_of_copies (hcopies : facts.Copies l source) (hf : f ∈ facts.matched source) :
    f ∈ facts.matched l := by
  obtain ⟨d, hpath, hd⟩ := mem_matched_iff.1 hf
  exact mem_matched_iff.2 ⟨d, hpath.head hcopies, hd⟩

theorem mem_matched_step :
    f ∈ facts.matched l ↔
      f ∈ facts.targets l ∨ ∃ source, facts.Copies l source ∧ f ∈ facts.matched source := by
  constructor
  · intro hf
    obtain ⟨d, hpath, hd⟩ := mem_matched_iff.1 hf
    rcases hpath.cases_head with rfl | ⟨source, hcopies, hrest⟩
    · exact .inl hd
    · exact .inr ⟨source, hcopies, mem_matched_iff.2 ⟨d, hrest, hd⟩⟩
  · rintro (hf | ⟨source, hcopies, hf⟩)
    · exact mem_matched_iff.2 ⟨l, .refl, hf⟩
    · exact mem_matched_of_copies hcopies hf

theorem mem_targets_whole {i : Nat} (hf : f ∈ facts.targets ⟨t, .nth i⟩) :
    f ∈ facts.targets ⟨t, .any⟩ :=
  mem_targets_any.2 ((mem_targets_nth.1 hf).elim (fun h => ⟨_, h⟩) fun h => ⟨_, h⟩)

/-- The whole of a type is matched by what matches a field if it is so for what is copied into the
field itself. What is copied into the whole gets into both. -/
theorem matched_whole_iff {i : Nat} :
    (∀ f ∈ facts.matched ⟨t, .nth i⟩, f ∈ facts.matched ⟨t, .any⟩) ↔
      ∀ source ∈ facts.sources ⟨t, .nth i⟩, ∀ f ∈ facts.matched source,
        f ∈ facts.matched ⟨t, .any⟩ := by
  constructor
  · intro h source hsource f hf
    exact h f (mem_matched_of_copies (.inl hsource) hf)
  · intro h f hf
    rcases mem_matched_step.1 hf with hf | ⟨source, hfield | hwhole, hf⟩
    · exact mem_matched_step.2 (.inl (mem_targets_whole hf))
    · exact h source hfield f hf
    · exact mem_matched_of_copies (.inl hwhole) hf

end Facts

/-- A step in the making of facts: something is noted, or functions are replaced. -/
inductive Update (κ : Type) where
  | note (r : Record κ)
  | rename (map : FunctionId → FunctionId)

namespace Facts

variable {κ : Type} [DecidableEq κ] {r : Record κ}

def update (facts : Facts κ) : Update κ → Facts κ
  | .note r => facts.note r
  | .rename map => facts.mapFunctions map

def ofUpdates (us : List (Update κ)) : Facts κ := us.foldl update {}

theorem has_ofUpdates {us : List (Update κ)} (hr : ∀ map r', r'.mapFunctions map = r ↔ r' = r) :
    (ofUpdates us).Has r ↔ .note r ∈ us ∧ r.Tells := by
  have hstep : ∀ facts : Facts κ, ∀ u ∈ us,
      (facts.update u).Has r ↔ facts.Has r ∨ u = .note r ∧ r.Tells := by
    intro facts u _
    cases u with
    | note r' =>
      rw [update, has_note, Update.note.injEq]
      exact or_congr_right ⟨fun h => ⟨h.1.symm, h.1 ▸ h.2⟩, fun h => ⟨h.1.symm, h.1 ▸ h.2⟩⟩
    | rename map =>
      rw [update, has_mapFunctions]
      simp [hr]
  refine (foldl_adds_iff (P := fun facts : Facts κ => facts.Has r) hstep {}).trans ?_
  simp [not_has_empty]

/-- What the whole of a type holds covers what a field holds, whatever was done. What may get into
the whole covers what may get into the field if and only if this is so for the layers that were
copied into the field itself, and the whole escapes with the field if and only if it was made to
escape as well. -/
theorem whole_covers_iff (us : List (Update κ)) (t : κ) (i : Nat) :
    (∀ f ∈ (ofUpdates us).targets ⟨t, .nth i⟩, f ∈ (ofUpdates us).targets ⟨t, .any⟩) ∧
    ((∀ f ∈ (ofUpdates us).matched ⟨t, .nth i⟩, f ∈ (ofUpdates us).matched ⟨t, .any⟩) ↔
      ∀ source, .note (.copied ⟨t, .nth i⟩ source) ∈ us → source ≠ ⟨t, .nth i⟩ →
        ∀ f ∈ (ofUpdates us).matched source, f ∈ (ofUpdates us).matched ⟨t, .any⟩) ∧
    (((ofUpdates us).isEscaped ⟨t, .nth i⟩ → (ofUpdates us).isEscaped ⟨t, .any⟩) ↔
      (.note (.escaped ⟨t, .nth i⟩) ∈ us → .note (.escaped ⟨t, .any⟩) ∈ us)) := by
  refine ⟨fun f hf => mem_targets_whole hf, ?_, ?_⟩
  · rw [matched_whole_iff]
    have hsources : ∀ source, source ∈ (ofUpdates us).sources ⟨t, .nth i⟩ ↔
        .note (.copied ⟨t, .nth i⟩ source) ∈ us ∧ ⟨t, .nth i⟩ ≠ source := fun source =>
      has_ofUpdates (r := .copied ⟨t, .nth i⟩ source) fun map r' => by
        cases r' <;> simp [Record.mapFunctions]
    simp only [hsources, and_imp, ne_comm]
  · have hescaped : ∀ field, ⟨t, field⟩ ∈ (ofUpdates us).escaped ↔
        .note (.escaped ⟨t, field⟩) ∈ us := fun field =>
      (has_ofUpdates (r := .escaped ⟨t, field⟩) fun map r' => by
        cases r' <;> simp [Record.mapFunctions]).trans (and_iff_left trivial)
    have hany : (ofUpdates us).isEscaped ⟨t, .any⟩ ↔ .note (.escaped ⟨t, .any⟩) ∈ us := by
      rw [isEscaped_iff, Layer.whole, or_self, hescaped]
    have hnth : (ofUpdates us).isEscaped ⟨t, .nth i⟩ ↔
        .note (.escaped ⟨t, .nth i⟩) ∈ us ∨ .note (.escaped ⟨t, .any⟩) ∈ us := by
      rw [isEscaped_iff, Layer.whole, hescaped, hescaped]
    rw [hany, hnth]
    exact ⟨fun h hfield => h (.inl hfield), fun h hor => hor.elim h id⟩

/-- A function is stored into field 0 of type 2, which is copied into field 0 of type 1, and the
latter escapes. -/
def copiedField : List (Update Nat) :=
  [.note (.held ⟨2, .nth 0⟩ 7), .note (.copied ⟨1, .nth 0⟩ ⟨2, .nth 0⟩),
    .note (.escaped ⟨1, .nth 0⟩)]

/-- The field is matched by the function and cannot be trusted, and the whole of its type is
matched by nothing and trusted. -/
theorem not_whole_covers_copiedField :
    (ofUpdates copiedField).matched ⟨1, .nth 0⟩ = OrdSet.ofList [7] ∧
    (ofUpdates copiedField).matched ⟨1, .any⟩ = ∅ ∧
    (ofUpdates copiedField).isEscaped ⟨1, .nth 0⟩ = true ∧
    (ofUpdates copiedField).isEscaped ⟨1, .any⟩ = false :=
  ⟨by cbv, by cbv, by decide, by decide⟩

end Facts

end CallTargets
