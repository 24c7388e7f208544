import CallTargets.Layer.Refine
import CallTargets.Proofs.Flow.Trace

/-!
# Pointers that can be traced have no layers

A pointer is traced through conversions, joins and slots, but not through fields: an address
computation is out of sight. The walk to the next layer looks at no more than that. Behind a pointer
that can be traced it meets values that can be traced as well, and behind a load from a
slot the slot itself, where it ends (`View.keeps_tracedOrSlot`). So it finds no layer
(`View.nextLayers_of_traceable`), and a call of the pointer is not refined.
-/

namespace CallTargets

variable {p : Program} {view : View} {flow : Flow} {u v w : ValueId}

/-! ## One step back -/

/-- A step back leads to the pointer of a load, to what a join chooses from, or behind an
operation that keeps the value. -/
inductive Program.WalksTo (p : Program) (v u : ValueId) : Prop where
  | load (h : p.opcode? v = some (.load u))
  | select {condition other : ValueId} (h : p.opcode? v = some (.select condition u other))
  | phi {incoming : List ValueId} (h : p.opcode? v = some (.phi incoming)) (hu : u ∈ incoming)
  | unary (h : p.opcode? v = some (.unary u))
  | bitCast (h : p.bitCast? v = some u)

theorem Program.walksTo_of_walkBack? {next : List ValueId} (h : p.walkBack? v = some next)
    (hu : u ∈ next) : p.WalksTo v u := by
  unfold walkBack? at h
  split at h
  · rename_i hop
    cases h
    rw [List.mem_singleton.1 hu]
    exact .load hop
  · rename_i hop
    cases h
    rw [List.mem_singleton.1 hu]
    exact .select hop
  · rename_i hop
    cases h
    exact .phi hop hu
  · rename_i hop
    cases h
    rw [List.mem_singleton.1 hu]
    exact .unary hop
  · obtain ⟨operand, hcast, rfl⟩ := Option.map_eq_some_iff.1 h
    rw [List.mem_singleton.1 hu]
    exact .bitCast hcast

theorem Program.visit_layerWalk (hgep : p.gep? v = none) (root : Option ValueId) :
    ∃ root' next, p.layerWalk.visit root v = .goOn root' next ∧ ∀ u ∈ next, p.WalksTo v u := by
  simp only [layerWalk, hgep]
  split
  · exact ⟨_, [], rfl, fun u hu => absurd hu List.not_mem_nil⟩
  · split
    · rename_i next hnext
      exact ⟨_, next, rfl, fun u hu => walksTo_of_walkBack? hnext hu⟩
    · exact ⟨_, [], rfl, fun u hu => absurd hu List.not_mem_nil⟩

/-! ## Slots -/

inductive Program.LeadsToSlot (p : Program) : ValueId → Prop where
  | slot {v : ValueId} (h : p.isSlot v = true) : p.LeadsToSlot v
  | cast {v w : ValueId} {op : CastOp} (h : p.cast? v = some (op, w)) (hw : p.LeadsToSlot w) :
      p.LeadsToSlot v

theorem Program.leadsToSlot_of_stripUpTo {n : Nat} (h : p.isSlot (p.stripUpTo n v) = true) :
    p.LeadsToSlot v := by
  induction n generalizing v with
  | zero => exact .slot h
  | succ n ih =>
    unfold stripUpTo at h
    split at h
    · rename_i op operand hcast
      split at h
      · exact .cast hcast (ih h)
      · exact .slot h
    · exact .slot h

theorem Program.leadsToSlot_of_privateStores? (h : (p.privateStores? (p.strip v)).isSome) :
    p.LeadsToSlot v := by
  unfold privateStores? at h
  split at h
  · rename_i hslot
    exact leadsToSlot_of_stripUpTo (Bool.and_eq_true_iff.1 hslot).1
  · cases h

namespace Program.LeadsToSlot

theorem opcode {op : Opcode} (h : p.LeadsToSlot v) (hop : p.opcode? v = some op) :
    op.isAlloca = true ∨ ∃ cast w, op = .cast cast w := by
  cases h with
  | slot h =>
    obtain ⟨i, hkind, rfl⟩ := opcode?_eq_some_iff.1 hop
    exact .inl (by simpa [isSlot, hkind] using h)
  | cast h =>
    rcases cast?_eq_some_iff.1 h with hkind | hcast
    · rw [opcode?_eq_none hkind fun i => by simp] at hop
      cases hop
    · exact .inr ⟨_, _, Option.some.inj (hop.symm.trans hcast)⟩

theorem gep?_eq_none (h : p.LeadsToSlot v) : p.gep? v = none := by
  refine Option.eq_none_iff_forall_ne_some.2 fun g hgep => ?_
  rcases gep?_eq_some_iff.1 hgep with hkind | hop
  · cases h with
    | slot h => simp [isSlot, hkind] at h
    | cast h => simp [cast?, hkind] at h
  · simpa [Opcode.isAlloca] using h.opcode hop

theorem step (h : p.LeadsToSlot v) (hu : p.WalksTo v u) : p.LeadsToSlot u := by
  cases hu with
  | load hop => simpa [Opcode.isAlloca] using h.opcode hop
  | select hop => simpa [Opcode.isAlloca] using h.opcode hop
  | phi hop => simpa [Opcode.isAlloca] using h.opcode hop
  | unary hop => simpa [Opcode.isAlloca] using h.opcode hop
  | bitCast hbit =>
    have hcast := cast?_of_bitCast? hbit
    cases h with
    | slot h =>
      rw [cast?_of_isSlot h] at hcast
      cases hcast
    | cast h hw =>
      cases Option.some.inj (hcast.symm.trans h)
      exact hw

end Program.LeadsToSlot

/-! ## Values that can be traced -/

namespace View

/-- Nothing that the value may come from is out of sight. -/
def Traceable (view : View) (flow : Flow) (v : ValueId) : Prop :=
  ∀ u, view.ComesFrom v u → view.brings flow u ≠ .unknown

theorem traceable_of_trace? (hp : view.program.Valid) (hv : view.program.HasValue v) {t : Trace}
    (h : view.trace? flow v = some t) : view.Traceable flow v := by
  intro u hu hunknown
  have hle := brings_le_of_trace? hp hv h hu
  rw [hunknown] at hle
  exact ParamFlow.not_unknown_le_known _ hle

namespace Traceable

theorem brings_ne (h : view.Traceable flow v) : view.brings flow v ≠ .unknown := h v .refl

theorem origin (h : view.Traceable flow v) (hu : u ∈ view.origins v) : view.Traceable flow u :=
  fun w hw => h w (.head hu hw)

theorem gep?_eq_none (h : view.Traceable flow v) : view.program.gep? v = none := by
  refine Option.eq_none_iff_forall_ne_some.2 fun g hgep => h.brings_ne ?_
  rcases Program.gep?_eq_some_iff.1 hgep with hkind | hop
  · simp [brings, hkind]
  · obtain ⟨i, hkind, hiop⟩ := Program.opcode?_eq_some_iff.1 hop
    simp [brings, hkind, hiop]

theorem step (h : view.Traceable flow v) (hu : view.program.WalksTo v u) :
    view.Traceable flow u ∨ view.program.LeadsToSlot u := by
  cases hu with
  | load hop =>
    obtain ⟨i, hkind, hiop⟩ := Program.opcode?_eq_some_iff.1 hop
    refine .inr (Program.leadsToSlot_of_privateStores? ?_)
    have hbrings := h.brings_ne
    simp only [brings, hkind, hiop] at hbrings
    by_contra hstores
    exact hbrings (if_neg hstores)
  | select hop =>
    obtain ⟨i, hkind, hiop⟩ := Program.opcode?_eq_some_iff.1 hop
    exact .inl (h.origin (by simp [origins, hkind, hiop]))
  | phi hop hu =>
    obtain ⟨i, hkind, hiop⟩ := Program.opcode?_eq_some_iff.1 hop
    exact .inl (h.origin (by simpa [origins, hkind, hiop] using hu))
  | unary hop =>
    obtain ⟨i, hkind, hiop⟩ := Program.opcode?_eq_some_iff.1 hop
    exact absurd (by simp [brings, hkind, hiop]) h.brings_ne
  | bitCast hbit =>
    rcases Program.cast?_eq_some_iff.1 (Program.cast?_of_bitCast? hbit) with hkind | hop
    · exact .inl (h.origin (by simp [origins, hkind, CastOp.keepsPointer]))
    · obtain ⟨i, hkind, hiop⟩ := Program.opcode?_eq_some_iff.1 hop
      exact .inl (h.origin (by simp [origins, hkind, hiop, CastOp.keepsPointer]))

end Traceable

/-! ## Whole walks -/

/-- The values that a walk from a pointer that can be traced meets. -/
def TracedOrSlot (view : View) (flow : Flow) (v : ValueId) : Prop :=
  view.Traceable flow v ∨ view.program.LeadsToSlot v

namespace TracedOrSlot

theorem gep?_eq_none (h : view.TracedOrSlot flow v) : view.program.gep? v = none :=
  h.elim Traceable.gep?_eq_none Program.LeadsToSlot.gep?_eq_none

theorem step (h : view.TracedOrSlot flow v) (hu : view.program.WalksTo v u) :
    view.TracedOrSlot flow u :=
  h.elim (·.step hu) fun h => .inr (h.step hu)

end TracedOrSlot

theorem keeps_tracedOrSlot (view : View) (flow : Flow) :
    view.program.layerWalk.Keeps fun _ todo _ => ∀ w ∈ todo, view.TracedOrSlot flow w where
  visit {_ _ v root _ _} h _ hvisit := by
    have hv := h v List.mem_cons_self
    obtain ⟨root', next, hgoOn, hnext⟩ := Program.visit_layerWalk hv.gep?_eq_none root
    cases hgoOn.symm.trans hvisit
    intro w hw
    rcases Turn.mem_join.1 hw with hw | hw
    · exact hv.step (hnext w hw)
    · exact h w (List.mem_cons_of_mem v hw)
  pass h _ w hw := h w (List.mem_cons_of_mem _ hw)

theorem nextLayers_of_traceable (h : view.Traceable flow v) (fresh : List ValueId) :
    ∃ left root, view.program.nextLayers fresh v = (left, .exhausted root) := by
  rcases hrun : view.program.nextLayers fresh v with ⟨left, answer | root⟩
  · have hstart : ∀ w ∈ [v], view.TracedOrSlot flow w := fun w hw =>
      List.mem_singleton.1 hw ▸ .inl h
    obtain ⟨_, w, _, root, hinv, -, hstop⟩ := (keeps_tracedOrSlot view flow).answered hstart hrun
    have hgep := (hinv w List.mem_cons_self).gep?_eq_none
    obtain ⟨root', next, hgoOn, -⟩ := Program.visit_layerWalk hgep root
    cases hgoOn.symm.trans hstop
  · exact ⟨left, root, rfl⟩

end View

end CallTargets
