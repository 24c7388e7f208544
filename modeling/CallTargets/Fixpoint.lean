import CallTargets.Program.Id
/-!
# Running to a fixpoint

A pass is prepared on all modules, sweep by sweep, until a sweep changes nothing, then
run on them in the same way, and at last finished on each module once. A pass comes with
a bound on how much can still change, which makes sweeping end.
-/

namespace CallTargets

abbrev Visitor (σ : Type) := σ → ModuleId → Bool × σ

def Lowers {σ : Type} (rank : σ → Nat) (visit : Visitor σ) : Prop :=
  ∀ s m, rank (visit s m).2 + (visit s m).1.toNat ≤ rank s

structure Pass (σ : Type) where
  prepare : Visitor σ
  run : Visitor σ
  finish : σ → ModuleId → σ := fun s _ => s
  /-- How much can still change. -/
  rank : σ → Nat
  prepare_lowers : Lowers rank prepare
  run_lowers : Lowers rank run

namespace Pass

variable {σ : Type}

/-- Visits each module once, and tells whether any visit changed anything. -/
def sweep (visit : Visitor σ) (s : σ) : List ModuleId → Bool × σ
  | [] => (false, s)
  | m :: ms =>
    let (here, s) := visit s m
    let (later, s) := sweep visit s ms
    (here || later, s)

theorem rank_sweep_le {rank : σ → Nat} {visit : Visitor σ} (h : Lowers rank visit) (s : σ)
    (ms : List ModuleId) : rank (sweep visit s ms).2 + (sweep visit s ms).1.toNat ≤ rank s := by
  induction ms generalizing s with
  | nil => simp [sweep]
  | cons m ms ih =>
    have h₁ := h s m
    have h₂ := ih (visit s m).2
    simp only [sweep]
    cases h₃ : (visit s m).1 <;> cases h₄ : (sweep visit (visit s m).2 ms).1 <;>
      simp [h₃, h₄] at h₁ h₂ ⊢ <;> omega

/-- Sweeps until nothing changes, and counts the sweeps. -/
def settle {rank : σ → Nat} {visit : Visitor σ} (h : Lowers rank visit) (ms : List ModuleId)
    (s : σ) : Nat × σ :=
  match _eq : sweep visit s ms with
  | (false, next) => (1, next)
  | (true, next) =>
    let (n, final) := settle h ms next
    (n + 1, final)
termination_by rank s
decreasing_by
  have := rank_sweep_le h s ms
  simp only [_eq, Bool.toNat_true] at this
  omega

end Pass

structure Summary where
  prepareSweeps : Nat
  runSweeps : Nat
  deriving DecidableEq, Repr

def Pass.fixpoint {σ : Type} (pass : Pass σ) (ms : List ModuleId) (s : σ) : Summary × σ :=
  let (prepareSweeps, s) := settle pass.prepare_lowers ms s
  let (runSweeps, s) := settle pass.run_lowers ms s
  ({ prepareSweeps, runSweeps }, ms.foldl pass.finish s)

end CallTargets
