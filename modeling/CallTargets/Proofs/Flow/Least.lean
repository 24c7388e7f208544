import CallTargets.Proofs.Flow.Open
import Mathlib

/-!
# The flow is not above any solution

A solution knows nothing about the parameters of open functions and allows, for each argument of a
direct call, what the argument can be traced to under the solution itself (`Flow.Solves`). Tracing
is monotone in the flow, so merging one argument into a flow below a solution leaves it there, and
the flow of a program is below all solutions.

A round visits the functions that wait until none does (`Waiting.next`). A visit that makes others
wait leaves less room for the parameters, which bounds the number of visits
(`rounds_end_below_solutions`).
-/

namespace CallTargets

namespace Flow

open Relation

variable {view : View} {flow flow' solution : Flow} {a : Passing}

/-! ## The order of flows -/

/-- The same parameters are tracked, and what the first flow allows is allowed by the second. -/
structure Le (flow flow' : Flow) : Prop where
  tracked : ∀ k, (flow.params.get? k).isSome = (flow'.params.get? k).isSome
  passed : ∀ k, flow.passed k ≤ flow'.passed k

instance : LE Flow := ⟨Le⟩

theorem brings_mono (h : flow ≤ flow') (u : ValueId) :
    view.brings flow u ≤ view.brings flow' u := by
  cases hkind : (view.program.value? u).map Value.kind with
  | none => simp only [View.brings, hkind, ParamFlow.le_refl]
  | some k =>
    cases k with
    | argument f j =>
      rw [brings_argument hkind, brings_argument hkind]
      exact h.passed (f, j)
    | _ => simp only [View.brings, hkind, ParamFlow.le_refl]

theorem traced_mono (hp : view.program.Valid) (h : flow ≤ flow') {v : ValueId}
    (hv : view.program.HasValue v) : view.traced flow v ≤ view.traced flow' v := by
  rw [View.traced_le_iff hp hv]
  intro u hu
  have htraced := (View.traced_le_iff hp hv).1 (ParamFlow.le_refl (view.traced flow' v)) u hu
  exact ParamFlow.le_trans (brings_mono h u) htraced

/-! ## Solutions -/

/-- The parameter is a function pointer, and its function has a body. -/
def IsTracked (p : Program) (k : FunctionId × Nat) : Prop :=
  k.1 ∈ defined p ∧ ∃ fn param, p.function? k.1 = some fn ∧ fn.params[k.2]? = some param ∧
    (p.functionPointee? param).isSome

/-- The address of the function is taken, or it can be seen from outside and no direct call leads
to it. -/
def IsOpenTo (view : View) (f : FunctionId) : Prop :=
  ∃ fn, view.program.function? f = some fn ∧
    (fn.addressTaken = true ∨ fn.linkage.isExternal = true ∧ ¬ IsCalled view f)

/-- Knowledge about all tracked parameters that knows nothing of open functions and allows what
the direct calls pass. -/
structure Solves (view : View) (solution : Flow) : Prop where
  tracked : ∀ k, (solution.params.get? k).isSome ↔ IsTracked view.program k
  unknown : ∀ k, IsTracked view.program k → IsOpenTo view k.1 →
    solution.params.get? k = some .unknown
  allows : ∀ f ∈ defined view.program, ∀ site ∈ view.program.callSites f, ∀ callee,
    view.directTarget? site.call.callee = some callee → ∀ index arg,
    site.call.args[index]? = some arg → ∀ known, solution.params.get? (callee, index) = some known →
    view.traced solution arg ≤ known

theorem Solves.allows_passed (h : Solves view solution) (ha : IsPassed view a) :
    view.traced solution a.arg ≤ solution.passed a.param := by
  obtain ⟨caller, hcaller, hmem⟩ := ha
  obtain ⟨site, hsite, htarget, harg⟩ := mem_passings.1 hmem
  cases hknown : solution.params.get? a.param with
  | none =>
    rw [passed, hknown]
    exact ParamFlow.le_unknown _
  | some known =>
    rw [passed, hknown]
    exact h.allows caller hcaller site hsite a.callee htarget a.index a.arg harg known hknown

/-- The function pointer parameters of functions with a body, and no others, are tracked from the
beginning. -/
theorem isTracked_iff {k : FunctionId × Nat} :
    IsTracked view.program k ↔ ((first view).params.get? k).isSome := by
  have htrackAll : ∀ params called f place, f ∈ defined view.program →
      (∀ k, (params.get? k).isSome → IsTracked view.program k) →
      ∀ k, ((trackAll view.program called params (f, place)).get? k).isSome →
        IsTracked view.program k := by
    intro params called f place hf hparams
    unfold trackAll
    split
    · rename_i fn hfn
      refine List.foldlRecOn (motive := fun params : OrdMap (FunctionId × Nat) ParamFlow =>
        ∀ k, (params.get? k).isSome → IsTracked view.program k) _ _ hparams
        fun params hparams e he k hk => ?_
      unfold track at hk
      split at hk
      · rename_i hpointer
        rw [OrdMap.get?_insert] at hk
        split at hk
        · rename_i hkey
          subst hkey
          exact ⟨hf, fn, e.1, hfn, List.mk_mem_zipIdx_iff_getElem?.1 he, hpointer⟩
        · exact hparams k hk
      · exact hparams k hk
    · exact hparams
  have hfirst : ∀ k, ((first view).params.get? k).isSome → IsTracked view.program k := by
    rw [first, params_start]
    refine List.foldlRecOn (motive := fun params : OrdMap (FunctionId × Nat) ParamFlow =>
      ∀ k, (params.get? k).isSome → IsTracked view.program k) _ _ (fun k hk => by simp at hk)
      fun params hparams e he => ?_
    exact htrackAll params _ e.1 e.2
      (List.mem_of_getElem? (List.mk_mem_zipIdx_iff_getElem?.1 he)) hparams
  refine ⟨fun hk => ?_, hfirst k⟩
  obtain ⟨hf, fn, param, hfn, hparam, hpointer⟩ := hk
  obtain ⟨place, hplace⟩ := List.getElem?_of_mem hf
  exact Option.isSome_iff_exists.2 ⟨_, get?_first view hfn hparam hpointer hplace⟩

theorem first_eq_unknown_iff {k : FunctionId × Nat} (hk : IsTracked view.program k) :
    (first view).params.get? k = some .unknown ↔ IsOpenTo view k.1 := by
  obtain ⟨hf, fn, param, hfn, hparam, hpointer⟩ := hk
  obtain ⟨place, hplace⟩ := List.getElem?_of_mem hf
  have hopen : isOpen (directCalls view (defined view.program)).toList.flatten place fn = true ↔
      IsOpenTo view k.1 := by
    rw [isOpen_iff, contains_called_iff view hplace]
    refine ⟨fun h => ⟨fn, hfn, h⟩, ?_⟩
    rintro ⟨fn', hfn', h⟩
    cases hfn.symm.trans hfn'
    exact h
  rw [get?_first view hfn hparam hpointer hplace, ← hopen]
  split <;> simp [*]

theorem Solves.first_le (h : Solves view solution) : first view ≤ solution := by
  refine ⟨fun k => ?_, fun k => ?_⟩
  · rw [Bool.eq_iff_iff, h.tracked k, isTracked_iff]
  · by_cases hk : IsTracked view.program k
    · obtain ⟨now, hnow⟩ := Option.isSome_iff_exists.1 (isTracked_iff.1 hk)
      cases now with
      | unknown =>
        have hunknown := h.unknown k hk ((first_eq_unknown_iff hk).1 hnow)
        rw [passed, passed, hnow, hunknown]
      | known fs =>
        obtain rfl : fs = ∅ := untouched_start _ _ _ k fs hnow
        rw [passed, hnow]
        cases solution.passed k with
        | unknown => exact ParamFlow.le_unknown _
        | known s => exact fun g hg => absurd hg (OrdSet.not_mem_empty g)
    · have hnone : solution.params.get? k = none :=
        Option.not_isSome_iff_eq_none.1 fun hsome => hk ((h.tracked k).1 hsome)
      rw [passed, passed, hnone]
      exact ParamFlow.le_unknown _

theorem Solves.mergeInto_le (hview : view.Valid) (h : Solves view solution) (hle : flow ≤ solution)
    (ha : IsPassed view a) : a.mergeInto view flow ≤ solution := by
  have harg : view.program.HasValue a.arg := by
    obtain ⟨caller, -, hmem⟩ := ha
    exact hasValue_of_mem_passings hview hmem
  have hincoming : view.traced flow a.arg ≤ solution.passed a.param :=
    ParamFlow.le_trans (traced_mono hview.program hle harg) (h.allows_passed ha)
  refine ⟨fun k => ?_, fun k => ?_⟩
  · rw [get?_mergeInto, ← hle.tracked k]
    split
    · exact Option.isSome_map
    · rfl
  · rw [passed, get?_mergeInto]
    split
    · rename_i hk
      subst hk
      have hold := hle.passed a.param
      rw [passed] at hold
      cases hget : flow.params.get? a.param with
      | none =>
        rw [hget] at hold
        exact hold
      | some old =>
        rw [hget] at hold
        exact ParamFlow.merge_le_iff.2 ⟨hold, hincoming⟩
    · exact hle.passed k

theorem Solves.merges_le (hview : view.Valid) (h : Solves view solution) (hle : flow ≤ solution)
    (hmerges : Merges view flow flow') : flow' ≤ solution := by
  induction hmerges with
  | refl => exact hle
  | tail _ hstep ih =>
    obtain ⟨a, ha, rfl⟩ := hstep
    exact h.mergeInto_le hview ih ha

/-! ## Rounds end -/

/-- A round under way: the functions that wait for a visit, and the flow so far. -/
structure Waiting where
  queue : List FunctionId
  flow : Flow

namespace Waiting

/-- Visits the function that has waited longest. Members whose parameters changed wait then, if
they do not yet. -/
def next (view : View) (members : List FunctionId) (w : Waiting) : Waiting :=
  match w.queue with
  | [] => w
  | f :: queue =>
    let found := visit view w.flow f
    ⟨queue ++ found.2.toList.filter fun g => members.contains g && !queue.contains g, found.1⟩

end Waiting

/-- What holds of a round: so many visits at most empty its queue, and no visit takes back
anything. -/
structure RoundEnds (view : View) (members : List FunctionId) (flow final : Flow) : Prop where
  emptied : ∃ n ≤ members.length * (1 + flow.room view.program.functionIds),
    (Waiting.next view members)^[n] ⟨members, flow⟩ = ⟨[], final⟩
  grows : ∀ n, ((Waiting.next view members)^[n] ⟨members, flow⟩).flow ≤
    ((Waiting.next view members)^[n + 1] ⟨members, flow⟩).flow

theorem pass_eq_self {callee : FunctionId} {index : Nat} {arg : ValueId}
    (h : (pass view flow callee index arg).2 = false) :
    (pass view flow callee index arg).1 = flow := by
  unfold pass at h ⊢
  cases hold : flow.params.get? (callee, index) with
  | none => rfl
  | some old =>
    rw [hold] at h
    have hsame := (of_decide_eq_false h)
    push Not at hsame
    exact congrArg Flow.mk (OrdMap.alter_eq_self hold hsame.symm)

theorem visit_eq_self {f : FunctionId} (h : ∀ g, g ∉ (visit view flow f).2) :
    (visit view flow f).1 = flow := by
  have hinv : (∀ g, g ∉ (visit view flow f).2) → (visit view flow f).1 = flow := by
    rw [visit_eq]
    refine List.foldlRecOn (motive := fun state : Flow × OrdSet FunctionId =>
      (∀ g, g ∉ state.2) → state.1 = flow) _ _ (fun _ => rfl) fun state ih a _ hnone => ?_
    cases hnew : (pass view state.1 a.callee a.index a.arg).2 with
    | true =>
      simp only [mergeOne, hnew, if_true] at hnone
      exact absurd (OrdSet.mem_insert.2 (.inr rfl)) (hnone a.callee)
    | false =>
      simp only [mergeOne, hnew] at hnone
      exact (pass_eq_self hnew).trans (ih hnone)
  exact hinv h

section Rounds

variable (hview : view.Valid) {members : List FunctionId}
include hview

theorem Waiting.inRange_next {w : Waiting} (h : w.flow.InRange view.program) :
    (w.next view members).flow.InRange view.program := by
  unfold Waiting.next
  split
  · exact h
  · exact (merged_visit hview h _).inRange

theorem Waiting.le_next {w : Waiting} (h : w.flow.InRange view.program) :
    w.flow ≤ (w.next view members).flow := by
  unfold Waiting.next
  split
  · exact ⟨fun k => rfl, fun k => ParamFlow.le_refl _⟩
  · have hmerged := merged_visit hview h
    exact ⟨fun k => ((hmerged _).tracked k).symm, (hmerged _).grown⟩

/-- Visiting empties the queue. Each visit takes one function off it, and one after which members
wait again uses up room. -/
theorem exists_iterate_next (queue : List FunctionId) (flow : Flow)
    (hrange : flow.InRange view.program) :
    ∃ n ≤ queue.length + members.length * flow.room view.program.functionIds,
      (Waiting.next view members)^[n] ⟨queue, flow⟩ = ⟨[], settle view members queue flow⟩ := by
  fun_induction settle view members queue flow with
  | case1 flow => exact ⟨0, Nat.zero_le _, rfl⟩
  | case2 flow f queue found hlt again ih =>
    obtain ⟨n, hn, hrun⟩ := ih (merged_visit hview hrange f).inRange
    refine ⟨n + 1, ?_, hrun⟩
    have hagain : again.length ≤ members.length := by
      refine (List.subperm_of_subset (found.2.nodup.filter _) fun g hg => ?_).length_le
      have hmember := (List.mem_filter.1 hg).2
      simp only [Bool.and_eq_true, List.contains_iff_mem] at hmember
      exact hmember.1
    have hroom : members.length * (found.1.room view.program.functionIds + 1) ≤
        members.length * flow.room view.program.functionIds := Nat.mul_le_mul_left _ hlt
    rw [Nat.mul_succ] at hroom
    rw [List.length_append] at hn
    rw [List.length_cons]
    omega
  | case3 flow f queue found hlt ih =>
    obtain ⟨n, hn, hrun⟩ := ih hrange
    have hnone : ∀ g, g ∉ found.2 := fun g hg => hlt ((merged_visit hview hrange f).changed g hg).2
    have hnext : Waiting.next view members ⟨f :: queue, flow⟩ = ⟨queue, flow⟩ := by
      have hempty : found.2.toList = [] := List.eq_nil_iff_forall_not_mem.2 hnone
      simp only [Waiting.next]
      rw [visit_eq_self hnone, show (visit view flow f).2.toList = [] from hempty, List.filter_nil,
        List.append_nil]
    refine ⟨n + 1, by rw [List.length_cons]; omega, ?_⟩
    rw [Function.iterate_succ_apply, hnext]
    exact hrun

theorem roundEnds_settle (members : List FunctionId) (hrange : flow.InRange view.program) :
    RoundEnds view members flow (settle view members members flow) := by
  constructor
  · rw [Nat.mul_add, Nat.mul_one]
    exact exists_iterate_next hview members flow hrange
  · intro n
    rw [Function.iterate_succ_apply']
    refine Waiting.le_next hview ?_
    induction n with
    | zero => exact hrange
    | succ n ih =>
      rw [Function.iterate_succ_apply']
      exact Waiting.inRange_next hview ih

end Rounds

def after (view : View) (done : List (List FunctionId)) : Flow :=
  done.foldl (fun flow members => settle view members members flow) (first view)

theorem inRange_after (hview : view.Valid) (done : List (List FunctionId)) :
    (after view done).InRange view.program := by
  refine List.foldlRecOn _ _ ((untouched_start _ _ _).inRange _) fun flow hrange members _ => ?_
  exact (settle_spec hview (S := fun _ _ => False) (T := fun _ => False)
    (fun _ _ _ _ _ h => h.elim) members flow (fun _ hf => hf) hrange fun _ h => h.elim).1

/-- Every round of a program ends, and the flow that the rounds lead to is below all solutions. -/
theorem rounds_end_below_solutions (hview : view.Valid) :
    (∀ earlier members later, rounds view = earlier ++ members :: later →
      RoundEnds view members (after view earlier) (after view (earlier ++ [members]))) ∧
    ofView view = after view (rounds view) ∧
    ∀ solution, Solves view solution → ofView view ≤ solution := by
  refine ⟨fun earlier members later _ => ?_, rfl, fun solution hsolution => ?_⟩
  · rw [show after view (earlier ++ [members]) =
      settle view members members (after view earlier) from List.foldl_append]
    exact roundEnds_settle hview members (inRange_after hview earlier)
  · exact hsolution.merges_le hview hsolution.first_le (merges_ofView view)

open Sample in
/-- `main` passes itself to `ping`, and `ping` and `pong` pass on to each other what they are
passed. -/
def pingPong : Program :=
  let call (f callee arg : Nat) : Value :=
    value 0 (.instr ⟨⟨f⟩, 0, .call ⟨⟨callee⟩, [⟨arg⟩], 3, false⟩, none⟩)
  let function (name : String) (t : Nat) (params body : List ValueId) (address : Nat) : Function :=
    ⟨name, ⟨t⟩, 0, .internal, params, [⟨0, body⟩], ⟨address⟩, false⟩
  Program.withUses
    { types := ⟨#[.void, .function 0 [] false, .pointer 1, .function 0 [2] false,
        .pointer 3]⟩
      values := #[value 2 (.function 0), value 4 (.function 1), value 2 (.argument 1 0),
        value 4 (.function 2), value 2 (.argument 2 0), call 0 1 0, call 1 3 2, call 2 1 4]
      functions := #[function "main" 1 [] [5] 0, function "ping" 3 [2] [6] 1,
        function "pong" 3 [4] [7] 3]
      globals := #[]
      modules := #[⟨0, "m", [0, 1, 2], [], []⟩] }

theorem valid_pingPong : pingPong.Valid := Program.valid_withUses rfl

def mainAndPing : ParamFlow := .known (.ofList [0, 1])

/-- Knowledge that allows them for both parameters. -/
def generous : Flow :=
  { params := ((∅ : OrdMap (FunctionId × Nat) ParamFlow).insert (1, 0) mainAndPing).insert
      (2, 0) mainAndPing }

attribute [local instance] Hasher.digits

theorem solves_generous : Solves (View.ofProgram pingPong).link generous := by
  have hfirst : (first (View.ofProgram pingPong).link).params.toList =
      [((1, 0), .known ∅), ((2, 0), .known ∅)] := by cbv
  have htracked : ∀ k, IsTracked (View.ofProgram pingPong).link.program k ↔
      k = (1, 0) ∨ k = (2, 0) := by
    intro k
    rw [isTracked_iff, OrdMap.get?, hfirst, OrdMap.findIn, OrdMap.findIn, OrdMap.findIn]
    split
    · simp_all
    · split <;> simp_all [eq_comm]
  constructor
  · intro k
    rw [htracked, generous, OrdMap.get?_insert, OrdMap.get?_insert]
    split
    · simp_all
    · split <;> simp_all [eq_comm]
  · intro k hk hopen
    have hunknown := (first_eq_unknown_iff hk).2 hopen
    rw [OrdMap.get?, hfirst] at hunknown
    rcases (htracked k).1 hk with rfl | rfl
    · cases hunknown
    · cases hunknown
  · have hmain : passings (View.ofProgram pingPong).link 0 = [⟨1, 0, 0⟩] := by cbv
    have hping : passings (View.ofProgram pingPong).link 1 = [⟨2, 0, 2⟩] := by cbv
    have hpong : passings (View.ofProgram pingPong).link 2 = [⟨1, 0, 4⟩] := by cbv
    have hself : (View.ofProgram pingPong).link.traced generous 0 = .known (.ofList [0]) := by
      cbv
    have hparam : (View.ofProgram pingPong).link.traced generous 2 = mainAndPing ∧
        (View.ofProgram pingPong).link.traced generous 4 = mainAndPing := by cbv
    have hget : generous.params.get? (1, 0) = some mainAndPing ∧
        generous.params.get? (2, 0) = some mainAndPing := by decide
    have hdefined : defined (View.ofProgram pingPong).link.program = [0, 1, 2] := by cbv
    intro f hf site hsite callee hcallee index arg harg known hknown
    have hmem : (⟨callee, index, arg⟩ : Passing) ∈ passings (View.ofProgram pingPong).link f :=
      mem_passings.2 ⟨site, hsite, hcallee, harg⟩
    rw [hdefined] at hf
    simp only [List.mem_cons, List.not_mem_nil, or_false] at hf
    rcases hf with rfl | rfl | rfl
    · rw [hmain] at hmem
      cases List.mem_singleton.1 hmem
      cases hget.1.symm.trans hknown
      rw [hself, mainAndPing, ParamFlow.known_le_known]
      simp
    · rw [hping] at hmem
      cases List.mem_singleton.1 hmem
      cases hget.2.symm.trans hknown
      rw [hparam.1]
    · rw [hpong] at hmem
      cases List.mem_singleton.1 hmem
      cases hget.1.symm.trans hknown
      rw [hparam.2]

/-- The round of `ping` and `pong` ends, and they are passed no more than `generous` allows. -/
theorem rounds_end_below_solutions_pingPong :
    pingPong.Valid ∧ Solves (View.ofProgram pingPong).link generous ∧
      RoundEnds (View.ofProgram pingPong).link [1, 2]
        (after (View.ofProgram pingPong).link [[0]])
        (after (View.ofProgram pingPong).link [[0], [1, 2]]) ∧
      ofView (View.ofProgram pingPong).link ≤ generous := by
  have hview : (View.ofProgram pingPong).link.Valid := (View.valid_ofProgram valid_pingPong).link
  have hrounds : rounds (View.ofProgram pingPong).link = [[0]] ++ [1, 2] :: [] := by cbv
  obtain ⟨hends, -, hbelow⟩ := rounds_end_below_solutions hview
  exact ⟨valid_pingPong, solves_generous, hends _ _ _ hrounds, hbelow generous solves_generous⟩

end Flow

end CallTargets
