import CallTargets.Proofs.Flow.Trace
import CallTargets.Proofs.Graph.Components
import CallTargets.Proofs.Ordered
import CallTargets.Proofs.View
import Mathlib

/-!
# What is passed to parameters

The flow of a program is meant to solve equations: what an argument of a direct call can
be traced to is among what is known to be passed to the parameter. Functions are visited
in rounds, one for each component of the graph of direct calls, callers first. A visit
merges the traces of all arguments under the flow of that moment, and a function is
visited again only if its own parameters changed. So a function's equations hold in the end as
far as its traces read parameters of itself and of functions of earlier rounds
(`sound_ofView`). Traces also read parameters of functions that come later, through
private variables and results of calls, and such a parameter may grow after it was read.
An equation holds exactly if it allows what is passed to those parameters in the end
(`solved_iff`).
-/

namespace CallTargets

variable {view : View} {f : FunctionId} {flow : Flow} {earlier later : List (List FunctionId)}
  {members : List FunctionId}

/-! ## Room -/

namespace ParamFlow

variable {a : ParamFlow} {incoming : Option (OrdSet FunctionId)}

theorem le_merge (a : ParamFlow) (incoming : Option (OrdSet FunctionId)) :
    a ≤ a.merge incoming := (merge_le_iff.1 (le_refl _)).1

theorem ofTrace_le_merge (a : ParamFlow) (incoming : Option (OrdSet FunctionId)) :
    ofTrace incoming ≤ a.merge incoming := (merge_le_iff.1 (le_refl _)).2

theorem merge_eq_self_iff : a.merge incoming = a ↔ ofTrace incoming ≤ a := by
  refine ⟨fun h => h ▸ ofTrace_le_merge a incoming, fun h => ?_⟩
  cases a with
  | unknown => rfl
  | known s =>
    cases incoming with
    | none => exact absurd h (not_unknown_le_known s)
    | some t => exact congrArg known (OrdSet.union_eq_left h)

theorem mem_of_merge {fs : OrdSet FunctionId} (h : a.merge incoming = known fs) (hf : f ∈ fs) :
    (∃ s, a = known s ∧ f ∈ s) ∨ ∃ t, incoming = some t ∧ f ∈ t := by
  cases a with
  | unknown => cases h
  | known s =>
    cases incoming with
    | none => cases h
    | some t =>
      cases h
      exact (OrdSet.mem_union.1 hf).imp (fun h => ⟨s, rfl, h⟩) fun h => ⟨t, rfl, h⟩

theorem room_merge_lt {all : List FunctionId} (hall : ∀ fs, incoming = some fs → ∀ f ∈ fs, f ∈ all)
    (hne : a.merge incoming ≠ a) : (a.merge incoming).room all < a.room all := by
  cases a with
  | unknown => exact absurd rfl hne
  | known s =>
    cases incoming with
    | none =>
      simp only [merge, room]
      omega
    | some t =>
      have hnot : ¬ ofTrace (some t) ≤ known s := fun h => hne (merge_eq_self_iff.2 h)
      obtain ⟨f, hft, hfs⟩ : ∃ f, f ∈ t ∧ f ∉ s := by
        by_contra hcon
        push Not at hcon
        exact hnot hcon
      have hsplit : (all.filter fun f => decide (f ∉ s.union t)) =
          (all.filter fun f => decide (f ∉ s)).filter fun f => decide (f ∉ t) := by
        rw [List.filter_filter]
        refine List.filter_congr fun g _ => ?_
        simp [OrdSet.mem_union, not_or, Bool.and_comm]
      have hlt : ((all.filter fun f => decide (f ∉ s)).filter fun f => decide (f ∉ t)).length <
          (all.filter fun f => decide (f ∉ s)).length := by
        refine List.length_filter_lt_length_iff_exists.2 ⟨f, ?_, by simpa using hft⟩
        exact List.mem_filter.2 ⟨hall t rfl f hft, by simpa using hfs⟩
      simp only [merge, room, hsplit]
      omega

end ParamFlow

namespace Flow

/-- What is known about a parameter; nothing is known of one that is not tracked. -/
def passed (flow : Flow) (k : FunctionId × Nat) : ParamFlow := (flow.params.get? k).getD .unknown

theorem room_eq_sum (all : List FunctionId) (flow : Flow) :
    flow.room all = (flow.params.toList.map fun e => e.2.room all).sum := by
  rw [room, List.sum_eq_foldl, List.foldl_map]

theorem room_insert (all : List FunctionId) {k : FunctionId × Nat} {old : ParamFlow}
    (new : ParamFlow) (h : flow.params.get? k = some old) :
    ({ params := flow.params.insert k new } : Flow).room all + old.room all =
      flow.room all + new.room all := by
  have hlist : ∀ es : List ((FunctionId × Nat) × ParamFlow), OrdMap.findIn k es = some old →
      ((OrdMap.alterIn k (fun _ => new) es).map fun e => e.2.room all).sum + old.room all =
        (es.map fun e => e.2.room all).sum + new.room all := by
    intro es
    induction es with
    | nil => intro h; cases h
    | cons e es ih =>
      obtain ⟨k', a⟩ := e
      intro h
      by_cases hk : k' = k
      · simp only [OrdMap.findIn, OrdMap.alterIn, hk, if_true, Option.some.injEq] at h ⊢
        subst h
        simp only [List.map_cons, List.sum_cons]
        omega
      · simp only [OrdMap.findIn, OrdMap.alterIn, hk, if_false] at h ⊢
        simp only [List.map_cons, List.sum_cons]
        have := ih h
        omega
  rw [room_eq_sum, room_eq_sum]
  exact hlist flow.params.toList h

/-! ## One visit -/

/-- The functions known to be passed exist. -/
def InRange (p : Program) (flow : Flow) : Prop :=
  ∀ k fs, flow.params.get? k = some (.known fs) → ∀ f ∈ fs, p.HasFunction f

structure Passing where
  callee : FunctionId
  index : Nat
  arg : ValueId

def Passing.param (a : Passing) : FunctionId × Nat := (a.callee, a.index)

/-- The arguments of the direct calls of a function, in order. -/
def passings (view : View) (caller : FunctionId) : List Passing :=
  (view.program.callSites caller).flatMap fun site =>
    match view.directTarget? site.call.callee with
    | some callee => site.call.args.zipIdx.map fun (arg, index) => ⟨callee, index, arg⟩
    | none => []

/-- Merges what an argument passes, and notes whose parameters changed. -/
def mergeOne (view : View) (state : Flow × OrdSet FunctionId) (a : Passing) :
    Flow × OrdSet FunctionId :=
  let r := pass view state.1 a.callee a.index a.arg
  (r.1, if r.2 then state.2.insert a.callee else state.2)

theorem visit_eq (view : View) (flow : Flow) (caller : FunctionId) :
    visit view flow caller = (passings view caller).foldl (mergeOne view) (flow, ∅) := by
  rw [passings, List.foldl_flatMap, visit]
  congr 1
  funext ⟨flow, changed⟩ site
  cases view.directTarget? site.call.callee with
  | none => rfl
  | some callee =>
    dsimp only
    rw [List.foldl_map]
    rfl

theorem brings_congr {view : View} {flow flow' : Flow} {u : ValueId}
    (h : ∀ f j, (view.program.value? u).map Value.kind = some (.argument f j) →
      flow.params.get? (f, j) = flow'.params.get? (f, j)) :
    view.brings flow u = view.brings flow' u := by
  cases hkind : (view.program.value? u).map Value.kind with
  | none => simp only [View.brings, hkind]
  | some k =>
    cases k with
    | argument f j => simp only [View.brings, hkind, h f j hkind]
    | _ => simp only [View.brings, hkind]

theorem brings_argument {u : ValueId} {j : Nat}
    (h : (view.program.value? u).map Value.kind = some (.argument f j)) :
    view.brings flow u = flow.passed (f, j) := by
  simp only [View.brings, h, passed]

/-- The values that a pointer may come from, where parameters count only if they belong to
some functions. -/
def Reads (view : View) (S : FunctionId → Prop) (v u : ValueId) : Prop :=
  view.ComesFrom v u ∧
    ∀ f j, (view.program.value? u).map Value.kind = some (.argument f j) → S f

section Merge

variable {view : View} (hview : view.Valid) {flow : Flow} {done : List Passing}
  {state state' : Flow × OrdSet FunctionId} {a : Passing}

include hview in
theorem hasFunction_of_trace? {v : ValueId} {t : Trace} (hflow : flow.InRange view.program)
    (ht : view.trace? flow v = some t) (hf : f ∈ t.functions) : view.program.HasFunction f := by
  obtain ⟨u, fs, -, hbrings, hmem⟩ := View.mem_functions_of_trace? ht hf
  rcases View.mem_of_brings hbrings hmem with ⟨g, hkind, -, rfl⟩ | ⟨g, j, -, hparam⟩
  · exact hview.hasFunction_definitionOf (hview.program.kindOk hkind)
  · exact hflow (g, j) fs hparam f hmem

structure MergedOne (view : View) (state : Flow × OrdSet FunctionId) (a : Passing)
    (state' : Flow × OrdSet FunctionId) : Prop where
  inRange : state'.1.InRange view.program
  tracked : ∀ k, (state'.1.params.get? k).isSome = (state.1.params.get? k).isSome
  grown : ∀ k, state.1.passed k ≤ state'.1.passed k
  same : ∀ f j, f ∉ state'.2 → state'.1.params.get? (f, j) = state.1.params.get? (f, j)
  kept : ∀ f ∈ state.2, f ∈ state'.2
  allowed : view.traced state.1 a.arg ≤ state'.1.passed a.param
  room : state'.1.room view.program.functionIds ≤ state.1.room view.program.functionIds
  changed : ∀ f ∈ state'.2, f ∈ state.2 ∨ f = a.callee ∧
    state'.1.room view.program.functionIds < state.1.room view.program.functionIds

theorem mergedOne_of_untracked (hrange : state.1.InRange view.program)
    (hold : state.1.params.get? a.param = none) :
    MergedOne view state a (mergeOne view state a) := by
  have hstate : mergeOne view state a = state := by
    simp [mergeOne, pass, show state.1.params.get? (a.callee, a.index) = none from hold]
  rw [hstate]
  refine ⟨hrange, fun k => rfl, fun k => ParamFlow.le_refl _, fun f j _ => rfl, fun f hf => hf, ?_,
    Nat.le_refl _, fun f hf => .inl hf⟩
  rw [passed, hold]
  exact ParamFlow.le_unknown _

include hview in
theorem mergedOne_of_tracked (hrange : state.1.InRange view.program) {old : ParamFlow}
    (hold : state.1.params.get? a.param = some old) :
    MergedOne view state a (mergeOne view state a) := by
  obtain ⟨incoming, hinc⟩ : ∃ x, (view.trace? state.1 a.arg).map Trace.functions = x := ⟨_, rfl⟩
  have hall : ∀ fs, incoming = some fs → ∀ f ∈ fs, view.program.HasFunction f := by
    intro fs hfs f hf
    obtain ⟨t, ht, rfl⟩ := Option.map_eq_some_iff.1 (hinc.trans hfs)
    exact hasFunction_of_trace? hview hrange ht hf
  have hstate : mergeOne view state a =
      ({ params := state.1.params.insert a.param (old.merge incoming) },
        if old ≠ old.merge incoming then state.2.insert a.callee else state.2) := by
    simp only [mergeOne, pass, show state.1.params.get? (a.callee, a.index) = some old from hold,
      hinc]
    simp [Passing.param]
  have hroom := room_insert view.program.functionIds (old.merge incoming) hold
  have hget := OrdMap.get?_insert state.1.params a.param (old.merge incoming)
  have hroom_lt : old ≠ old.merge incoming →
      (old.merge incoming).room view.program.functionIds < old.room view.program.functionIds :=
    fun hne => ParamFlow.room_merge_lt
      (fun fs hfs f hf => Program.mem_functionIds.2 (hall fs hfs f hf)) hne.symm
  rw [hstate]
  constructor
  · intro k fs hk f hf
    rw [hget] at hk
    split at hk
    · rcases ParamFlow.mem_of_merge (Option.some.inj hk) hf with ⟨s, rfl, hs⟩ | ⟨t, ht, hmem⟩
      · exact hrange a.param s hold f hs
      · exact hall t ht f hmem
    · exact hrange k fs hk f hf
  · intro k
    rw [hget]
    split
    · rename_i hk
      rw [← hk, hold]
      rfl
    · rfl
  · intro k
    rw [passed, passed, hget]
    split
    · rename_i hk
      rw [← hk, hold]
      exact ParamFlow.le_merge old incoming
    · exact ParamFlow.le_refl _
  · intro f j hf
    rw [hget]
    split
    · rename_i hk
      by_cases hne : old = old.merge incoming
      · rw [← hne, ← hk, hold]
      · rw [if_pos hne, OrdSet.mem_insert] at hf
        exact absurd (.inr (congrArg Prod.fst hk).symm) hf
    · rfl
  · intro f hf
    split
    · exact OrdSet.mem_insert.2 (.inl hf)
    · exact hf
  · rw [passed, hget, if_pos rfl, View.traced, hinc]
    exact ParamFlow.ofTrace_le_merge old incoming
  · by_cases hne : old = old.merge incoming
    · rw [← hne] at hroom ⊢
      exact Nat.le_of_eq (Nat.add_right_cancel hroom)
    · have := hroom_lt hne
      dsimp only
      omega
  · intro f hf
    split at hf
    · rename_i hne
      have := hroom_lt hne
      rcases OrdSet.mem_insert.1 hf with hf | hf
      · exact .inl hf
      · refine .inr ⟨hf, ?_⟩
        dsimp only
        omega
    · exact .inl hf

/-- What merging some arguments does to a flow. Under the flow that results, their traces
are allowed as far as they read parameters that did not change on the way. -/
structure Merged (view : View) (flow : Flow) (done : List Passing)
    (state : Flow × OrdSet FunctionId) : Prop where
  inRange : state.1.InRange view.program
  tracked : ∀ k, (state.1.params.get? k).isSome = (flow.params.get? k).isSome
  grown : ∀ k, flow.passed k ≤ state.1.passed k
  same : ∀ f j, f ∉ state.2 → state.1.params.get? (f, j) = flow.params.get? (f, j)
  allowed : ∀ a ∈ done, ∀ u, Reads view (· ∉ state.2) a.arg u →
    view.brings state.1 u ≤ state.1.passed a.param
  room : state.1.room view.program.functionIds ≤ flow.room view.program.functionIds
  changed : ∀ f ∈ state.2, (∃ a ∈ done, a.callee = f) ∧
    state.1.room view.program.functionIds < flow.room view.program.functionIds

include hview in
theorem Merged.step (h : Merged view flow done state) (harg : view.program.HasValue a.arg)
    (hone : MergedOne view state a state') : Merged view flow (done ++ [a]) state' := by
  have hbrings : ∀ v u, Reads view (· ∉ state'.2) v u →
      view.brings state'.1 u = view.brings state.1 u := fun v u hu =>
    brings_congr fun f j hkind => hone.same f j (hu.2 f j hkind)
  constructor
  · exact hone.inRange
  · exact fun k => (hone.tracked k).trans (h.tracked k)
  · exact fun k => ParamFlow.le_trans (h.grown k) (hone.grown k)
  · intro f j hf
    exact (hone.same f j hf).trans (h.same f j fun hmem => hf (hone.kept f hmem))
  · intro b hb u hu
    rw [hbrings b.arg u hu]
    rcases List.mem_append.1 hb with hb | hb
    · refine ParamFlow.le_trans (h.allowed b hb u ⟨hu.1, fun f j hkind hmem => ?_⟩) (hone.grown _)
      exact hu.2 f j hkind (hone.kept f hmem)
    · cases List.mem_singleton.1 hb
      exact (View.traced_le_iff hview.program harg).1 hone.allowed u hu.1
  · exact Nat.le_trans hone.room h.room
  · intro f hf
    rcases hone.changed f hf with hf | ⟨rfl, hlt⟩
    · obtain ⟨⟨b, hb, hcallee⟩, hlt⟩ := h.changed f hf
      exact ⟨⟨b, List.mem_append_left _ hb, hcallee⟩, Nat.lt_of_le_of_lt hone.room hlt⟩
    · exact ⟨⟨a, List.mem_append_right _ List.mem_cons_self, rfl⟩, Nat.lt_of_lt_of_le hlt h.room⟩

include hview in
theorem Merged.foldl (h : Merged view flow done state) (as : List Passing)
    (has : ∀ a ∈ as, view.program.HasValue a.arg) :
    Merged view flow (done ++ as) (as.foldl (mergeOne view) state) := by
  induction as generalizing done state with
  | nil =>
    rw [List.append_nil]
    exact h
  | cons a as ih =>
    have hone : MergedOne view state a (mergeOne view state a) := by
      cases hold : state.1.params.get? a.param with
      | none => exact mergedOne_of_untracked h.inRange hold
      | some old => exact mergedOne_of_tracked hview h.inRange hold
    rw [List.foldl_cons, List.append_cons]
    exact ih (h.step hview (has a List.mem_cons_self) hone)
      fun b hb => has b (List.mem_cons_of_mem a hb)

theorem mem_passings {caller : FunctionId} : a ∈ passings view caller ↔
    ∃ site ∈ view.program.callSites caller, view.directTarget? site.call.callee = some a.callee ∧
      site.call.args[a.index]? = some a.arg := by
  rw [passings, List.mem_flatMap]
  refine exists_congr fun site => and_congr_right fun _ => ?_
  cases view.directTarget? site.call.callee with
  | none => simp
  | some callee =>
    obtain ⟨callee', index, arg⟩ := a
    simp only [List.mem_map, Prod.exists, List.mk_mem_zipIdx_iff_getElem?, Passing.mk.injEq,
      Option.some.injEq]
    constructor
    · rintro ⟨arg', index', harg, rfl, rfl, rfl⟩
      exact ⟨rfl, harg⟩
    · rintro ⟨rfl, harg⟩
      exact ⟨arg, index, harg, rfl, rfl, rfl⟩

include hview in
theorem hasValue_of_mem_passings {caller : FunctionId} (ha : a ∈ passings view caller) :
    view.program.HasValue a.arg := by
  obtain ⟨site, hsite, -, harg⟩ := mem_passings.1 ha
  obtain ⟨v, -, hv⟩ := List.mem_filterMap.1 hsite
  refine hview.program.hasValue_operand (u := v) ?_
  rw [Program.operands_of_opcode (Program.opcode?_of_callSite? hv)]
  exact List.mem_append_left _ (List.mem_of_getElem? harg)

include hview in
theorem merged_visit (hrange : flow.InRange view.program) (caller : FunctionId) :
    Merged view flow (passings view caller) (visit view flow caller) := by
  have hstart : Merged view flow [] (flow, ∅) :=
    ⟨hrange, fun k => rfl, fun k => ParamFlow.le_refl _, fun f j _ => rfl,
      fun a ha => (by cases ha), Nat.le_refl _, fun f hf => absurd hf (OrdSet.not_mem_empty f)⟩
  rw [visit_eq]
  exact hstart.foldl hview (passings view caller) fun a ha => hasValue_of_mem_passings hview ha

end Merge

/-! ## Rounds of visits -/

/-- The traces of a function's arguments are allowed, as far as they read parameters of some
functions. -/
def Sound (view : View) (S : FunctionId → Prop) (flow : Flow) (f : FunctionId) : Prop :=
  ∀ a ∈ passings view f, ∀ u, Reads view S a.arg u → view.brings flow u ≤ flow.passed a.param

theorem Sound.mono {S : FunctionId → Prop} {flow' : Flow} (h : Sound view S flow f)
    (hgrown : ∀ k, flow.passed k ≤ flow'.passed k)
    (hsame : ∀ g j, S g → flow'.params.get? (g, j) = flow.params.get? (g, j)) :
    Sound view S flow' f := by
  intro a ha u hu
  rw [brings_congr fun g j hkind => hsame g j (hu.2 g j hkind)]
  exact ParamFlow.le_trans (h a ha u hu) (hgrown a.param)

section Settle

variable {view : View} (hview : view.Valid) {S : FunctionId → FunctionId → Prop}
  {T : FunctionId → Prop} {members : List FunctionId}
  (hcallee : ∀ f ∈ members, ∀ a ∈ passings view f, ∀ g, T g → S g a.callee →
    a.callee = g ∧ g ∈ members)
  {flow : Flow} {next : Flow × OrdSet FunctionId} {f g : FunctionId}

include hcallee in
theorem Merged.mem_of_reads (h : Merged view flow (passings view f) next) (hf : f ∈ members)
    (hg : T g) {k : FunctionId} (hk : k ∈ next.2) (hS : S g k) : g ∈ members ∧ g ∈ next.2 := by
  obtain ⟨⟨a, ha, rfl⟩, -⟩ := h.changed k hk
  obtain ⟨rfl, hmem⟩ := hcallee f hf a ha g hg hS
  exact ⟨hmem, hk⟩

include hcallee in
theorem Merged.sound_visited (h : Merged view flow (passings view f) next) (hf : f ∈ members)
    (hT : T f) (hun : f ∉ next.2) : Sound view (S f) next.1 f := by
  intro a ha u hu
  refine h.allowed a ha u ⟨hu.1, fun k j hkind hk => hun ?_⟩
  exact (h.mem_of_reads hcallee hf hT hk (hu.2 k j hkind)).2

include hcallee in
theorem Merged.sound_kept (h : Merged view flow (passings view f) next) (hf : f ∈ members)
    (hg : T g) (hun : g ∈ members → g ∉ next.2) (hsound : Sound view (S g) flow g) :
    Sound view (S g) next.1 g := by
  refine hsound.mono h.grown fun k j hS => h.same k j fun hk => ?_
  obtain ⟨hmem, hchanged⟩ := h.mem_of_reads hcallee hf hg hk hS
  exact hun hmem hchanged

include hview hcallee in
/-- A round leaves all functions of the round sound, and those that were sound before, if
its visits change no parameter that counts for these. -/
theorem settle_spec (queue : List FunctionId) (flow : Flow)
    (hqueue : ∀ f ∈ queue, f ∈ members) (hrange : flow.InRange view.program)
    (hsound : ∀ g, T g → g ∉ queue → Sound view (S g) flow g) :
    (settle view members queue flow).InRange view.program ∧
      ∀ g, T g → Sound view (S g) (settle view members queue flow) g := by
  fun_induction settle view members queue flow with
  | case1 flow => exact ⟨hrange, fun g hg => hsound g hg List.not_mem_nil⟩
  | case2 flow f queue next hlt again ih =>
    have hf : f ∈ members := hqueue f List.mem_cons_self
    have hmerged : Merged view flow (passings view f) next := merged_visit hview hrange f
    refine ih (fun g hg => ?_) hmerged.inRange fun g hg hwait => ?_
    · rcases List.mem_append.1 hg with hg | hg
      · exact hqueue g (List.mem_cons_of_mem f hg)
      · have := (List.mem_filter.1 hg).2
        simp only [Bool.and_eq_true, List.contains_iff_mem] at this
        exact this.1
    · -- a member that changed waits to be visited again
      have hun : g ∈ members → g ∉ next.2 := by
        intro hmem hchanged
        have hqueue' : g ∉ queue := fun h => hwait (List.mem_append_left _ h)
        refine hwait (List.mem_append_right _ (List.mem_filter.2 ⟨hchanged, ?_⟩))
        simp [hmem, hqueue']
      by_cases hgf : g = f
      · subst hgf
        exact hmerged.sound_visited hcallee hf hg (hun hf)
      · refine hmerged.sound_kept hcallee hf hg hun (hsound g hg fun hmem => ?_)
        rcases List.mem_cons.1 hmem with h | h
        · exact hgf h
        · exact hwait (List.mem_append_left _ h)
  | case3 flow f queue next hlt ih =>
    have hf : f ∈ members := hqueue f List.mem_cons_self
    have hmerged : Merged view flow (passings view f) next := merged_visit hview hrange f
    have hun : ∀ k, k ∉ next.2 := fun k hk => hlt (hmerged.changed k hk).2
    refine ih (fun g hg => hqueue g (List.mem_cons_of_mem f hg)) hrange fun g hg hwait => ?_
    by_cases hgf : g = f
    · -- the visit found nothing, so what it says of the next flow holds of this one
      subst hgf
      have hsame : ∀ k, next.1.params.get? k = flow.params.get? k := fun k =>
        hmerged.same k.1 k.2 (hun k.1)
      refine (hmerged.sound_visited hcallee hf hg (hun g)).mono (fun k => ?_) fun k j _ => ?_
      · rw [passed, passed, hsame]
      · exact (hsame (k, j)).symm
    · exact hsound g hg fun hmem => (List.mem_cons.1 hmem).elim hgf hwait

end Settle

/-! ## The order of rounds -/

/-- The first function is in an earlier round than the second. -/
def Before (view : View) (g f : FunctionId) : Prop :=
  ∃ earlier members later, rounds view = earlier ++ members :: later ∧ f ∈ members ∧
    g ∈ earlier.flatten

theorem nodup_defined (p : Program) : (defined p).Nodup :=
  List.Nodup.filter _ (List.nodup_range.map fun _ _ h => congrArg FunctionId.index h)

theorem mem_defined {p : Program} :
    f ∈ defined p ↔ p.HasFunction f ∧ p.isDeclaration f = false := by
  rw [defined, List.mem_filter, Program.mem_functionIds, Bool.not_eq_true']

theorem filterMap_getElem?_range {α : Type} (l : List α) :
    (List.range l.length).filterMap (l[·]?) = l := by
  induction l with
  | nil => rfl
  | cons a l ih =>
    rw [List.length_cons, List.range_succ_eq_map, List.filterMap_cons, List.filterMap_map]
    exact congrArg (a :: ·) ih

theorem size_directCalls (view : View) (fs : List FunctionId) :
    (directCalls view fs).size = fs.length := by simp [directCalls]

theorem perm_flatten_rounds (view : View) : (rounds view).flatten.Perm (defined view.program) := by
  rw [rounds, ← List.filterMap_flatten]
  have hperm := (directCalls view (defined view.program)).perm_flatten_components
  rw [size_directCalls] at hperm
  have hreverse := (List.Perm.flatten (List.reverse_perm
    (directCalls view (defined view.program)).components)).trans hperm
  have := hreverse.filterMap ((defined view.program)[·]?)
  rwa [filterMap_getElem?_range] at this

theorem exists_edge (hview : view.Valid) {v : Nat} (hv : (defined view.program)[v]? = some f)
    {a : Passing} (ha : a ∈ passings view f) :
    ∃ w, w ∈ (directCalls view (defined view.program)).succ v ∧
      (defined view.program)[w]? = some a.callee := by
  obtain ⟨site, hsite, htarget, -⟩ := mem_passings.1 ha
  have hcallee : a.callee ∈ defined view.program := mem_defined.2 (hview.directTarget htarget)
  obtain ⟨w, hw⟩ := Option.isSome_iff_exists.1 (List.isSome_idxOf?.2 hcallee)
  obtain ⟨hlt, hget, -⟩ := List.idxOf?_eq_some_iff.1 hw
  refine ⟨w, ?_, List.getElem?_eq_some_iff.2 ⟨hlt, hget⟩⟩
  simp only [Adjacency.succ, directCalls, List.getElem?_toArray, List.getElem?_map, hv,
    Option.map_some, Option.getD_some, List.mem_filterMap]
  refine ⟨site, hsite, ?_⟩
  rw [htarget]
  exact hw

theorem not_mem_earlier (hview : view.Valid) (hrounds : rounds view = earlier ++ members :: later)
    (hf : f ∈ members) {a : Passing} (ha : a ∈ passings view f) : a.callee ∉ earlier.flatten := by
  obtain ⟨E, rest, hcomponents, rfl, hrest⟩ := List.map_eq_append_iff.1 hrounds
  obtain ⟨c, L, rfl, rfl, -⟩ := List.map_eq_cons_iff.1 hrest
  have hcomponents' : (directCalls view (defined view.program)).components =
      L.reverse ++ c :: E.reverse := by
    rw [← List.reverse_reverse (directCalls view _).components, hcomponents]
    simp
  obtain ⟨v, hv, hvf⟩ := List.mem_filterMap.1 hf
  obtain ⟨w, hw, hwcallee⟩ := exists_edge hview hvf ha
  have hsize : w < (directCalls view (defined view.program)).size := by
    rw [size_directCalls]
    exact (List.getElem?_eq_some_iff.1 hwcallee).1
  have hlate := Adjacency.mem_of_edge_components hcomponents' hv hw hsize
  intro hearly
  -- the callee has one place only, which would be in two components
  rw [← List.filterMap_flatten, List.mem_filterMap] at hearly
  obtain ⟨w', hw', hw'callee⟩ := hearly
  obtain ⟨hlt, hget⟩ := List.getElem?_eq_some_iff.1 hwcallee
  obtain ⟨hlt', hget'⟩ := List.getElem?_eq_some_iff.1 hw'callee
  obtain rfl : w' = w := (nodup_defined _).getElem_inj_iff.1 (hget'.trans hget.symm)
  have hnodup : (directCalls view (defined view.program)).components.flatten.Nodup :=
    (Adjacency.perm_flatten_components _).nodup_iff.2 List.nodup_range
  rw [hcomponents', List.append_cons, List.flatten_append] at hnodup
  refine (List.nodup_append.1 hnodup).2.2 w' hlate w' ?_ rfl
  simpa using hw'

theorem nodup_flatten_rounds (view : View) : (rounds view).flatten.Nodup :=
  (perm_flatten_rounds view).nodup_iff.2 (nodup_defined _)

theorem Before.mem_earlier (hrounds : rounds view = earlier ++ members :: later) {g : FunctionId}
    (hf : f ∈ earlier.flatten ∨ f ∈ members) (h : Before view g f) : g ∈ earlier.flatten := by
  obtain ⟨e, m, l, hsplit, hfm, hg⟩ := h
  have hnodup := nodup_flatten_rounds view
  rw [hsplit, List.flatten_append] at hnodup
  have hfe : f ∉ e.flatten := fun hfe =>
    (List.nodup_append.1 hnodup).2.2 f hfe f (List.mem_append_left _ hfm) rfl
  rcases List.append_eq_append_iff.1 (hsplit.symm.trans hrounds) with
    ⟨more, rfl, -⟩ | ⟨more, rfl, hmore⟩
  · rw [List.flatten_append]
    exact List.mem_append_left _ hg
  · cases more with
    | nil => simpa using hg
    | cons m' more =>
      -- the round of the function would come after a round that it is in
      obtain rfl : members = m' := (List.cons.inj hmore).1
      refine absurd ?_ hfe
      rw [List.flatten_append, List.flatten_cons]
      exact List.mem_append.2 (hf.imp_right fun hf => List.mem_append_left _ hf)

/-! ## The whole flow -/

def track (p : Program) (f : FunctionId) (isOpen : Bool)
    (params : OrdMap (FunctionId × Nat) ParamFlow) (param : ValueId × Nat) :
    OrdMap (FunctionId × Nat) ParamFlow :=
  if (p.functionPointee? param.1).isSome then
    params.insert (f, param.2) (if isOpen then .unknown else .known ∅)
  else params

def trackAll (p : Program) (called : List Nat) (params : OrdMap (FunctionId × Nat) ParamFlow)
    (f : FunctionId × Nat) : OrdMap (FunctionId × Nat) ParamFlow :=
  match p.function? f.1 with
  | some fn => fn.params.zipIdx.foldl (track p f.1 (isOpen called f.2 fn)) params
  | none => params

theorem params_start (p : Program) (fs : List FunctionId) (calls : Adjacency) :
    (start p fs calls).params = fs.zipIdx.foldl (trackAll p calls.toList.flatten) ∅ := rfl

/-- No function is known to be passed to a parameter. -/
def Untouched (flow : Flow) : Prop :=
  ∀ k fs, flow.params.get? k = some (.known fs) → fs = ∅

theorem untouched_track {p : Program} {params : OrdMap (FunctionId × Nat) ParamFlow}
    (h : Untouched ⟨params⟩) (f : FunctionId) (isOpen : Bool) (param : ValueId × Nat) :
    Untouched ⟨track p f isOpen params param⟩ := by
  unfold track
  split
  · intro k known hk
    rw [OrdMap.get?_insert] at hk
    split at hk
    · cases isOpen with
      | true => cases hk
      | false =>
        cases hk
        rfl
    · exact h k known hk
  · exact h

theorem untouched_start (p : Program) (fs : List FunctionId) (calls : Adjacency) :
    (start p fs calls).Untouched := by
  have hempty : Untouched ⟨∅⟩ := fun k known hk => by simp at hk
  have htrackAll : ∀ params, Untouched ⟨params⟩ → ∀ f,
      Untouched ⟨trackAll p calls.toList.flatten params f⟩ := by
    intro params h f
    unfold trackAll
    split
    · exact List.foldlRecOn (motive := fun params => Untouched ⟨params⟩) _ _ h
        fun params h param _ => untouched_track h f.1 _ param
    · exact h
  exact List.foldlRecOn (motive := fun params => Untouched ⟨params⟩) fs.zipIdx
    (trackAll p calls.toList.flatten) hempty fun params h f _ => htrackAll params h f

theorem Untouched.inRange (h : flow.Untouched) (p : Program) : flow.InRange p :=
  fun k fs hk f hf => absurd (h k fs hk ▸ hf) (OrdSet.not_mem_empty f)

/-- The functions whose parameters count for a function: itself and those of earlier rounds. -/
def Counts (view : View) (f g : FunctionId) : Prop := g = f ∨ Before view g f

theorem sound_settle (hview : view.Valid) (hrounds : rounds view = earlier ++ members :: later)
    (hrange : flow.InRange view.program)
    (hsound : ∀ g ∈ earlier.flatten, Sound view (Counts view g) flow g) :
    (settle view members members flow).InRange view.program ∧
      ∀ g, g ∈ earlier.flatten ∨ g ∈ members →
        Sound view (Counts view g) (settle view members members flow) g := by
  refine settle_spec hview (T := fun g => g ∈ earlier.flatten ∨ g ∈ members) ?_ members flow
    (fun f hf => hf) hrange ?_
  · intro f hf a ha g hg hcounts
    have hlate := not_mem_earlier hview hrounds hf ha
    rcases hcounts with rfl | hbefore
    · exact ⟨rfl, hg.resolve_left hlate⟩
    · exact absurd (hbefore.mem_earlier hrounds hg) hlate
  · intro g hg hwait
    exact hsound g (hg.resolve_right hwait)

/-- In the end the traces of all arguments are allowed, as far as they read parameters of the
caller and of functions of earlier rounds. -/
theorem sound_ofView (hview : view.Valid) (hf : f ∈ defined view.program) :
    Sound view (Counts view f) (ofView view) f := by
  have hrun : ∀ later earlier flow, rounds view = earlier ++ later →
      flow.InRange view.program → (∀ g ∈ earlier.flatten, Sound view (Counts view g) flow g) →
      ∀ g ∈ (rounds view).flatten, Sound view (Counts view g)
        (later.foldl (fun flow members => settle view members members flow) flow) g := by
    intro later
    induction later with
    | nil =>
      intro earlier flow hsplit _ hsound g hg
      rw [hsplit, List.append_nil] at hg
      exact hsound g hg
    | cons members later ih =>
      intro earlier flow hsplit hrange hsound
      obtain ⟨hrange', hsound'⟩ := sound_settle hview hsplit hrange hsound
      refine ih (earlier ++ [members]) _ (by rw [hsplit, List.append_cons]) hrange' fun g hg => ?_
      rw [List.flatten_append, List.mem_append] at hg
      exact hsound' g (hg.imp_right (by simp))
  rw [ofView]
  exact hrun (rounds view) [] _ rfl ((untouched_start _ _ _).inRange _) (fun g hg => by cases hg) f
    ((perm_flatten_rounds view).mem_iff.2 hf)

theorem inRange_ofView (hview : view.Valid) : (ofView view).InRange view.program := by
  rw [ofView]
  refine List.foldlRecOn _ _ ((untouched_start _ _ _).inRange _) fun flow hrange members _ => ?_
  exact (settle_spec hview (S := fun _ _ => False) (T := fun _ => False)
    (fun _ _ _ _ _ h => h.elim) members flow (fun _ hf => hf) hrange fun _ h => h.elim).1

/-! ## Equations -/

/-- What is known of a parameter allows what an argument can be traced to. -/
def Solved (view : View) (flow : Flow) (arg : ValueId) (known : ParamFlow) : Prop :=
  known = .unknown ∨ ∃ trace functions, view.trace? flow arg = some trace ∧
    known = .known functions ∧ ∀ f ∈ trace.functions, f ∈ functions

theorem solved_iff_traced_le {arg : ValueId} {known : ParamFlow} :
    Solved view flow arg known ↔ view.traced flow arg ≤ known := by
  cases known with
  | unknown => exact iff_of_true (.inl rfl) (ParamFlow.le_unknown _)
  | known functions =>
    cases htrace : view.trace? flow arg with
    | none =>
      rw [View.traced, htrace]
      refine iff_of_false ?_ (ParamFlow.not_unknown_le_known functions)
      rintro (h | ⟨t, _, ht, -⟩)
      · cases h
      · rw [htrace] at ht
        cases ht
    | some t =>
      rw [View.traced, htrace]
      constructor
      · rintro (h | ⟨t', fs, ht, hfs, hsub⟩)
        · cases h
        · rw [htrace] at ht
          cases ht
          cases hfs
          exact hsub
      · exact fun hsub => .inr ⟨t, functions, htrace, rfl, hsub⟩

/-- A direct call's equation holds in the end exactly if it allows what is passed to the
parameters that the argument may come from and that belong to another function which is
visited in no earlier round. -/
theorem solved_iff [Hasher] {p : Program} (hp : p.Valid) {f callee : FunctionId}
    (hf : f ∈ defined p) {site : CallSite} (hsite : site ∈ p.callSites f)
    (hcallee : (View.ofProgram p).link.directTarget? site.call.callee = some callee)
    {index : Nat} {arg : ValueId} (harg : site.call.args[index]? = some arg) {known : ParamFlow}
    (hknown : (ofView (View.ofProgram p).link).params.get? (callee, index) = some known) :
    Solved (View.ofProgram p).link (ofView (View.ofProgram p).link) arg known ↔
      ∀ u g j, (View.ofProgram p).link.ComesFrom arg u →
        (p.value? u).map Value.kind = some (.argument g j) → g ≠ f →
        ¬ Before (View.ofProgram p).link g f →
        (ofView (View.ofProgram p).link).passed (g, j) ≤ known := by
  have hview : (View.ofProgram p).link.Valid := (View.valid_ofProgram hp).link
  obtain ⟨view, hlink⟩ : ∃ view, view = (View.ofProgram p).link := ⟨_, rfl⟩
  have hprogram : view.program = p := by rw [hlink]; rfl
  rw [← hlink] at hview hcallee hknown ⊢
  rw [← hprogram] at hf hsite ⊢
  have hpassing : (⟨callee, index, arg⟩ : Passing) ∈ passings view f :=
    mem_passings.2 ⟨site, hsite, hcallee, harg⟩
  have hpassed : (ofView view).passed (callee, index) = known := by
    rw [passed, hknown]
    rfl
  rw [solved_iff_traced_le,
    View.traced_le_iff hview.program (hasValue_of_mem_passings hview hpassing)]
  constructor
  · intro hall u g j hu hkind _ _
    rw [← brings_argument hkind]
    exact hall u hu
  · intro hlate u hu
    by_cases hreads : ∀ g j, (view.program.value? u).map Value.kind = some (.argument g j) →
        Counts view f g
    · rw [← hpassed]
      exact sound_ofView hview hf _ hpassing u ⟨hu, hreads⟩
    · push Not at hreads
      obtain ⟨g, j, hkind, hcounts⟩ := hreads
      rw [brings_argument hkind]
      exact hlate u g j hu hkind (fun h => hcounts (.inl h)) fun h => hcounts (.inr h)

open Sample in
/-- `main` passes itself to `set`, which stores it in a private variable, and `use` passes
what it loads from there to `run`. No call relates `use` to `set`, and `use` is visited first. -/
def storedLate : Program :=
  let function (name : String) (t : Nat) (params body : List ValueId) (address : Nat) : Function :=
    ⟨name, ⟨t⟩, 0, .internal, params, [⟨0, body⟩], ⟨address⟩, false⟩
  Program.withUses
    { types := ⟨#[.void, .function 0 [] false, .pointer 1, .function 0 [2] false,
        .pointer 2, .pointer 3]⟩
      values := #[value 4 (.global 0), value 2 (.function 0), value 5 (.function 1),
        value 2 (.argument 1 0), value 2 (.function 2), value 5 (.function 3),
        value 2 (.argument 3 0), instr 0 0 (.call ⟨2, [1], 3, false⟩),
        instr 0 1 (.store 3 0), instr 2 2 (.load 0),
        instr 0 2 (.call ⟨5, [9], 3, false⟩)]
      functions := #[function "main" 1 [] [7] 1, function "set" 3 [3] [8] 2,
        function "use" 1 [] [9, 10] 4, function "run" 3 [6] [] 5]
      globals := #[⟨"slot", 0, 2, 0, none, .internal, false⟩]
      modules := #[⟨0, "m", [0, 1, 2, 3], [0], []⟩] }

theorem valid_storedLate : storedLate.Valid := Program.valid_withUses rfl

def lateCall : CallSite := ⟨10, 2, ⟨5, [9], 3, false⟩, none⟩

theorem use_mem_defined : 2 ∈ defined storedLate := by
  have h : defined storedLate = [0, 1, 2, 3] := by cbv
  rw [h]
  simp

theorem lateCall_mem_callSites : lateCall ∈ storedLate.callSites 2 := by
  have h : storedLate.callSites 2 = [lateCall] := by cbv
  rw [h]
  exact List.mem_cons_self

attribute [local instance] Hasher.digits

theorem directTarget?_lateCall :
    (View.ofProgram storedLate).link.directTarget? lateCall.call.callee = some 3 := by cbv

theorem known_run : (ofView (View.ofProgram storedLate).link).params.get? (3, 0) =
    some (.known ∅) := by cbv

theorem solved_iff_lateCall :
    Solved (View.ofProgram storedLate).link (ofView (View.ofProgram storedLate).link) 9
        (.known ∅) ↔
      ∀ u g j, (View.ofProgram storedLate).link.ComesFrom 9 u →
        (storedLate.value? u).map Value.kind = some (.argument g j) → g ≠ 2 →
        ¬ Before (View.ofProgram storedLate).link g 2 →
        (ofView (View.ofProgram storedLate).link).passed (g, j) ≤ .known ∅ :=
  solved_iff valid_storedLate use_mem_defined lateCall_mem_callSites directTarget?_lateCall
    (show lateCall.call.args[0]? = some 9 from rfl) known_run

/-- `run` is known to be passed nothing, and is passed `main`. -/
theorem not_solved_lateCall :
    storedLate.Valid ∧ 2 ∈ defined storedLate ∧ lateCall ∈ storedLate.callSites 2 ∧
      (View.ofProgram storedLate).link.directTarget? lateCall.call.callee = some 3 ∧
      lateCall.call.args[0]? = some 9 ∧
      (ofView (View.ofProgram storedLate).link).params.get? (3, 0) = some (.known ∅) ∧
      ¬ Solved (View.ofProgram storedLate).link (ofView (View.ofProgram storedLate).link) 9
        (.known ∅) := by
  refine ⟨valid_storedLate, use_mem_defined, lateCall_mem_callSites, directTarget?_lateCall, rfl,
    known_run, ?_⟩
  have htrace : ((View.ofProgram storedLate).link.trace?
      (ofView (View.ofProgram storedLate).link) 9).map (·.functions.toList) = some [0] := by
    cbv
  rintro (h | ⟨t, fs, ht, hfs, hsub⟩)
  · cases h
  · cases hfs
    rw [ht, Option.map_some, Option.some.injEq] at htrace
    exact absurd (hsub 0 (by rw [← OrdSet.mem_toList, htrace]; exact List.mem_cons_self))
      (OrdSet.not_mem_empty _)

end Flow

end CallTargets
