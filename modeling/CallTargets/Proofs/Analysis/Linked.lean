import CallTargets.Proofs.Analysis.Signatures
import CallTargets.Proofs.Flow.Open

/-!
# Results are linked

A declaration of which another function is the definition stands for that function, and a
run puts the definition in its place wherever it keeps functions: in what calls may
reach, in the candidates by signature, in the layers and in what is known to be passed to
parameters (`linked_analyze`). Definitions are their own definitions, so that an image under
`View.definitionOf` is linked; the flow is the one part that is not such an image, and there every
merge of an argument keeps it. What an indirect call may reach is besides a function whose
address is taken, and neither an intrinsic nor a method.
-/

namespace CallTargets

open Relation

/-- The function is no declaration that stands for another function. -/
def View.IsLinked (view : View) (f : FunctionId) : Prop := view.definitionOf f = f

theorem View.Valid.isLinked_definitionOf {view : View} (h : view.Valid) (f : FunctionId) :
    view.IsLinked (view.definitionOf f) := h.definitionOf_definitionOf f

/-! ## Parameters -/

namespace Flow

variable {view : View} {flow flow' : Flow}

/-- The functions known to be passed are linked. -/
def Linked (view : View) (flow : Flow) : Prop :=
  ∀ k fs, flow.params.get? k = some (.known fs) → ∀ f ∈ fs, view.IsLinked f

namespace Linked

theorem of_untouched (h : flow.Untouched) : flow.Linked view :=
  fun k fs hk f hf => absurd (h k fs hk ▸ hf) (OrdSet.not_mem_empty f)

theorem trace? (h : flow.Linked view) (hview : view.Valid) {v : ValueId} {t : Trace}
    (ht : view.trace? flow v = some t) {f : FunctionId} (hf : f ∈ t.functions) :
    view.IsLinked f := by
  obtain ⟨u, fs, -, hbrings, hmem⟩ := View.mem_functions_of_trace? ht hf
  rcases View.mem_of_brings hbrings hmem with ⟨g, -, -, rfl⟩ | ⟨g, j, -, hparam⟩
  · exact hview.isLinked_definitionOf g
  · exact h (g, j) fs hparam f hmem

theorem mergeInto (h : flow.Linked view) (hview : view.Valid) (a : Passing) :
    (a.mergeInto view flow).Linked view := by
  intro k fs hk f hf
  rw [get?_mergeInto] at hk
  split at hk
  · obtain ⟨old, hold, hmerge⟩ := Option.map_eq_some_iff.1 hk
    rcases ParamFlow.mem_of_merge hmerge hf with ⟨s, rfl, hs⟩ | ⟨t, ht, hmem⟩
    · exact h k s hold f hs
    · obtain ⟨trace, htrace, rfl⟩ := Option.map_eq_some_iff.1 ht
      exact h.trace? hview htrace hmem
  · exact h k fs hk f hf

theorem merges (h : flow.Linked view) (hview : view.Valid) (hmerges : Merges view flow flow') :
    flow'.Linked view := by
  induction hmerges with
  | refl => exact h
  | tail _ hstep ih =>
    obtain ⟨a, -, rfl⟩ := hstep
    exact ih.mergeInto hview a

theorem ofView (hview : view.Valid) : (ofView view).Linked view :=
  (of_untouched (untouched_start _ _ _)).merges hview (merges_ofView view)

end Linked

end Flow

/-! ## Candidates -/

/-- The function is linked, and a candidate by its name. -/
structure Store.Admits (view : View) (f : FunctionId) : Prop where
  linked : view.IsLinked f
  name : ∃ fn, view.program.function? f = some fn ∧ Text.startsWith fn.name "llvm." = false ∧
    Text.startsWith fn.name "_ZN" = false

/-- A definition has the name of the declaration that it stands for, so that it is a candidate
by its name if the declaration is. -/
theorem Program.Offers.admits [Hasher] {p : Program} (hp : p.Valid) {f : FunctionId}
    (h : p.Offers f) :
    Store.Admits (View.ofProgram p).link ((View.ofProgram p).link.definitionOf f) := by
  have hview : (View.ofProgram p).link.Valid := (View.valid_ofProgram hp).link
  obtain ⟨fn, hfn, -, hname⟩ := h.function
  have hfn : (View.ofProgram p).link.program.function? f = some fn := hfn
  have hsame := hview.name_definitionOf f
  rw [hfn, Option.map_some, Option.map_eq_some_iff] at hsame
  obtain ⟨fn', hfn', hsame⟩ := hsame
  exact ⟨hview.isLinked_definitionOf f, fn', hfn', hsame.symm ▸ hname⟩

/-! ## Runs -/

theorem Dispatch.isLinked_of_mem_targets {view : View} (hview : view.Valid) {h : Hierarchy}
    {call : Call} {f : FunctionId} (hf : f ∈ targets view h call) : view.IsLinked f := by
  unfold targets at hf
  split at hf
  · obtain ⟨g, -, rfl⟩ := List.mem_map.1 (OrdSet.mem_ofList.1 hf)
    exact hview.isLinked_definitionOf g
  · exact absurd hf (OrdSet.not_mem_empty f)

namespace Analysis

/-- The functions that a run keeps are linked in a view, and indirect calls reach only functions
whose address is taken and which are candidates by their names. -/
structure Linked (view : View) (a : Analysis) : Prop where
  callees : ∀ v f, a.store.callees.Relates v f → view.IsLinked f
  buckets : ∀ key, ∀ f ∈ a.store.withSignature key, view.IsLinked f
  layers : ∀ l, ∀ f ∈ a.gathered.facts.held l, view.IsLinked f
  params : ∀ flow, a.flow = some flow → flow.Linked view
  indirect : ∀ v ∈ a.store.indirectCalls, ∀ f, a.store.callees.Relates v f →
    f ∈ a.store.addressTaken ∧ ∃ fn, view.program.function? f = some fn ∧
      Text.startsWith fn.name "llvm." = false ∧ Text.startsWith fn.name "_ZN" = false

theorem linked_start [Hasher] (view : View) (p : Program) : (start p).Linked view where
  callees v f hf := absurd hf (OrdSet.not_mem_empty f)
  buckets key f hf := absurd hf (OrdSet.not_mem_empty f)
  layers l f hf := absurd hf (OrdSet.not_mem_empty f)
  params flow hflow := by cases hflow
  indirect v hv := absurd hv (OrdSet.not_mem_empty v)

end Analysis

namespace Strategy

section

variable [Hasher] {strategy : Strategy} {p : Program} {f : FunctionId} {site : CallSite}

theorem mem_addressTaken_of_candidate (hp : p.Valid) {v : ValueId}
    (hf : f ∈ (strategy.prepared p).candidates v) :
    f ∈ (strategy.prepared p).store.addressTaken := by
  unfold Analysis.candidates at hf
  split at hf
  · exact (((strategy.isIndex_prepared hp).bucket _ f).1 hf).1
  · exact absurd hf (OrdSet.not_mem_empty f)

theorem admits_of_mem_addressTaken (hp : p.Valid)
    (hf : f ∈ (strategy.prepared p).store.addressTaken) :
    Store.Admits (View.ofProgram p).link f := by
  obtain ⟨g, hg, rfl⟩ := ((strategy.isIndex_preparedIn hp (.refl _)).2 f).1 hf
  exact hg.admits hp

theorem isLinked_of_mem_held (hp : p.Valid) (hne : p.modules.toList ≠ []) {l : Layer TypeKey}
    (hf : f ∈ (strategy.prepared p).gathered.facts.held l) :
    (View.ofProgram p).link.IsLinked f := by
  rw [strategy.prepared_eq hp hne] at hf
  dsimp only [ready] at hf
  split at hf
  · obtain ⟨g, -, rfl⟩ := Facts.mem_held_mapFunctions.1 hf
    exact (View.valid_ofProgram hp).link.isLinked_definitionOf g
  · rename_i hlayers
    rw [gatheredOf, if_neg hlayers] at hf
    exact absurd hf (OrdSet.not_mem_empty f)

theorem linked_flow (hp : p.Valid) (hne : p.modules.toList ≠ []) {flow : Flow}
    (hflow : (strategy.prepared p).flow = some flow) : flow.Linked (View.ofProgram p).link := by
  rw [strategy.prepared_eq hp hne] at hflow
  dsimp only [ready, flow?] at hflow
  split at hflow
  · cases hflow
    exact .ofView (View.valid_ofProgram hp).link
  · cases hflow

theorem isLinked_of_mem_answer (hp : p.Valid) (hne : p.modules.toList ≠ [])
    (hf : f ∈ strategy.answer p site) : (View.ofProgram p).link.IsLinked f := by
  have hview : (View.ofProgram p).link.Valid := (View.valid_ofProgram hp).link
  have hsame : (strategy.prepared p).view = (View.ofProgram p).link := by
    rw [strategy.prepared_eq hp hne]
    rfl
  unfold answer at hf
  dsimp only at hf
  split at hf
  · rename_i callee _
    rw [List.mem_singleton.1 (OrdSet.mem_ofList.1 hf), hsame]
    exact hview.isLinked_definitionOf callee
  · split at hf
    · unfold Analysis.resolveVirtual at hf
      rw [hsame] at hf
      split at hf
      · exact Dispatch.isLinked_of_mem_targets hview hf
      · exact absurd hf (OrdSet.not_mem_empty f)
    · have hcandidate :=
        Analysis.mem_candidates_of_mem_resolveIndirect Running.prepared.recalls hf
      exact (admits_of_mem_addressTaken hp (mem_addressTaken_of_candidate hp hcandidate)).linked

/-- After a run no function stands for another one in what calls may reach, in the candidates
by signature, in the layers and in what is known of parameters. Indirect calls may reach only
functions whose address is taken, no intrinsics and no methods. -/
theorem linked_analyze (hp : p.Valid) (strategy : Strategy) :
    (strategy.analyze p).2.Linked (View.ofProgram p).link := by
  by_cases hne : p.modules.toList = []
  · have hids : p.moduleIds = [] := by simp [Program.moduleIds, hne]
    rw [analyze_eq, hids, strategy.prepared_of_nil hne]
    exact Analysis.linked_start _ p
  · have hsame := (strategy.running_analyze p).same
    have hsound := strategy.sound_analyze hp
    constructor
    · intro v f hf
      obtain ⟨fs, hfs, hf⟩ := OrdMap.exists_of_relates hf
      obtain ⟨site, -, -, rfl⟩ := hsound.callees v fs hfs
      exact isLinked_of_mem_answer hp hne hf
    · intro key f hf
      rw [Store.withSignature, hsame.candidates.buckets] at hf
      have htaken := (((strategy.isIndex_prepared hp).bucket key f).1 hf).1
      exact (admits_of_mem_addressTaken hp htaken).linked
    · rw [hsame.gathered]
      exact fun l f hf => isLinked_of_mem_held hp hne hf
    · rw [hsame.flow]
      exact fun flow hflow => linked_flow hp hne hflow
    · intro v hv f hf
      obtain ⟨site, hsite, rfl, hbase, hindirect⟩ := hsound.indirectCalls v hv
      have hanswer := hsound.mem_answer hsite hf
      unfold answer at hanswer
      rw [hbase] at hanswer
      simp only [hindirect, Bool.false_eq_true, if_false] at hanswer
      have htaken := mem_addressTaken_of_candidate hp
        (Analysis.mem_candidates_of_mem_resolveIndirect Running.prepared.recalls hanswer)
      rw [hsame.candidates.addressTaken]
      exact ⟨htaken, (admits_of_mem_addressTaken hp htaken).name⟩

end

attribute [local instance] Hasher.digits

/-- The call may reach `f`, of which the other module holds a declaration. -/
theorem linked_analyze_storedField :
    storedField.Valid ∧ (View.ofProgram storedField).link.definitionOf 1 = 0 ∧
      fieldAnswers.store.callees.Relates 8 0 ∧ 8 ∈ fieldAnswers.store.indirectCalls ∧
      0 ∈ fieldAnswers.store.addressTaken ∧
      fieldAnswers.Linked (View.ofProgram storedField).link := by
  have hcall : 8 ∈ fieldAnswers.store.indirectCalls :=
    answered_fieldCall.indirect ⟨base_fieldCall, isVirtual_fieldCall⟩
  have hcallee : fieldAnswers.store.callees.Relates 8 0 :=
    answered_fieldCall.recorded 0 (by decide)
  have hlinked := linked_analyze valid_storedField layerwise
  exact ⟨valid_storedField, by cbv, hcallee, hcall, (hlinked.indirect _ hcall _ hcallee).1, hlinked⟩

end Strategy

end CallTargets
