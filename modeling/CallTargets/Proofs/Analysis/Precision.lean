import CallTargets.Config
import CallTargets.Proofs.Analysis.Signatures
import CallTargets.Proofs.Flow.Confined
import CallTargets.Proofs.Layer.Traced

/-!
# Strategies compared

All configurations record the same calls, note them as the same and agree on direct and
virtual calls. Only indirect calls are answered differently, and each further step can but
take targets away: all answers keep to the candidates by signature (`agrees_off_indirect`),
traces and confined functions refine the answers by layers (`pointerFlow_narrows`), and so
does a larger limit (`narrows_of_limit_le`).
-/

namespace CallTargets

theorem Kind.max_of_options? {kind : Kind} {max : Nat} {options : LayerOptions}
    (h : (kind.indirect max).options? = some options) : options.max = max := by
  cases kind with
  | signature => cases h
  | multilayer | dataflowEnhanced | pointerFlow =>
    cases h
    rfl

theorem LayerOptions.limit_le_limit {o o' : LayerOptions} (h : o.max ≤ o'.max) :
    o.limit ≤ o'.limit :=
  Nat.max_le.2 ⟨Nat.le_max_left 1 _, Nat.le_trans h (Nat.le_max_right 1 _)⟩

namespace Analysis

variable {a : Analysis} {v : ValueId}

theorem targets_refine_of_trace? {view : View} {flow : Flow} {trace : Trace} {site : CallSite}
    (ha : a.Recalls) (hp : view.program.Valid) (hview : view.program = a.view.program)
    (hsite : a.view.program.callSite? v = some site)
    (htrace : view.trace? flow site.call.callee = some trace) (options : LayerOptions) :
    (a.refine options v).1.targets = a.candidates v := by
  have hcallee := hp.hasValue_callee (hview ▸ hsite)
  obtain ⟨left, root, hnext⟩ := View.nextLayers_of_traceable
    (View.traceable_of_trace? hp hcallee htrace) view.program.valueIds
  obtain ⟨-, used, huses⟩ := ha.refine options v
  have hbegins := huses.begins
  rw [layersBehind, hsite, Option.elim_some, ← hview, Program.layersBehind, hnext] at hbegins
  exact targets_refine_of_nil (List.prefix_nil.1 hbegins ▸ huses)

end Analysis

/-! ## What strategies prepare in common -/

namespace Strategy

variable [Hasher] {p : Program} {strategy other : Strategy}

theorem prepared_rec {P : Analysis → Analysis → Prop} (hp : p.Valid)
    (hstart : P (Analysis.start p) (Analysis.start p))
    (hready : P (strategy.ready p) (other.ready p)) :
    P (strategy.prepared p) (other.prepared p) := by
  by_cases hne : p.modules.toList = []
  · rw [strategy.prepared_of_nil hne, other.prepared_of_nil hne]
    exact hstart
  · rw [strategy.prepared_eq hp hne, other.prepared_eq hp hne]
    exact hready

theorem sameCandidates_ready (strategy : Strategy) (p : Program) :
    Store.SameCandidates
      ((storeOf (View.ofProgram p).link p.modules.toList).linkCandidates (View.ofProgram p).link)
      (strategy.ready p).store := by
  unfold ready
  dsimp only
  split
  · exact ⟨rfl, rfl⟩
  · exact ⟨rfl, rfl⟩

theorem candidates_prepared (hp : p.Valid) (strategy other : Strategy) (v : ValueId) :
    (other.prepared p).candidates v = (strategy.prepared p).candidates v := by
  refine prepared_rec (P := fun a b => b.candidates v = a.candidates v) hp rfl ?_
  unfold Analysis.candidates Store.withSignature
  rw [(other.sameCandidates_ready p).buckets, (strategy.sameCandidates_ready p).buckets]
  rfl

theorem resolveVirtual_prepared (hp : p.Valid) (strategy other : Strategy)
    (hclasses : other.classes = strategy.classes) (v : ValueId) :
    (other.prepared p).resolveVirtual other v =
      (strategy.prepared p).resolveVirtual strategy v := by
  have hhierarchy : (other.prepared p).hierarchy = (strategy.prepared p).hierarchy := by
    refine prepared_rec (P := fun a b => b.hierarchy = a.hierarchy) hp rfl ?_
    simp only [ready, hierarchyOf, hclasses]
  have hview : (other.prepared p).view = (strategy.prepared p).view :=
    prepared_rec (P := fun a b => b.view = a.view) hp rfl rfl
  unfold Analysis.resolveVirtual
  rw [hview, hhierarchy, hclasses]

theorem sameLayers_prepared (hp : p.Valid)
    (hoptions : other.indirect.options?.map LayerOptions.dataflow =
      strategy.indirect.options?.map LayerOptions.dataflow) :
    Analysis.SameLayers (strategy.prepared p) (other.prepared p) := by
  have hsome : other.indirect.options?.isSome = strategy.indirect.options?.isSome := by
    have := congrArg Option.isSome hoptions
    rwa [Option.isSome_map, Option.isSome_map] at this
  have hany : other.indirect.options?.any LayerOptions.dataflow =
      strategy.indirect.options?.any LayerOptions.dataflow := by
    have := congrArg (Option.any id) hoptions
    rwa [Option.any_map, Option.any_map] at this
  refine prepared_rec (P := Analysis.SameLayers) hp ⟨rfl, rfl, .refl _⟩ ⟨rfl, ?_, ?_⟩
  · simp only [ready, gatheredOf, flow?, hsome, hany]
  · have hcandidates := strategy.sameCandidates_ready p
    have hcandidates' := other.sameCandidates_ready p
    exact ⟨hcandidates'.addressTaken.trans hcandidates.addressTaken.symm,
      hcandidates'.buckets.trans hcandidates.buckets.symm⟩

theorem prepared_kind (hp : p.Valid) (kind : Kind) (max max' : Nat) :
    (Strategy.mk (kind.indirect max') true).prepared p =
      (Strategy.mk (kind.indirect max) true).prepared p := by
  refine prepared_rec (P := fun a b => b = a) hp rfl ?_
  cases kind <;> rfl

end Strategy

/-! ## Answers to indirect calls -/

namespace Analysis

variable {a b : Analysis} {v : ValueId} {f : FunctionId}

theorem mem_resolveIndirect_of_le (ha : a.Recalls) (kind : Kind) {max max' : Nat}
    (hle : max ≤ max') (hf : f ∈ (a.resolveIndirect (kind.indirect max') v).1) :
    f ∈ (a.resolveIndirect (kind.indirect max) v).1 := by
  have hrefine (dataflow : Bool) : ∀ f ∈ (a.refine ⟨max', dataflow⟩ v).1.targets,
      f ∈ (a.refine ⟨max, dataflow⟩ v).1.targets :=
    ((SameFacts.refl a).sameLayers.refine_of_le ha ha (LayerOptions.limit_le_limit hle) v).2
  cases kind with
  | signature => exact hf
  | multilayer => exact hrefine false f hf
  | dataflowEnhanced => exact hrefine true f hf
  | pointerFlow =>
    simp only [Kind.indirect, resolveIndirect] at hf ⊢
    split at hf
    · rename_i hempty
      rw [if_pos hempty]
      rw [(SameFacts.refine _ a v).confined] at hf ⊢
      obtain ⟨htarget, hconfined⟩ := OrdSet.mem_filter.1 hf
      exact OrdSet.mem_filter.2 ⟨hrefine true f htarget, hconfined⟩
    · rename_i hempty
      rwa [if_neg hempty]

/-- Calls that are traced, or answered without confined functions, have no other targets than
their layers leave. -/
theorem mem_layers_of_mem_pointerFlow (h : SameLayers a b) (hp : b.view.program.Valid)
    (ha : a.Recalls) (hb : b.Recalls) {options : LayerOptions}
    (hf : f ∈ (a.resolveIndirect (.pointerFlow options) v).1) :
    f ∈ (b.resolveIndirect (.layers options) v).1 := by
  simp only [resolveIndirect] at hf ⊢
  split at hf
  · exact (h.symm.refine_of_le hb ha (Nat.le_refl _) v).2 f (OrdSet.mem_filter.1 hf).1
  · cases hsite : a.view.program.callSite? v with
    | none =>
      have hcandidate := mem_candidates_of_mem_traced hf
      rw [Analysis.candidates, hsite] at hcandidate
      exact absurd hcandidate (OrdSet.not_mem_empty f)
    | some site =>
      obtain ⟨hcandidate, trace, htrace, -⟩ := (mem_traced_iff hsite).1 hf
      rw [← h.view] at hsite htrace
      rw [targets_refine_of_trace? hb hp rfl hsite htrace options, h.candidates_eq]
      exact hcandidate

end Analysis

/-! ## Results compared -/

/-- Both results have the same calls, and the first ones have no other targets. -/
structure Store.Narrows (s t : Store) : Prop where
  known : ∀ v, (s.callees.get? v).isSome ↔ (t.callees.get? v).isSome
  targets : ∀ v f, s.callees.Relates v f → t.callees.Relates v f

namespace Strategy

variable [Hasher] {p : Program} {strategy other : Strategy}

theorem mem_answer_of_resolveIndirect (hp : p.Valid)
    (hclasses : other.classes = strategy.classes) {f : FunctionId} (hf : p.Lists f)
    {site : CallSite}
    (hindirect : ∀ g ∈ ((other.prepared p).resolveIndirect other.indirect site.id).1,
      g ∈ ((strategy.prepared p).resolveIndirect strategy.indirect site.id).1)
    {g : FunctionId} (hg : g ∈ other.answer p site) : g ∈ strategy.answer p site := by
  obtain ⟨m, hm, -⟩ := hf
  cases hbase : p.baseFunction? site.call.callee with
  | some callee =>
    have hne := List.ne_nil_of_mem hm
    rwa [strategy.answer_of_base hp hne site callee hbase,
      ← other.answer_of_base hp hne site callee hbase]
  | none =>
    simp only [answer, hbase] at hg ⊢
    split at hg
    · rename_i hvirtual
      rwa [if_pos hvirtual, ← resolveVirtual_prepared hp strategy other hclasses]
    · rename_i hvirtual
      rw [if_neg hvirtual]
      exact hindirect g hg

theorem narrows_of_resolveIndirect (hp : p.Valid) (hclasses : other.classes = strategy.classes)
    (hindirect : ∀ v, ∀ g ∈ ((other.prepared p).resolveIndirect other.indirect v).1,
      g ∈ ((strategy.prepared p).resolveIndirect strategy.indirect v).1) :
    (other.analyze p).2.store.Narrows (strategy.analyze p).2.store := by
  have hknown : ∀ (strategy : Strategy) v, ((strategy.analyze p).2.store.callees.get? v).isSome ↔
      ∃ site ∈ p.calls, site.id = v := by
    intro strategy v
    rw [Option.isSome_iff_exists]
    constructor
    · rintro ⟨fs, hfs⟩
      obtain ⟨site, hsite, hid, -⟩ := (strategy.get?_callees_analyze_iff hp).1 hfs
      exact ⟨site, hsite, hid⟩
    · rintro ⟨site, hsite, hid⟩
      exact ⟨_, (strategy.get?_callees_analyze_iff hp).2 ⟨site, hsite, hid, rfl⟩⟩
  refine ⟨fun v => (hknown other v).trans (hknown strategy v).symm, fun v g hg => ?_⟩
  obtain ⟨fs, hfs, hmem⟩ := OrdMap.exists_of_relates hg
  obtain ⟨site, hsite, rfl, rfl⟩ := (other.get?_callees_analyze_iff hp).1 hfs
  have hentry := (strategy.get?_callees_analyze_iff hp).2 ⟨site, hsite, rfl, rfl⟩
  obtain ⟨f, hf, -⟩ := Program.mem_calls.1 hsite
  rw [OrdMap.Relates, hentry]
  exact mem_answer_of_resolveIndirect hp hclasses hf (hindirect site.id) hmem

end Strategy

/-! ## Configurations compared -/

namespace Config

open Strategy (storedField valid_storedField fieldRun candidates_fieldRun targets_fieldRun
  outOfSight valid_outOfSight plainCall signalFlow)

variable {p : Program}

def results [Hasher] (c : Config) (p : Program) : Store := (c.strategy.analyze p).2.store

theorem get?_results [Hasher] (hp : p.Valid) (c : Config) {f : FunctionId} {site : CallSite}
    (hf : p.Lists f) (hsite : site ∈ p.callSites f) :
    (c.results p).callees.get? site.id = some (c.strategy.answer p site) :=
  (c.strategy.get?_callees_analyze_iff hp).2
    ⟨site, Program.mem_calls.2 ⟨f, hf, hsite⟩, rfl, rfl⟩

theorem narrows_of_signature [Hasher] (hp : p.Valid) (c : Config) {coarse : Config}
    (hkind : coarse.kind = .signature) : (c.results p).Narrows (coarse.results p) := by
  refine Strategy.narrows_of_resolveIndirect hp rfl fun v g hg => ?_
  have hcandidate :=
    Analysis.mem_candidates_of_mem_resolveIndirect Strategy.Running.prepared.recalls hg
  rw [Strategy.candidates_prepared hp coarse.strategy c.strategy] at hcandidate
  rw [show coarse.strategy.indirect = .signature by rw [strategy, hkind]; rfl]
  exact hcandidate

/-- All configurations agree on what calls are, on direct calls and on virtual ones, and no
indirect call has other targets than by its signature alone. -/
theorem agrees_off_indirect [Hasher] (hp : p.Valid) (c c' : Config) {f : FunctionId}
    {site : CallSite}
    (hf : p.Lists f) (hsite : site ∈ p.callSites f) :
    (c.results p).Classifies site.id (p.sortOf site) ∧
      (c'.results p).Classifies site.id (p.sortOf site) ∧
      match p.sortOf site with
      | .direct => ∃ callee, p.baseFunction? site.call.callee = some callee ∧
          (c.results p).callees.get? site.id =
            some (.ofList [(View.ofProgram p).link.definitionOf callee]) ∧
          (c'.results p).callees.get? site.id = (c.results p).callees.get? site.id
      | .virtual => (c'.results p).callees.get? site.id = (c.results p).callees.get? site.id
      | .indirect => ∀ coarse : Config, coarse.kind = .signature → ∀ g,
          (c.results p).callees.Relates site.id g →
            (coarse.results p).callees.Relates site.id g := by
  have hentry (c : Config) := c.get?_results hp hf hsite
  have hcall := Program.mem_calls.2 ⟨f, hf, hsite⟩
  refine ⟨c.strategy.classifies_analyze hp hcall, c'.strategy.classifies_analyze hp hcall, ?_⟩
  split
  · rename_i hsort
    obtain ⟨callee, hbase⟩ := Program.sortOf_eq_direct_iff.1 hsort
    obtain ⟨m, hm, -⟩ := hf
    have hanswer (c : Config) :=
      c.strategy.answer_of_base hp (List.ne_nil_of_mem hm) site callee hbase
    rw [hentry, hentry, hanswer, hanswer]
    exact ⟨callee, hbase, rfl, rfl⟩
  · rename_i hsort
    obtain ⟨hbase, hvirtual⟩ := Program.sortOf_eq_virtual_iff.1 hsort
    have hsame := Strategy.resolveVirtual_prepared hp c.strategy c'.strategy rfl site.id
    rw [hentry, hentry]
    simp only [Strategy.answer, hbase, if_pos hvirtual, hsame]
  · exact fun coarse hkind g hg => (c.narrows_of_signature hp hkind).targets site.id g hg

open Sample in
/-- `main` calls a method of the object that it is given, then `run`, and then the method again,
after a conversion that hides where it comes from. -/
def dispatched : Program :=
  Program.withUses
    { types := ⟨#[.void, .pointer 0, .function 0 [1] false, .pointer 2, .pointer 3,
        .pointer 4, .function 0 [5] false, .pointer 6]⟩
      values := #[value 3 (.function 0), value 1 (.argument 0 0), value 7 (.function 1),
        value 5 (.argument 1 0), { instr 4 1 (.load 3) with name := some "vtable" },
        instr 4 1 (.gep ⟨3, 4, [.const 0]⟩), instr 3 1 (.load 5), instr 1 1 (.cast .bitCast 3),
        instr 0 1 (.call ⟨6, [7], 2, false⟩), instr 0 1 (.call ⟨0, [7], 2, false⟩),
        instr 3 1 (.cast .bitCast 6), instr 0 1 (.call ⟨10, [7], 2, false⟩)]
      functions := #[⟨"run", 2, 0, .external, [1], [⟨0, []⟩], 0, false⟩,
        ⟨"main", 6, 0, .external, [3],
          [⟨0, [4, 5, 6, 7, 8, 9, 10, 11]⟩], 2, false⟩]
      globals := #[]
      modules := #[⟨0, "m", [0, 1], [], []⟩] }

def dispatchedCall (c callee : Nat) : CallSite :=
  ⟨⟨c⟩, 1, ⟨⟨callee⟩, [7], 2, false⟩, none⟩

theorem callSites_dispatched : dispatched.callSites 1 =
    [dispatchedCall 8 6, dispatchedCall 9 0, dispatchedCall 11 10] := by cbv

attribute [local instance] Hasher.digits

/-- The first two calls are answered alike, and the third one is narrowed, if anything. -/
theorem agrees_off_indirect_dispatched :
    dispatched.Valid ∧ dispatched.Lists 1 ∧
      (((mk .pointerFlow 3 true).results dispatched).Classifies 8 .virtual ∧
        ((mk .signature 10 false).results dispatched).Classifies 8 .virtual ∧
        ((mk .signature 10 false).results dispatched).callees.get? 8 =
          ((mk .pointerFlow 3 true).results dispatched).callees.get? 8) ∧
      (((mk .pointerFlow 3 true).results dispatched).Classifies 9 .direct ∧
        ((mk .pointerFlow 3 true).results dispatched).callees.get? 9 = some (.ofList [0])) ∧
      ((mk .pointerFlow 3 true).results dispatched).Classifies 11 .indirect ∧
      ∀ g, ((mk .pointerFlow 3 true).results dispatched).callees.Relates 11 g →
        ((mk .signature 10 false).results dispatched).callees.Relates 11 g := by
  have hvalid : dispatched.Valid := Program.valid_withUses rfl
  have hlisted : dispatched.Lists 1 :=
    ⟨⟨0, "m", [0, 1], [], []⟩, List.mem_cons_self, by decide⟩
  have hsites : ∀ site ∈ [dispatchedCall 8 6, dispatchedCall 9 0, dispatchedCall 11 10],
      site ∈ dispatched.callSites 1 := fun site hsite => callSites_dispatched ▸ hsite
  have hagrees := fun site hsite => agrees_off_indirect hvalid (mk .pointerFlow 3 true)
    (mk .signature 10 false) hlisted (hsites site hsite)
  have hvirtual := hagrees (dispatchedCall 8 6) (by decide)
  have hdirect := hagrees (dispatchedCall 9 0) (by decide)
  have hindirect := hagrees (dispatchedCall 11 10) (by decide)
  rw [show dispatched.sortOf (dispatchedCall 8 6) = .virtual by decide] at hvirtual
  rw [show dispatched.sortOf (dispatchedCall 9 0) = .direct by decide] at hdirect
  rw [show dispatched.sortOf (dispatchedCall 11 10) = .indirect by decide] at hindirect
  refine ⟨hvalid, hlisted, hvirtual, ⟨hdirect.1, ?_⟩, hindirect.1, hindirect.2.2 _ rfl⟩
  obtain ⟨callee, hbase, hentry, -⟩ := hdirect.2.2
  cases (show dispatched.baseFunction? 0 = some 0 by decide).symm.trans hbase
  rw [show (View.ofProgram dispatched).link.definitionOf 0 = 0 by cbv] at hentry
  exact hentry

/-- Traces refine the answers by layers. A pointer that can be traced has no layers, and by
layers it may point to all candidates. -/
theorem pointerFlow_narrows [Hasher] (hp : p.Valid) (c c' : Config) (hkind : c.kind = .pointerFlow)
    (hkind' : c'.kind = .dataflowEnhanced) (hmax : c.maxTypeLayer = c'.maxTypeLayer) :
    (c.results p).Narrows (c'.results p) ∧
      ∀ (view : View) (flow : Flow) (v : ValueId) (site : CallSite) (trace : Trace),
        view.program = p → p.callSite? v = some site →
        view.trace? flow site.call.callee = some trace →
        (∃ left root, p.nextLayers p.valueIds site.call.callee = (left, .exhausted root)) ∧
        ∀ a, c'.strategy.Running p a →
          (a.resolveIndirect c'.strategy.indirect v).1 = a.candidates v := by
  have hindirect : c.strategy.indirect = .pointerFlow ⟨c'.maxTypeLayer, true⟩ := by
    rw [strategy, hkind, hmax]
    rfl
  have hindirect' : c'.strategy.indirect = .layers ⟨c'.maxTypeLayer, true⟩ := by
    rw [strategy, hkind']
    rfl
  constructor
  · refine Strategy.narrows_of_resolveIndirect hp rfl fun v g hg => ?_
    have hsame : Analysis.SameLayers (c.strategy.prepared p) (c'.strategy.prepared p) :=
      Strategy.sameLayers_prepared hp (by rw [hindirect, hindirect']; rfl)
    have hprogram : (c'.strategy.prepared p).view.program.Valid := by
      rw [Strategy.Running.prepared.program]
      exact hp
    rw [hindirect] at hg
    rw [hindirect']
    exact Analysis.mem_layers_of_mem_pointerFlow hsame hprogram
      Strategy.Running.prepared.recalls Strategy.Running.prepared.recalls hg
  · rintro view flow v site trace rfl hsite htrace
    refine ⟨?_, fun a ha => ?_⟩
    · exact View.nextLayers_of_traceable
        (View.traceable_of_trace? hp (hp.hasValue_callee hsite) htrace) _
    · rw [hindirect']
      exact Analysis.targets_refine_of_trace? ha.recalls hp ha.program.symm
        (ha.program.symm ▸ hsite) htrace _

/-- The call of what is loaded from a slot can be traced. -/
theorem pointerFlow_narrows_outOfSight :
    outOfSight.Valid ∧ outOfSight.callSite? 25 = some (plainCall 25 4 24) ∧
      ((mk .pointerFlow 10 false).results outOfSight).Narrows
        ((mk .dataflowEnhanced 10 false).results outOfSight) ∧
      ∃ trace, (View.ofProgram outOfSight).link.trace? signalFlow 24 = some trace ∧
        (∃ left root, outOfSight.nextLayers outOfSight.valueIds 24 = (left, .exhausted root)) ∧
        (((mk .dataflowEnhanced 10 false).strategy.prepared outOfSight).resolveIndirect
          (.layers ⟨10, true⟩) 25).1 =
            ((mk .dataflowEnhanced 10 false).strategy.prepared outOfSight).candidates 25 := by
  have hsite : outOfSight.callSite? 25 = some (plainCall 25 4 24) := rfl
  have hfunctions : ((View.ofProgram outOfSight).link.trace? signalFlow 24).map
      (·.functions.toList) = some [0] := by cbv
  obtain ⟨trace, htrace, -⟩ := Option.map_eq_some_iff.1 hfunctions
  obtain ⟨hnarrows, htraced⟩ := pointerFlow_narrows valid_outOfSight
    (mk .pointerFlow 10 false) (mk .dataflowEnhanced 10 false) rfl rfl rfl
  obtain ⟨hexhausted, hanswer⟩ := htraced _ signalFlow 25 _ trace rfl hsite htrace
  exact ⟨valid_outOfSight, hsite, hnarrows, trace, htrace, hexhausted, hanswer _ .prepared⟩

/-- A larger limit takes targets away, if anything, and begins with the same steps. -/
theorem narrows_of_limit_le [Hasher] (hp : p.Valid) (c c' : Config) (hkind : c.kind = c'.kind)
    (hle : c.maxTypeLayer ≤ c'.maxTypeLayer) :
    (c'.results p).Narrows (c.results p) ∧
      ∀ options options', c.strategy.indirect.options? = some options →
        c'.strategy.indirect.options? = some options' →
        ∀ a a', c.strategy.Running p a → c'.strategy.Running p a' →
          ∀ v, (a.refine options v).1.steps <+: (a'.refine options' v).1.steps := by
  have hprepared : c'.strategy.prepared p = c.strategy.prepared p := by
    rw [strategy, strategy, hkind]
    exact Strategy.prepared_kind hp c'.kind c.maxTypeLayer c'.maxTypeLayer
  constructor
  · refine Strategy.narrows_of_resolveIndirect hp rfl fun v g hg => ?_
    rw [hprepared] at hg
    rw [show c.strategy.indirect = c'.kind.indirect c.maxTypeLayer by rw [strategy, hkind]]
    exact Analysis.mem_resolveIndirect_of_le Strategy.Running.prepared.recalls c'.kind hle hg
  · intro options options' hoptions hoptions' a a' ha ha' v
    have hsame : Analysis.SameLayers a a' := by
      have hsame' := ha'.same.sameLayers
      rw [hprepared] at hsame'
      exact ha.same.sameLayers.symm.trans hsame'
    have hlimit : options.limit ≤ options'.limit := by
      refine LayerOptions.limit_le_limit ?_
      rw [Kind.max_of_options? hoptions, Kind.max_of_options? hoptions']
      exact hle
    exact (hsame.refine_of_le ha.recalls ha'.recalls hlimit v).1

/-- With one layer there are no steps, and with ten a step takes `h` away. -/
theorem narrows_of_limit_le_storedField :
    storedField.Valid ∧
      ((mk .multilayer 10 false).results storedField).Narrows
        ((mk .multilayer 1 false).results storedField) ∧
      (fieldRun.refine ⟨1, false⟩ 8).1.steps <+:
        (fieldRun.refine ⟨10, false⟩ 8).1.steps ∧
      2 ∈ (fieldRun.refine ⟨1, false⟩ 8).1.targets ∧
      2 ∉ (fieldRun.refine ⟨10, false⟩ 8).1.targets := by
  obtain ⟨hnarrows, hsteps⟩ := narrows_of_limit_le valid_storedField (mk .multilayer 1 false)
    (mk .multilayer 10 false) rfl (by decide)
  have hrunning : (mk .multilayer 1 false).strategy.Running storedField fieldRun := by
    rw [show fieldRun = (mk .multilayer 1 false).strategy.prepared storedField from
      Strategy.prepared_kind valid_storedField .multilayer 1 10]
    exact .prepared
  have hone : (fieldRun.refine ⟨1, false⟩ 8).1.targets = fieldRun.candidates 8 := by
    obtain ⟨-, used, huses⟩ := hrunning.recalls.refine ⟨1, false⟩ 8
    have hused : used = [] := huses.usable.elim id fun husable =>
      List.length_eq_zero_iff.1 (Nat.le_zero.1 husable.limit)
    exact Analysis.targets_refine_of_nil (hused ▸ huses)
  refine ⟨valid_storedField, hnarrows, hsteps _ _ rfl rfl fieldRun fieldRun hrunning .prepared 8,
    ?_, ?_⟩
  · rw [hone, candidates_fieldRun]
    decide
  · rw [show (LayerOptions.mk 10 false) = {} from rfl, targets_fieldRun]
    decide

end Config

end CallTargets
