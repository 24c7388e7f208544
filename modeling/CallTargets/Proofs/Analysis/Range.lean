import CallTargets.Proofs.Class.Range
import CallTargets.Proofs.Layer.Range
import CallTargets.Proofs.Layer.Refine

/-!
# Runs in range

On a valid program, all functions and calls that a run has come across exist: those in its
results, those confined to layers, those known to be passed and those in the tables of classes
(`Analysis.InRange`). Preparing modules and answering calls keep to that.
-/

namespace CallTargets

/-! ## Results -/

namespace Store

/-- The candidates for indirect calls exist. -/
structure InRange (p : Program) (s : Store) : Prop where
  addressTaken : ∀ f ∈ s.addressTaken, p.HasFunction f
  buckets : s.buckets.All fun _ fs => ∀ f ∈ fs, p.HasFunction f

namespace InRange

section Changes

variable {p : Program} {s t : Store} (h : s.InRange p) {f : FunctionId}

theorem empty : ({} : Store).InRange p := ⟨fun f hf => absurd hf (OrdSet.not_mem_empty f), .empty⟩

include h

theorem same (hsame : SameCandidates s t) : t.InRange p :=
  ⟨hsame.addressTaken ▸ h.addressTaken, hsame.buckets ▸ h.buckets⟩

theorem withSignature (key : SignatureKey) : ∀ f ∈ s.withSignature key, p.HasFunction f := by
  intro f hf
  obtain ⟨fs, hbucket, hf⟩ := OrdMap.exists_of_relates hf
  exact h.buckets.of_get? hbucket f hf

theorem addCandidate (hf : p.HasFunction f) (key : SignatureKey) :
    (s.addCandidate key f).InRange p := by
  refine ⟨fun g hg => ?_, OrdMap.All.add h.buckets hf⟩
  rcases OrdSet.mem_insert.1 hg with hg | rfl
  · exact h.addressTaken g hg
  · exact hf

end Changes

section Modules

variable {view : View} (hview : view.Valid) {s : Store} (h : s.InRange view.program) {m : Module}
include hview h

theorem addModule (hm : m ∈ view.program.modules.toList) :
    ((s.addModule view m).addCandidates view m).InRange view.program := by
  rw [Store.addCandidates]
  refine List.foldlRecOn _ _ (h.same (.addModule view s m)) fun _ hs f hf => ?_
  exact hs.addCandidate
    (hview.program.hasFunction_of_mem_module hm (List.mem_of_mem_filter hf)) _

theorem linkCandidates : (s.linkCandidates view).InRange view.program := by
  have himage : ∀ {fs : OrdSet FunctionId}, (∀ f ∈ fs, view.program.HasFunction f) →
      ∀ f ∈ fs.image view.definitionOf, view.program.HasFunction f := by
    intro fs hfs f hf
    obtain ⟨g, hg, rfl⟩ := OrdSet.mem_image.1 hf
    exact hview.hasFunction_definitionOf (hfs g hg)
  exact ⟨himage h.addressTaken, h.buckets.mapValues fun _ _ => himage⟩

end Modules

end InRange

end Store

/-! ## Runs -/

namespace Analysis

theorem view_prepareOptions (strategy : Strategy) (a : Analysis) (m : Module) :
    (a.prepareOptions strategy m).view = a.view := by
  unfold prepareOptions
  split <;> rfl

theorem view_prepareConfined (a : Analysis) : a.prepareConfined.view = a.view := by
  unfold prepareConfined
  split <;> rfl

section Answers

variable {a : Analysis} {v : ValueId} {f : FunctionId}

theorem mem_candidates_of_mem_traced (hf : f ∈ a.traced v) : f ∈ a.candidates v := by
  unfold traced at hf
  split at hf
  · split at hf
    · exact of_decide_eq_true (OrdSet.mem_filter.1 hf).2
    · exact absurd hf (OrdSet.not_mem_empty f)
  · exact absurd hf (OrdSet.not_mem_empty f)

theorem mem_candidates_of_mem_resolveIndirect {indirect : Indirect} (h : a.Recalls)
    (hf : f ∈ (a.resolveIndirect indirect v).1) : f ∈ a.candidates v := by
  cases indirect with
  | signature => exact hf
  | layers options => exact mem_candidates_of_mem_refine h hf
  | pointerFlow options =>
    simp only [resolveIndirect] at hf
    split at hf
    · exact mem_candidates_of_mem_refine h (OrdSet.mem_filter.1 hf).1
    · exact mem_candidates_of_mem_traced hf

end Answers

/-- All that a run has come across exists. -/
structure InRange (a : Analysis) : Prop where
  view : a.view.Valid
  store : a.store.InRange a.view.program
  gathered : a.gathered.InRange a.view.program
  flow : ∀ flow, a.flow = some flow → flow.InRange a.view.program
  hierarchy : a.hierarchy.InRange a.view.program

theorem inRange_start [Hasher] {p : Program} (hp : p.Valid) : (start p).InRange where
  view := View.valid_ofProgram hp
  store := .empty
  gathered := ⟨.empty p, .empty⟩
  flow := fun _ h => by cases h
  hierarchy := .empty

namespace InRange

variable {a : Analysis} (h : a.InRange)
include h

theorem same {b : Analysis} (hsame : SameFacts a b) : b.InRange := by
  constructor
  · exact hsame.view ▸ h.view
  · exact hsame.view ▸ h.store.same hsame.candidates
  · exact hsame.view ▸ hsame.gathered ▸ h.gathered
  · exact hsame.view ▸ hsame.flow ▸ h.flow
  · exact hsame.view ▸ hsame.hierarchy ▸ h.hierarchy

/-! ### Preparing -/

section Prepare

variable {m : Module} (hm : m ∈ a.view.program.modules.toList)

include hm in
theorem prepareStore : (a.prepareStore m).InRange := by
  have hstore := h.store.addModule h.view hm
  refine ⟨h.view, ?_, h.gathered, h.flow, h.hierarchy⟩
  unfold Analysis.prepareStore
  dsimp only
  split
  · exact hstore.linkCandidates h.view
  · exact hstore

theorem neededFlow (options : LayerOptions) :
    ∀ flow, (if options.dataflow && a.flow.isNone then some (Flow.ofView a.view) else a.flow) =
      some flow → flow.InRange a.view.program := by
  intro flow hflow
  split at hflow
  · cases hflow
    exact Flow.inRange_ofView h.view
  · exact h.flow flow hflow

theorem prepareLayers (options : LayerOptions) (m : Module) :
    (a.prepareLayers options m).InRange := by
  have hflow := h.neededFlow options
  have hgathered := h.gathered.module h.view hflow m
  refine ⟨h.view, h.store, ?_, hflow, h.hierarchy⟩
  unfold Analysis.prepareLayers
  dsimp only
  split
  · exact hgathered.linked h.view
  · exact hgathered

theorem prepareConfined : a.prepareConfined.InRange := by
  unfold Analysis.prepareConfined
  split
  · exact ⟨h.view, ⟨h.store.addressTaken, h.store.buckets⟩, h.gathered, h.flow, h.hierarchy⟩
  · exact h

theorem prepareClasses (m : Module) : (a.prepareClasses m).InRange :=
  ⟨h.view, h.store, h.gathered, h.flow,
    h.hierarchy.steps (Hierarchy.steps_module _ h.view.program m)⟩

theorem prepareOptions (strategy : Strategy) (m : Module) :
    (a.prepareOptions strategy m).InRange := by
  unfold Analysis.prepareOptions
  split
  · exact h.prepareLayers _ m
  · exact h

include hm in
theorem prepareModule (strategy : Strategy) : (a.prepareModule strategy m).InRange := by
  have hoptions := (h.prepareStore hm).prepareOptions strategy m
  rw [Analysis.prepareModule]
  generalize (a.prepareStore m).prepareOptions strategy m = b at hoptions
  have hconfined : (if strategy.indirect.traces then b.prepareConfined else b).InRange := by
    split
    · exact hoptions.prepareConfined
    · exact hoptions
  generalize (if strategy.indirect.traces then b.prepareConfined else b) = c at hconfined
  have hclasses : (if strategy.classes then c.prepareClasses m else c).InRange := by
    split
    · exact hconfined.prepareClasses m
    · exact hconfined
  exact ⟨hclasses.view, hclasses.store, hclasses.gathered, hclasses.flow, hclasses.hierarchy⟩

end Prepare

theorem linked : a.linked.InRange := by
  unfold Analysis.linked
  split
  · exact ⟨h.view.link, h.store, h.gathered, h.flow, h.hierarchy⟩
  · exact h

theorem prepare (strategy : Strategy) (m : ModuleId) : (a.prepare strategy m).InRange := by
  unfold Analysis.prepare
  split
  · rename_i module hmodule
    have hm := Array.mem_toList_iff.2 (Array.mem_of_getElem? hmodule)
    split
    · exact h.linked.prepareModule hm strategy
    · exact h.linked
  · exact h.linked

/-! ### Answering -/

section Answer

variable (v : ValueId)

theorem candidates : ∀ f ∈ a.candidates v, a.view.program.HasFunction f := by
  intro f hf
  unfold Analysis.candidates at hf
  split at hf
  · exact h.store.withSignature _ f hf
  · exact absurd hf (OrdSet.not_mem_empty f)

theorem resolveIndirect (hrecalls : a.Recalls) (indirect : Indirect) :
    ∀ f ∈ (a.resolveIndirect indirect v).1, a.view.program.HasFunction f := fun f hf =>
  h.candidates v f (mem_candidates_of_mem_resolveIndirect hrecalls hf)

theorem resolveVirtual (strategy : Strategy) :
    ∀ f ∈ a.resolveVirtual strategy v, a.view.program.HasFunction f := by
  intro f hf
  unfold Analysis.resolveVirtual at hf
  split at hf
  · exact Dispatch.hasFunction_of_mem_targets h.view h.hierarchy hf
  · exact absurd hf (OrdSet.not_mem_empty f)

end Answer

end InRange

/-- A run about a program, of which all that it has come across exists. -/
structure On (p : Program) (a : Analysis) : Prop where
  program : a.view.program = p
  inRange : a.InRange

namespace On

variable {p : Program} {a : Analysis} (h : a.On p) (strategy : Strategy)
include h

theorem valid : p.Valid := h.program ▸ h.inRange.view.program

theorem same {b : Analysis} (hsame : SameFacts a b) : b.On p :=
  ⟨(congrArg View.program hsame.view).trans h.program, h.inRange.same hsame⟩

theorem prepare (m : ModuleId) : (a.prepare strategy m).On p :=
  ⟨(program_prepare strategy a m).trans h.program, h.inRange.prepare strategy m⟩

end On

end Analysis

theorem Strategy.on_prepared [Hasher] {p : Program} (hp : p.Valid) (strategy : Strategy) :
    (strategy.prepared p).On p :=
  List.foldlRecOn _ _ ⟨rfl, Analysis.inRange_start hp⟩ fun _ h m _ => h.prepare strategy m

end CallTargets
