import CallTargets.CallGraph
import CallTargets.Proofs.Analysis.Results
import CallTargets.Proofs.Lookup.Class
import CallTargets.Proofs.Lookup.Propagate
import CallTargets.Proofs.Lookup.Store

/-!
# Runs as queries

A whole run, with the components of its call graph and its report, as one query
(`Query.analysis`). It is carried on without the program (`Analysis.detached`), so what it
knows of that it has looked up. On a valid program the query is answered with what the run
comes to.
-/

namespace CallTargets

namespace Analysis

def detached (a : Analysis) : Analysis := { a with view := { a.view with program := {} } }

section Detached

variable (a : Analysis)

@[simp]
theorem index_detached : a.detached.view.index = a.view.index := rfl

@[simp]
theorem store_detached : a.detached.store = a.store := rfl

@[simp]
theorem gathered_detached : a.detached.gathered = a.gathered := rfl

@[simp]
theorem knownFlow_detached : a.detached.knownFlow = a.knownFlow := rfl

@[simp]
theorem kept_detached : a.detached.kept = a.kept := rfl

@[simp]
theorem hierarchy_detached : a.detached.hierarchy = a.hierarchy := rfl

theorem noteVirtual_detached (v : ValueId) :
    a.detached.noteVirtual v = (a.noteVirtual v).detached := rfl

theorem noteIndirect_detached (v : ValueId) :
    a.detached.noteIndirect v = (a.noteIndirect v).detached := rfl

theorem noteSimple_detached (v : ValueId) :
    a.detached.noteSimple v = (a.noteSimple v).detached := by
  by_cases hv : v ∈ a.simpleCalls
  · rw [noteSimple, if_pos (show v ∈ a.detached.simpleCalls from hv), noteSimple, if_pos hv]
  · rw [noteSimple, if_neg (show v ∉ a.detached.simpleCalls from hv), noteSimple, if_neg hv]
    rfl

theorem countRefined_detached (r : Resolution) :
    a.detached.countRefined r = (a.countRefined r).detached := by
  unfold countRefined
  split
  · rfl
  · split <;> rfl

theorem record_detached (site : CallSite) (caller : FunctionId) (targets : OrdSet FunctionId) :
    a.detached.record site caller targets = (a.record site caller targets).detached := by
  unfold record
  split <;> rfl

end Detached

end Analysis

namespace Query

/-! ## Queries -/

/-- The query for a new state, or the state as it is. -/
def provided {α : Type} (c : Bool) (f : α → Query α) (a : α) : Query α := if c then f a else pure a

def isLast (a : Analysis) : Query Bool := do return a.prepared + 1 = (← counts).modules

def prepareStore (a : Analysis) (m : Module) : Query Analysis := do
  let store ← addCandidates a.view.index (← addModule a.view.index a.store m) m
  return { a with store := ← provided (← isLast a) (linkCandidates a.view.index) store }

/-- What is passed to parameters, if it is asked for or known. -/
def neededFlow (options : LayerOptions) (a : Analysis) : Query (Option Flow) :=
  if options.dataflow && a.flow.isNone then some <$> flow a.view.index else pure a.flow

def prepareLayers (options : LayerOptions) (m : Module) (a : Analysis) : Query Analysis := do
  let flow ← neededFlow options a
  let gathered ← gather a.view.index flow a.gathered m
  return { a with
    flow, gathered := ← provided (← isLast a) (linkGathered a.view.index) gathered }

def prepareConfined (a : Analysis) : Query Analysis := do
  if ← isLast a then
    let confined ← filterSet a.store.addressTaken (isConfined a.view.index a.knownFlow)
    return { a with confined }.modifyStore
      (·.count fun n => { n with confinedFunctions := confined.size })
  else return a

def prepareClasses (m : Module) (a : Analysis) : Query Analysis := do
  let vtables ← scanVtables a.hierarchy m
  let structors ← scanStructors vtables.2 m
  return { a with hierarchy := structors.2 }

/-- Gathers facts about layers, if the strategy asks for them. -/
def prepareOptions (strategy : Strategy) (m : Module) (a : Analysis) : Query Analysis :=
  match strategy.indirect.options? with
  | some options => prepareLayers options m a
  | none => pure a

def prepareModule (strategy : Strategy) (a : Analysis) (m : Module) : Query Analysis := do
  let a ← prepareStore a m
  let a ← prepareOptions strategy m a
  let a ← provided strategy.indirect.traces prepareConfined a
  let a ← provided strategy.classes (prepareClasses m) a
  return { a with prepared := a.prepared + 1 }

def linkFirst (a : Analysis) : Query Analysis :=
  if a.prepared = 0 then do
    let definitions ← link a.view.definitions
    return { a with view := { a.view with definitions } }
  else pure a

def prepare (strategy : Strategy) (a : Analysis) (m : ModuleId) : Query Analysis := do
  let a ← linkFirst a
  let module ← module m
  if a.prepared < (← counts).modules then prepareModule strategy a module else return a

def candidates (a : Analysis) (v : ValueId) : Query (OrdSet FunctionId) := do
  match ← callSite? v with
  | some site => return a.store.withSignature (← signature a.view.index site.call.type)
  | none => return ∅

def refine (options : LayerOptions) (a : Analysis) (v : ValueId) :
    Query (Resolution × Analysis) := do
  let call := (← callSite? v).map CallSite.call
  let found ← refineBy a.view.index a.gathered.facts options.limit a.kept (← candidates a v) call
  return (found.1, { a with kept := found.2 }.countRefined found.1)

def traced (a : Analysis) (v : ValueId) : Query (OrdSet FunctionId) := do
  match ← callSite? v with
  | some site =>
    match ← trace? a.view.index a.knownFlow site.call.callee with
    | some trace =>
      let candidates ← candidates a v
      return trace.functions.filter fun f => f ∈ candidates
    | none => return ∅
  | none => return ∅

def resolveIndirect (indirect : Indirect) (a : Analysis) (v : ValueId) :
    Query (OrdSet FunctionId × Analysis) := do
  match indirect with
  | .signature => return (← candidates a v, a)
  | .layers options =>
    let refined ← refine options a v
    return (refined.1.targets, refined.2)
  | .pointerFlow options =>
    let targets ← traced a v
    if targets.isEmpty then
      let refined ← refine options a v
      return (refined.1.targets.filter fun f => f ∉ refined.2.confined, refined.2)
    else return (targets, a.noteSimple v)

def resolveVirtual (strategy : Strategy) (a : Analysis) (v : ValueId) :
    Query (OrdSet FunctionId) := do
  match strategy.classes, ← callSite? v with
  | true, some site => virtualTargets a.view.index a.hierarchy site.call
  | _, _ => return ∅

def visitCall (strategy : Strategy) (caller : FunctionId) (a : Analysis) (site : CallSite) :
    Query Analysis := do
  if (← baseFunction? site.call.callee).isSome then return a
  else if ← isVirtual site.call then
    let a := a.noteVirtual site.id
    return a.record site caller (← resolveVirtual strategy a site.id)
  else
    let resolved ← resolveIndirect strategy.indirect (a.noteIndirect site.id) site.id
    return resolved.2.record site caller resolved.1

def visitFunction (strategy : Strategy) (a : Analysis) (f : FunctionId) : Query Analysis := do
  fold (visitCall strategy f) a (← callSites f)

def run (strategy : Strategy) (a : Analysis) (m : ModuleId) : Query Analysis := do
  fold (visitFunction strategy) a (← module m).functions

/-- A run with its strongly connected components and its report. -/
def analysis [Hasher] (strategy : Strategy) :
    Query (Analysis × List (List FunctionId) × String) := do
  let ms := (← modules).map Module.id
  let start : Analysis := { view := ⟨{}, Hasher.hash, ← shapes, ∅⟩ }
  let prepared ← fold (prepare strategy) start ms
  let a ← fold (run strategy) prepared ms
  return (a, (CallGraph.ofStore a.store).components, ← text a.store)

/-! ## Answers -/

section Prepare

variable {a : Analysis} (h : a.InRange) {m : Module} (hm : m ∈ a.view.program.modules.toList)

theorem answer?_isLast : (isLast a.detached).answer? a.view.program = some a.isLast := rfl

theorem answer?_provided_image {α β : Type} (image : β → α) {p : Program} {c : Bool}
    {f : α → Query α} {a b : β} (h : (f (image a)).answer? p = some (image b)) :
    (provided c f (image a)).answer? p = some (image (if c then b else a)) := by
  cases c
  · rfl
  · exact h

theorem answer?_provided {α : Type} {p : Program} {c : Bool} {f : α → Query α} {a b : α}
    (h : (f a).answer? p = some b) : (provided c f a).answer? p = some (if c then b else a) :=
  answer?_provided_image id h

include h

include hm in
theorem answer?_prepareStore :
    (prepareStore a.detached m).answer? a.view.program = some (a.prepareStore m).detached := by
  have hstore := h.store.addModule h.view hm
  simp only [prepareStore, answer?_bind, Analysis.index_detached, Analysis.store_detached,
    answer?_addModule h.view hm, answer?_addCandidates h.view hm, answer?_isLast,
    answer?_provided (answer?_linkCandidates h.view hstore), Option.bind_some, answer?_pure]
  rfl

theorem answer?_neededFlow (options : LayerOptions) :
    (neededFlow options a.detached).answer? a.view.program =
      some (if options.dataflow && a.flow.isNone then some (Flow.ofView a.view) else a.flow) := by
  rw [neededFlow, answer?_ite, answer?_map, Analysis.index_detached, answer?_flow h.view,
    answer?_pure]
  exact (apply_ite some _ _ _).symm

include hm in
theorem answer?_prepareLayers (options : LayerOptions) :
    (prepareLayers options m a.detached).answer? a.view.program =
      some (a.prepareLayers options m).detached := by
  have hflow := h.neededFlow options
  have hgathered := h.gathered.module h.view hflow m
  simp only [prepareLayers, answer?_bind, answer?_neededFlow h, Analysis.index_detached,
    Analysis.gathered_detached, answer?_gather h.view h.gathered hflow hm, answer?_isLast,
    answer?_provided (answer?_linkGathered h.view hgathered), Option.bind_some, answer?_pure]
  rfl

theorem answer?_prepareConfined :
    (prepareConfined a.detached).answer? a.view.program = some a.prepareConfined.detached := by
  have hconfined : (filterSet a.store.addressTaken (isConfined a.view.index a.knownFlow)).answer?
      a.view.program = some (a.store.addressTaken.filter (a.view.isConfined a.knownFlow)) :=
    answer?_filterSet fun f hf => answer?_isConfined h.view a.knownFlow (h.store.addressTaken f hf)
  simp only [prepareConfined, Analysis.prepareConfined, answer?_bind, answer?_isLast, answer?_ite,
    Analysis.store_detached, Analysis.index_detached, Analysis.knownFlow_detached, hconfined,
    Option.bind_some, answer?_pure]
  split <;> rfl

include hm in
theorem answer?_prepareClasses :
    (prepareClasses m a.detached).answer? a.view.program = some (a.prepareClasses m).detached := by
  simp only [prepareClasses, answer?_bind, Analysis.hierarchy_detached,
    answer?_scanVtables h.view.program hm, answer?_scanStructors h.view.program hm,
    Option.bind_some, answer?_pure]
  rfl

include hm in
theorem answer?_prepareOptions (strategy : Strategy) :
    (prepareOptions strategy m a.detached).answer? a.view.program =
      some (a.prepareOptions strategy m).detached := by
  unfold prepareOptions Analysis.prepareOptions
  cases strategy.indirect.options? with
  | none => rfl
  | some options => exact answer?_prepareLayers h hm options

include hm in
theorem answer?_prepareModule (strategy : Strategy) :
    (prepareModule strategy a.detached m).answer? a.view.program =
      some (a.prepareModule strategy m).detached := by
  have hstore := h.prepareStore hm
  have hoptions := hstore.prepareOptions strategy m
  have hlayers : (prepareOptions strategy m (a.prepareStore m).detached).answer? a.view.program =
      some ((a.prepareStore m).prepareOptions strategy m).detached :=
    answer?_prepareOptions hstore hm strategy
  have hview : ((a.prepareStore m).prepareOptions strategy m).view = a.view :=
    Analysis.view_prepareOptions strategy _ m
  simp only [prepareModule, Analysis.prepareModule, answer?_bind,
    answer?_prepareStore h hm, hlayers, Option.bind_some]
  generalize (a.prepareStore m).prepareOptions strategy m = b at hoptions hview
  have hconfined : (provided strategy.indirect.traces prepareConfined b.detached).answer?
      a.view.program =
        some (if strategy.indirect.traces then b.prepareConfined else b).detached :=
    answer?_provided_image Analysis.detached (hview ▸ answer?_prepareConfined hoptions)
  rw [hconfined, Option.bind_some]
  have hnext : (if strategy.indirect.traces then b.prepareConfined else b).InRange := by
    split
    · exact hoptions.prepareConfined
    · exact hoptions
  have hview' : (if strategy.indirect.traces then b.prepareConfined else b).view = a.view := by
    rw [← hview]
    split
    · exact b.view_prepareConfined
    · rfl
  generalize (if strategy.indirect.traces then b.prepareConfined else b) = c at hnext hview'
  rw [← hview'] at hm ⊢
  rw [answer?_provided_image Analysis.detached (answer?_prepareClasses hnext hm)]
  rfl

omit h in
theorem answer?_linkFirst :
    (linkFirst a.detached).answer? a.view.program = some a.linked.detached := by
  by_cases hfirst : a.prepared = 0
  · rw [linkFirst, if_pos (show a.detached.prepared = 0 from hfirst), Analysis.linked,
      if_pos hfirst, answer?_bind]
    have hlink : (link a.detached.view.definitions).answer? a.view.program =
        some a.view.link.definitions := answer?_link a.view
    rw [hlink]
    rfl
  · rw [linkFirst, if_neg (show ¬ a.detached.prepared = 0 from hfirst), Analysis.linked,
      if_neg hfirst]
    rfl

theorem answer?_prepare (strategy : Strategy) {m : ModuleId} (hm : a.view.program.HasModule m) :
    (prepare strategy a.detached m).answer? a.view.program =
      some (a.prepare strategy m).detached := by
  have hlinked := h.linked
  have hlink := answer?_linkFirst (a := a)
  rw [← a.program_linked] at hm hlink ⊢
  rw [Analysis.prepare, prepare, answer?_bind, hlink, Option.bind_some]
  generalize a.linked = b at hm hlinked
  obtain ⟨module, hmodule⟩ := Program.exists_module hm
  have hmem := Array.mem_toList_iff.2 (Array.mem_of_getElem? hmodule)
  simp only [answer?_bind, answer?_module, hmodule, answer?_counts, Option.bind_some, answer?_ite,
    answer?_prepareModule hlinked hmem, answer?_pure]
  exact (apply_ite (fun a : Analysis => some a.detached) _ _ _).symm

end Prepare

section Answer

variable {a : Analysis} (h : a.InRange) {v : ValueId} (hv : a.view.program.HasValue v)
include h hv

theorem answer?_candidates :
    (candidates a.detached v).answer? a.view.program = some (a.candidates v) := by
  simp only [candidates, Analysis.candidates, answer?_bind, answer?_callSite? hv, Option.bind_some]
  cases hsite : a.view.program.callSite? v with
  | none => rfl
  | some site =>
    have htype := h.view.program.hasType_of_call (Program.opcode?_of_callSite? hsite)
    simp [answer?_signature h.view htype]

theorem answer?_refine (options : LayerOptions) :
    (refine options a.detached v).answer? a.view.program =
      some ((a.refine options v).1, (a.refine options v).2.detached) := by
  have hcall : ∀ c, (a.view.program.callSite? v).map CallSite.call = some c →
      a.view.program.HasType c.type ∧ a.view.program.HasValue c.callee := by
    intro c hc
    obtain ⟨site, hsite, rfl⟩ := Option.map_eq_some_iff.1 hc
    exact ⟨h.view.program.hasType_of_call (Program.opcode?_of_callSite? hsite),
      h.view.program.hasValue_callee hsite⟩
  simp only [refine, Analysis.refine, answer?_bind, answer?_callSite? hv,
    answer?_candidates h hv, Analysis.index_detached, Analysis.gathered_detached,
    Analysis.kept_detached, answer?_refineBy h.view _ _ hcall, Option.bind_some, answer?_pure]
  generalize a.view.refine a.gathered.facts options.limit a.kept (a.candidates v)
    ((a.view.program.callSite? v).map CallSite.call) = found
  exact congrArg (fun b => some (found.1, b))
    (Analysis.countRefined_detached { a with kept := found.2 } found.1)

theorem answer?_traced : (traced a.detached v).answer? a.view.program = some (a.traced v) := by
  simp only [traced, Analysis.traced, answer?_bind, answer?_callSite? hv, Option.bind_some]
  cases hsite : a.view.program.callSite? v with
  | none => rfl
  | some site =>
    simp only [answer?_bind, Analysis.index_detached, Analysis.knownFlow_detached,
      answer?_trace? h.view, Option.bind_some]
    cases a.view.trace? a.knownFlow site.call.callee with
    | none => rfl
    | some trace => simp [answer?_candidates h hv]

theorem answer?_resolveIndirect (indirect : Indirect) :
    (resolveIndirect indirect a.detached v).answer? a.view.program =
      some ((a.resolveIndirect indirect v).1, (a.resolveIndirect indirect v).2.detached) := by
  cases indirect with
  | signature => simp [resolveIndirect, Analysis.resolveIndirect, answer?_candidates h hv]
  | layers options => simp [resolveIndirect, Analysis.resolveIndirect, answer?_refine h hv]
  | pointerFlow options =>
    simp only [resolveIndirect, Analysis.resolveIndirect, answer?_bind, answer?_traced h hv,
      answer?_ite, answer?_refine h hv, Analysis.noteSimple_detached, Option.bind_some,
      answer?_pure]
    split <;> rfl

theorem answer?_resolveVirtual (strategy : Strategy) :
    (resolveVirtual strategy a.detached v).answer? a.view.program =
      some (a.resolveVirtual strategy v) := by
  simp only [resolveVirtual, Analysis.resolveVirtual, answer?_bind, answer?_callSite? hv,
    Option.bind_some]
  cases strategy.classes with
  | false => cases a.view.program.callSite? v <;> rfl
  | true =>
    cases hsite : a.view.program.callSite? v with
    | none => rfl
    | some site =>
      exact answer?_virtualTargets h.view (Program.opcode?_of_callSite? hsite) h.hierarchy

omit hv

theorem answer?_visitCall (strategy : Strategy) {caller : FunctionId} {site : CallSite}
    (hsite : site ∈ a.view.program.callSites caller) :
    (visitCall strategy caller a.detached site).answer? a.view.program =
      some (a.visitCall strategy caller site).detached := by
  have hp := h.view.program
  have hcallee := hp.hasValue_calleeOf hsite
  have hcall := Program.opcode?_of_callSite? (Program.callSite?_of_mem_callSites hsite)
  have hid := Program.hasValue_site hsite
  have hvirtual : (resolveVirtual strategy (a.noteVirtual site.id).detached site.id).answer?
      a.view.program = some ((a.noteVirtual site.id).resolveVirtual strategy site.id) :=
    answer?_resolveVirtual (h.same (.modifyStore ⟨rfl, rfl⟩)) hid strategy
  have hindirect : (resolveIndirect strategy.indirect (a.noteIndirect site.id).detached
      site.id).answer? a.view.program = some (_, Analysis.detached _) :=
    answer?_resolveIndirect (h.same (.modifyStore ⟨rfl, rfl⟩)) hid strategy.indirect
  simp only [visitCall, Analysis.visitCall, answer?_bind, answer?_ite,
    answer?_baseFunction? hcallee hp, answer?_isVirtual hp hcall, Analysis.noteVirtual_detached,
    Analysis.noteIndirect_detached, hvirtual, hindirect, Analysis.record_detached,
    Option.bind_some, answer?_pure]
  cases (a.view.program.baseFunction? site.call.callee).isSome with
  | true => rfl
  | false =>
    simp only [Bool.false_eq_true, if_false]
    cases Dispatch.isVirtual a.view.program site.call <;> rfl

end Answer

section Run

variable {p : Program} {a : Analysis} (h : a.On p) (strategy : Strategy)
include h

theorem answer?_prepareOn {m : Module} (hm : m ∈ p.modules.toList) :
    (prepare strategy a.detached m.id).answer? p = some (a.prepare strategy m.id).detached := by
  rw [← h.program] at hm ⊢
  have hmodule := h.inRange.view.program.module?_id hm
  exact answer?_prepare h.inRange strategy (Program.hasModule_of_eq_some hmodule)

theorem answer?_visitFunction {f : FunctionId} (hf : p.HasFunction f) :
    (visitFunction strategy a.detached f).answer? p =
      some (a.visitFunction strategy f).detached := by
  have hp := h.valid
  rw [visitFunction, Analysis.visitFunction, answer?_bind, answer?_callSites hf hp,
    Option.bind_some, h.program]
  refine answer?_fold_image Analysis.detached (fun b site _ (hb : b.On p) =>
    hb.same (.visitCall strategy f b site)) (fun b site hsite hb => ?_) h
  rw [← hb.program] at hsite ⊢
  exact answer?_visitCall hb.inRange strategy hsite

theorem answer?_run {m : Module} (hm : m ∈ p.modules.toList) :
    (run strategy a.detached m.id).answer? p = some (a.run strategy m.id).detached := by
  have hp := h.valid
  rw [run, Analysis.run, h.program, answer?_bind, answer?_module, hp.module?_id hm,
    Option.bind_some]
  exact answer?_fold_image Analysis.detached (fun b f _ (hb : b.On p) =>
    hb.same (.visitFunction strategy b f)) (fun b f hf hb =>
      answer?_visitFunction hb strategy (hp.hasFunction_of_mem_module hm hf)) h

end Run

section Analyze

variable [Hasher] {p : Program} (hp : p.Valid) (strategy : Strategy)
include hp

theorem answer?_prepared :
    (fold (prepare strategy) (Analysis.start p).detached p.moduleIds).answer? p =
      some (strategy.prepared p).detached := by
  refine answer?_fold_image Analysis.detached (fun a m _ (h : a.On p) => h.prepare strategy m)
    (fun a id hid h => ?_) ⟨rfl, Analysis.inRange_start hp⟩
  obtain ⟨m, hm, rfl⟩ := List.mem_map.1 hid
  exact answer?_prepareOn h strategy hm

theorem answer?_answered :
    (fold (run strategy) (strategy.prepared p).detached p.moduleIds).answer? p =
      some (strategy.analyze p).2.detached := by
  rw [Strategy.analyze_eq]
  refine answer?_fold_image Analysis.detached (fun a m _ (h : a.On p) =>
    h.same (.run strategy a m)) (fun a id hid h => ?_) (strategy.on_prepared hp)
  obtain ⟨m, hm, rfl⟩ := List.mem_map.1 hid
  exact answer?_run h strategy hm

theorem answer?_analysis :
    (analysis strategy).answer? p =
      let a := (strategy.analyze p).2
      some (a.detached, (CallGraph.ofStore a.store).components, Report.text p a.store) := by
  have hcallees : (strategy.analyze p).2.store.callees.All fun v fs =>
      p.HasValue v ∧ ∀ f ∈ fs, p.HasFunction f := by
    intro e he
    obtain ⟨site, hsite, hid, hfs⟩ :=
      (strategy.sound_analyze hp).callees e.1 e.2 (OrdMap.get?_of_mem_toList he)
    obtain ⟨f, -, hsite⟩ := Program.mem_calls.1 hsite
    exact ⟨hid ▸ Program.hasValue_site hsite, fun f hf =>
      Strategy.hasFunction_of_mem_answer hp (hfs ▸ hf)⟩
  simp only [analysis, answer?_bind, answer?_modules, answer?_shapes hp, Option.bind_some]
  refine (congrArg (Option.bind · _) (answer?_prepared hp strategy)).trans ?_
  refine (congrArg (Option.bind · _) (answer?_answered hp strategy)).trans ?_
  simp only [Option.bind_some, Analysis.store_detached, answer?_text hcallees, answer?_pure]

end Analyze

end Query

namespace Strategy

/-- On a valid program, whatever the strategy and its number of layers, a run, the components of
its call graph and its report are found by looking up only what exists. -/
theorem lookups_inRange [Hasher] {p : Program} (hp : p.Valid) (strategy : Strategy) :
    (let a := (strategy.analyze p).2
    (Query.analysis strategy).answer? p =
      some (a.detached, (CallGraph.ofStore a.store).components, Report.text p a.store)) ∧
      ∀ l ∈ (Query.analysis strategy).lookups p, l.InRange p := by
  have hanswer := Query.answer?_analysis hp strategy
  exact ⟨hanswer, Query.inRange_of_answer? hanswer⟩

attribute [local instance] Hasher.digits

theorem lookups_inRange_outOfSight :
    outOfSight.Valid ∧ .module 0 ∈ (Query.analysis traceFirst).lookups outOfSight ∧
      (Query.analysis traceFirst).answer? outOfSight =
        some (sightRun.detached, (CallGraph.ofStore sightRun.store).components,
          Report.text outOfSight sightRun.store) ∧
      ∀ l ∈ (Query.analysis traceFirst).lookups outOfSight, l.InRange outOfSight :=
  ⟨valid_outOfSight, List.mem_cons_self, lookups_inRange valid_outOfSight traceFirst⟩

end Strategy

end CallTargets
