import CallTargets.Class.Dispatch
import CallTargets.Class.Structor
import CallTargets.Class.Vtable
import CallTargets.Fixpoint
import CallTargets.Flow.Confined
import CallTargets.Flow.Params
import CallTargets.Layer.Propagate
import CallTargets.Layer.Refine
import CallTargets.Store
import CallTargets.Strategy
/-!
# The analysis

A run prepares each module, which gathers all facts, and then visits the calls through
pointers and records what they may reach.
-/

namespace CallTargets

structure Analysis where
  view : View
  store : Store := {}
  prepared : Nat := 0
  gathered : Gathered := {}
  /-- What is passed to parameters, if the strategy asks for it. -/
  flow : Option Flow := none
  kept : Matches := ∅
  /-- The functions that calls without a trace cannot reach. -/
  confined : OrdSet FunctionId := ∅
  /-- The calls that were answered by their traces. -/
  simpleCalls : OrdSet ValueId := ∅
  hierarchy : Hierarchy := {}

namespace Analysis

def start [Hasher] (p : Program) : Analysis := { view := View.ofProgram p }

def knownFlow (a : Analysis) : Flow := a.flow.getD {}

def modifyStore (a : Analysis) (change : Store → Store) : Analysis :=
  { a with store := change a.store }

/-! ## Preparing -/

def isLast (a : Analysis) : Bool := a.prepared + 1 = a.view.program.modules.size

/-- Records direct calls and the functions that indirect calls may reach. -/
def prepareStore (a : Analysis) (m : Module) : Analysis :=
  let store := (a.store.addModule a.view m).addCandidates a.view m
  { a with store := if a.isLast then store.linkCandidates a.view else store }

def prepareLayers (a : Analysis) (options : LayerOptions) (m : Module) : Analysis :=
  let flow := if options.dataflow && a.flow.isNone then some (Flow.ofView a.view) else a.flow
  let gathered := a.gathered.module a.view flow m
  { a with flow, gathered := if a.isLast then gathered.linked a.view else gathered }

/-- Finds the confined functions, once everything is gathered. -/
def prepareConfined (a : Analysis) : Analysis :=
  if a.isLast then
    let confined := a.store.addressTaken.filter (a.view.isConfined a.knownFlow)
    { a with confined }.modifyStore
      (·.count fun n => { n with confinedFunctions := confined.size })
  else a

def prepareClasses (a : Analysis) (m : Module) : Analysis :=
  let p := a.view.program
  { a with hierarchy := (Structor.scan p (Vtable.scan p a.hierarchy m).2 m).2 }

/-- Gathers facts about layers, if the strategy asks for them. -/
def prepareOptions (strategy : Strategy) (a : Analysis) (m : Module) : Analysis :=
  match strategy.indirect.options? with
  | some options => a.prepareLayers options m
  | none => a

def prepareModule (strategy : Strategy) (a : Analysis) (m : Module) : Analysis :=
  let a := (a.prepareStore m).prepareOptions strategy m
  let a := if strategy.indirect.traces then a.prepareConfined else a
  let a := if strategy.classes then a.prepareClasses m else a
  { a with prepared := a.prepared + 1 }

/-- The run with its program linked, which is done before the first module. -/
def linked (a : Analysis) : Analysis :=
  if a.prepared = 0 then { a with view := a.view.link } else a

/-- Prepares a module, unless as many as there are have been prepared. -/
def prepare (strategy : Strategy) (a : Analysis) (m : ModuleId) : Analysis :=
  match a.linked.view.program.module? m with
  | some module =>
    if a.linked.prepared < a.linked.view.program.modules.size then
      a.linked.prepareModule strategy module
    else a.linked
  | none => a.linked

/-! ## Answering -/

/-- The functions that a call may reach by its signature. -/
def candidates (a : Analysis) (v : ValueId) : OrdSet FunctionId :=
  match a.view.program.callSite? v with
  | some site => a.store.withSignature (a.view.signature site.call.type)
  | none => ∅

def countRefined (a : Analysis) (r : Resolution) : Analysis :=
  if r.baseline.isEmpty then a
  else if r.steps.isEmpty then
    a.modifyStore (·.count fun n => { n with
      firstLayerCalls := n.firstLayerCalls + 1
      firstLayerTargets := n.firstLayerTargets + r.baseline.size })
  else
    a.modifyStore (·.count fun n => { n with
      secondLayerCalls := n.secondLayerCalls + 1
      secondLayerTargets := n.secondLayerTargets + r.targets.size })

/-- Refines the candidates for a call by layers, and counts the call. -/
def refine (options : LayerOptions) (a : Analysis) (v : ValueId) : Resolution × Analysis :=
  let found := a.view.refine a.gathered.facts options.limit a.kept (a.candidates v)
    ((a.view.program.callSite? v).map CallSite.call)
  (found.1, { a with kept := found.2 }.countRefined found.1)

/-- The candidates that a call can be traced to. -/
def traced (a : Analysis) (v : ValueId) : OrdSet FunctionId :=
  match a.view.program.callSite? v with
  | some site =>
    match a.view.trace? a.knownFlow site.call.callee with
    | some trace => trace.functions.filter fun f => f ∈ a.candidates v
    | none => ∅
  | none => ∅

/-- Notes a call that was answered by its trace, and counts it the first time. -/
def noteSimple (a : Analysis) (v : ValueId) : Analysis :=
  if v ∈ a.simpleCalls then a
  else { a with simpleCalls := a.simpleCalls.insert v }.modifyStore
    (·.count fun n => { n with simpleCalls := n.simpleCalls + 1 })

def resolveIndirect (indirect : Indirect) (a : Analysis) (v : ValueId) :
    OrdSet FunctionId × Analysis :=
  match indirect with
  | .signature => (a.candidates v, a)
  | .layers options =>
    let (r, a) := a.refine options v
    (r.targets, a)
  | .pointerFlow options =>
    let targets := a.traced v
    if targets.isEmpty then
      let (r, a) := a.refine options v
      (r.targets.filter fun f => f ∉ a.confined, a)
    else (targets, a.noteSimple v)

def resolveVirtual (strategy : Strategy) (a : Analysis) (v : ValueId) : OrdSet FunctionId :=
  match strategy.classes, a.view.program.callSite? v with
  | true, some site => Dispatch.targets a.view a.hierarchy site.call
  | _, _ => ∅

/-! ## Running -/

/-- Records what a call may reach, and counts the call if there is anything. -/
def record (a : Analysis) (site : CallSite) (caller : FunctionId) (targets : OrdSet FunctionId) :
    Analysis :=
  let a := a.modifyStore (·.addCall site.id caller targets.toList)
  if targets.isEmpty then a
  else a.modifyStore (·.count fun n => { n with
    validCalls := n.validCalls + 1
    callTargets := n.callTargets + targets.size })

def noteVirtual (a : Analysis) (v : ValueId) : Analysis :=
  a.modifyStore fun s => { s with virtualCalls := s.virtualCalls.insert v }.count fun n =>
    { n with virtualCalls := n.virtualCalls + 1 }

def noteIndirect (a : Analysis) (v : ValueId) : Analysis :=
  a.modifyStore fun s => { s with indirectCalls := s.indirectCalls.insert v }

def visitCall (strategy : Strategy) (caller : FunctionId) (a : Analysis) (site : CallSite) :
    Analysis :=
  if (a.view.program.baseFunction? site.call.callee).isSome then a
  else if Dispatch.isVirtual a.view.program site.call then
    (a.noteVirtual site.id).record site caller
      ((a.noteVirtual site.id).resolveVirtual strategy site.id)
  else
    let resolved := (a.noteIndirect site.id).resolveIndirect strategy.indirect site.id
    resolved.2.record site caller resolved.1

def visitFunction (strategy : Strategy) (a : Analysis) (f : FunctionId) : Analysis :=
  (a.view.program.callSites f).foldl (visitCall strategy f) a

def run (strategy : Strategy) (a : Analysis) (m : ModuleId) : Analysis :=
  match a.view.program.module? m with
  | some module => module.functions.foldl (visitFunction strategy) a
  | none => a

end Analysis

/-- The pass of a strategy. All facts are fixed once modules are prepared, so that one visit
of each module is enough and no visit asks for another one. -/
def Strategy.pass (strategy : Strategy) : Pass Analysis where
  prepare := fun a m => (false, a.prepare strategy m)
  run := fun a m => (false, a.run strategy m)
  rank := fun _ => 0
  prepare_lowers := fun _ _ => Nat.le_refl 0
  run_lowers := fun _ _ => Nat.le_refl 0

/-- Runs a strategy on a program that was not looked at before. -/
def Strategy.analyze [Hasher] (strategy : Strategy) (p : Program) : Summary × Analysis :=
  strategy.pass.fixpoint p.moduleIds (Analysis.start p)

end CallTargets
