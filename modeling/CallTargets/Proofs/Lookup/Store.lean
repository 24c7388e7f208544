import CallTargets.Proofs.Analysis.Range
import CallTargets.Proofs.Lookup.View
import CallTargets.Report

/-!
# Queries that fill and print results

Candidates and direct calls of modules, and reports, as queries.
-/

namespace CallTargets

namespace Query

/-! ## Queries -/

section Fill

variable (index : View.Index)

def addCandidates (s : Store) (m : Module) : Query Store := do
  fold (fun s f => do return s.addCandidate (← signatureOf index f) f) s
    (← filter (ofFunction Store.isCandidate) m.functions)

def linkCandidates (s : Store) : Query Store := do
  let addressTaken ← image s.addressTaken (definitionOf index)
  let buckets ← mapValues s.buckets fun fs => image fs (definitionOf index)
  return { s with addressTaken, buckets }

def addDirectCall (f : FunctionId) (s : Store) (site : CallSite) : Query Store := do
  match ← baseFunction? site.call.callee with
  | some callee => return s.addCall site.id f [← definitionOf index callee]
  | none => return s

def addFunction (s : Store) (f : FunctionId) : Query Store := do
  fold (addDirectCall index f) (s.count fun n => { n with functions := n.functions + 1 })
    (← callSites f)

def addGlobals (s : Store) (m : Module) : Query Store := do
  let initialised ← filter (fun g => do return (← global g).init.isSome) m.globals
  return { s with globals := s.globals.insertMany initialised }

def addModule (s : Store) (m : Module) : Query Store := do
  fold (addFunction index) (← addGlobals s m) (← definedIn m)

end Fill

def location (v : ValueId) : Query String := do
  return (((← callSite? v).bind CallSite.loc).map SourceLoc.text).getD "<unknown>:0:0"

def line (v : ValueId) (callees : OrdSet FunctionId) : Query String := do
  let names ← each callees.toList functionName
  return (← location v) ++ "|" ++ Text.joinWith "," (names.map Normal.functionName)

def lines (s : Store) : Query (List String) :=
  each (s.callees.toList.filter fun (v, callees) =>
    !callees.isEmpty && (v ∈ s.indirectCalls || v ∈ s.virtualCalls)) fun (v, callees) =>
      line v callees

def text (s : Store) : Query String := do
  return (← lines s).foldl (fun text line => text ++ line ++ "\n") ""

/-! ## Answers -/

section Fill

variable {view : View} (hview : view.Valid) {s : Store} (hs : s.InRange view.program) {m : Module}
  (hm : m ∈ view.program.modules.toList)
include hview

include hm in
theorem answer?_addCandidates (s : Store) :
    (addCandidates view.index s m).answer? view.program = some (s.addCandidates view m) := by
  have hfunctions : ∀ f ∈ m.functions, view.program.HasFunction f := fun f hf =>
    hview.program.hasFunction_of_mem_module hm hf
  have hfound : (filter (ofFunction Store.isCandidate) m.functions).answer? view.program =
      some (m.functions.filter fun f => (view.program.function? f).any Store.isCandidate) :=
    answer?_filter fun f hf => answer?_ofFunction_any (hfunctions f hf)
  simp only [addCandidates, Store.addCandidates, answer?_bind, hfound, Option.bind_some]
  refine answer?_fold (fun s f hf => ?_) s
  simp [answer?_signatureOf hview (hfunctions f (List.mem_of_mem_filter hf))]

include hs in
theorem answer?_linkCandidates :
    (linkCandidates view.index s).answer? view.program = some (s.linkCandidates view) := by
  have himage : ∀ {fs : OrdSet FunctionId}, (∀ f ∈ fs, view.program.HasFunction f) →
      (image fs (definitionOf view.index)).answer? view.program =
        some (fs.image view.definitionOf) := fun h =>
    answer?_image fun f hf => answer?_definitionOf hview (h f hf)
  have hbuckets : (mapValues s.buckets fun fs => image fs (definitionOf view.index)).answer?
      view.program = some (s.buckets.mapValues fun _ fs => fs.image view.definitionOf) :=
    answer?_mapValues fun e he => himage (hs.buckets e he)
  simp only [linkCandidates, answer?_bind, himage hs.addressTaken, hbuckets, Option.bind_some,
    answer?_pure]
  rfl

theorem answer?_addDirectCall {f : FunctionId} {site : CallSite}
    (hsite : site ∈ view.program.callSites f) (s : Store) :
    (addDirectCall view.index f s site).answer? view.program =
      some (Store.addDirectCall view f s site) := by
  simp only [addDirectCall, Store.addDirectCall, answer?_bind,
    answer?_baseFunction? (hview.program.hasValue_calleeOf hsite) hview.program, Option.bind_some]
  cases hcallee : view.program.baseFunction? site.call.callee with
  | none => rfl
  | some callee => simp [answer?_definitionOf hview (hview.program.hasFunction_base hcallee)]

theorem answer?_addFunction {f : FunctionId} (hf : view.program.HasFunction f) (s : Store) :
    (addFunction view.index s f).answer? view.program = some (Store.addFunction view s f) := by
  simp only [addFunction, Store.addFunction, Store.addDirectCalls, answer?_bind,
    answer?_callSites hf hview.program, Option.bind_some]
  exact answer?_fold (fun s site hsite => answer?_addDirectCall hview hsite s) _

include hm

theorem answer?_addGlobals (s : Store) :
    (addGlobals s m).answer? view.program = some (s.addGlobals view m) := by
  have hinitialised : (filter (fun g => do return (← global g).init.isSome) m.globals).answer?
      view.program =
        some (m.globals.filter fun g => (view.program.global? g).any (·.init.isSome)) := by
    refine answer?_filter fun g hg => ?_
    obtain ⟨global, hglobal⟩ :=
      Program.exists_global (hview.program.hasGlobal_of_mem_module hm hg)
    simp [hglobal]
  simp only [addGlobals, answer?_bind, hinitialised, Option.bind_some, answer?_pure]
  rfl

theorem answer?_addModule (s : Store) :
    (addModule view.index s m).answer? view.program = some (s.addModule view m) := by
  simp only [addModule, Store.addModule, answer?_bind, answer?_addGlobals hview hm,
    answer?_definedIn hview.program hm, Option.bind_some]
  exact answer?_fold (fun s f hf => answer?_addFunction hview
    (hview.program.hasFunction_of_mem_module hm (List.mem_of_mem_filter hf)) s) _

end Fill

section Report

variable {p : Program}

theorem answer?_location {v : ValueId} (hv : p.HasValue v) :
    (location v).answer? p = some (Report.location p v) := by
  simp [location, answer?_callSite? hv, Report.location]

theorem answer?_line {v : ValueId} (hv : p.HasValue v) {callees : OrdSet FunctionId}
    (hcallees : ∀ f ∈ callees, p.HasFunction f) :
    (line v callees).answer? p = some (Report.line p v callees) := by
  have hnames : (each callees.toList functionName).answer? p = _ :=
    answer?_each fun f hf => answer?_functionName (hcallees f hf)
  simp only [line, Report.line, answer?_bind, hnames, answer?_location hv, Option.bind_some,
    answer?_pure, List.map_map]
  rfl

variable {s : Store}
  (hs : s.callees.All fun v fs => p.HasValue v ∧ ∀ f ∈ fs, p.HasFunction f)
include hs

theorem answer?_lines : (lines s).answer? p = some (Report.lines p s) := by
  refine answer?_each fun e he => ?_
  have hrange := hs e (List.mem_of_mem_filter he)
  exact answer?_line hrange.1 hrange.2

theorem answer?_text : (text s).answer? p = some (Report.text p s) := by
  simp only [text, Report.text, answer?_bind, answer?_lines hs, Option.bind_some, answer?_pure]

end Report

end Query

end CallTargets
