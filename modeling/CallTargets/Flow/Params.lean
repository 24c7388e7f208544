import CallTargets.Flow.Trace
import CallTargets.Graph.Components
/-!
# Functions that are passed to parameters

For each parameter that is a function pointer: which functions the direct calls of the
program pass to it. Components of the graph of direct calls are visited callers first,
and inside a component functions are visited again until nothing new arrives.
-/

namespace CallTargets

namespace ParamFlow

/-- Adds what a call passes; `none` if that is not known. -/
def merge : ParamFlow → Option (OrdSet FunctionId) → ParamFlow
  | unknown, _ => unknown
  | known _, none => unknown
  | known functions, some incoming => known (functions.union incoming)

/-- How much may still be added, out of all functions. -/
def room (all : List FunctionId) : ParamFlow → Nat
  | unknown => 0
  | known functions => 1 + (all.filter fun f => f ∉ functions).length

end ParamFlow

namespace Flow

def defined (p : Program) : List FunctionId := p.functionIds.filter fun f => !p.isDeclaration f

def directCalls (view : View) (defined : List FunctionId) : Adjacency :=
  (defined.map fun f => (view.program.callSites f).filterMap fun site =>
    (view.directTarget? site.call.callee).bind (defined.idxOf? ·)).toArray

/-- Anything may be passed to the function: its address is taken, or it can be seen from
outside and is called from nowhere. -/
def isOpen (called : List Nat) (place : Nat) (f : Function) : Bool :=
  f.addressTaken || (f.linkage.isExternal && !called.contains place)

def start (p : Program) (defined : List FunctionId) (calls : Adjacency) : Flow where
  params :=
    let called := calls.toList.flatten
    defined.zipIdx.foldl (fun params (id, place) =>
      match p.function? id with
      | some f =>
        f.params.zipIdx.foldl (fun params (param, index) =>
          if (p.functionPointee? param).isSome then
            params.insert (id, index) (if isOpen called place f then .unknown else .known ∅)
          else params) params
      | none => params) ∅

/-- Merges what one argument passes, and tells whether anything changed. -/
def pass (view : View) (flow : Flow) (callee : FunctionId) (index : Nat) (arg : ValueId) :
    Flow × Bool :=
  match flow.params.get? (callee, index) with
  | some old =>
    let new := old.merge ((view.trace? flow arg).map Trace.functions)
    ({ params := flow.params.insert (callee, index) new }, old ≠ new)
  | none => (flow, false)

/-- Merges what the direct calls of a function pass, and tells whose parameters changed. -/
def visit (view : View) (flow : Flow) (caller : FunctionId) : Flow × OrdSet FunctionId :=
  (view.program.callSites caller).foldl (fun (flow, changed) site =>
    match view.directTarget? site.call.callee with
    | some callee =>
      site.call.args.zipIdx.foldl (fun (flow, changed) (arg, index) =>
        let (flow, isNew) := pass view flow callee index arg
        (flow, if isNew then changed.insert callee else changed)) (flow, changed)
    | none => (flow, changed)) (flow, ∅)

/-- How much may still be added to the flow. -/
def room (all : List FunctionId) (flow : Flow) : Nat :=
  flow.params.toList.foldl (fun n e => n + e.2.room all) 0

/-- Visits functions of a component until nothing new arrives. A visit that leaves the
room as it is has found nothing. -/
def settle (view : View) (members queue : List FunctionId) (flow : Flow) : Flow :=
  match queue with
  | [] => flow
  | f :: queue =>
    let next := visit view flow f
    if next.1.room view.program.functionIds < flow.room view.program.functionIds then
      let again := next.2.toList.filter fun g => members.contains g && !queue.contains g
      settle view members (queue ++ again) next.1
    else settle view members queue flow
termination_by (flow.room view.program.functionIds, queue.length)
decreasing_by
  · exact Prod.Lex.left _ _ ‹_›
  · exact Prod.Lex.right _ (by simp)

/-- The functions that are visited together, callers first. -/
def rounds (view : View) : List (List FunctionId) :=
  (directCalls view (defined view.program)).components.reverse.map
    (·.filterMap ((defined view.program)[·]?))

/-- The functions passed to the parameters of a program. -/
def ofView (view : View) : Flow :=
  (rounds view).foldl (fun flow members => settle view members members flow)
    (start view.program (defined view.program) (directCalls view (defined view.program)))

end Flow

end CallTargets
