import CallTargets.Graph.Components
import CallTargets.Graph.Search
import CallTargets.Store
/-!
# Call graphs

Who calls whom, among functions. The functions of a graph are those that a call starts
from or leads to.
-/

namespace CallTargets

structure CallGraph where
  /-- The pairs of caller and callee, in order of discovery. -/
  edges : OrdSet (FunctionId × FunctionId) := ∅

namespace CallGraph

def add (g : CallGraph) (caller callee : FunctionId) : CallGraph :=
  { edges := g.edges.insert (caller, callee) }

def ofStore (s : Store) : CallGraph :=
  s.callMap.toList.foldl
    (fun g (caller, callees) => callees.toList.foldl (fun g callee => g.add caller callee) g) {}

def nodes (g : CallGraph) : OrdSet FunctionId :=
  .ofList (g.edges.toList.flatMap fun (caller, callee) => [caller, callee])

def callees (g : CallGraph) (f : FunctionId) : List FunctionId :=
  (g.edges.toList.filter (·.1 = f)).map Prod.snd

def callers (g : CallGraph) (f : FunctionId) : List FunctionId :=
  (g.edges.toList.filter (·.2 = f)).map Prod.fst

def nodesWith (g : CallGraph) (f : FunctionId) : List FunctionId :=
  (OrdSet.ofList (f :: g.nodes.toList)).toList

def seeking (g : CallGraph) (f : FunctionId) : Search FunctionId Unit Unit where
  turn := .newest
  visit := fun _ current =>
    if (g.callees current).contains f then .stop () else .goOn () (g.callees current).reverse

def isRecursive (g : CallGraph) (f : FunctionId) : Bool :=
  match ((g.seeking f).run (g.nodesWith f) [f] ()).2 with
  | .answered _ => true
  | .exhausted _ => false

def reachable (g : CallGraph) (f : FunctionId) : OrdSet FunctionId :=
  let search : Search FunctionId (OrdSet FunctionId) Empty :=
    { turn := .newest
      visit := fun found current => .goOn (found.insert current) (g.callees current).reverse }
  search.explore (g.nodesWith f) [f] ∅

def leaves (g : CallGraph) : List FunctionId := g.nodes.toList.filter fun f => (g.callees f).isEmpty

def roots (g : CallGraph) : List FunctionId := g.nodes.toList.filter fun f => (g.callers f).isEmpty

def adjacency (g : CallGraph) : Adjacency :=
  (g.nodes.toList.map fun f => (g.callees f).filterMap (g.nodes.toList.idxOf? ·)).toArray

def components (g : CallGraph) : List (List FunctionId) :=
  g.adjacency.components.map (·.filterMap (g.nodes.toList[·]?))

def stats (g : CallGraph) : ComponentStats := g.adjacency.stats g.adjacency.components

end CallGraph

end CallTargets
