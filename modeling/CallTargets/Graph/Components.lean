/-!
# Strongly connected components

One depth-first pass over a finite graph. Each vertex that is entered goes on a
stack, and looking at its successors yields the lowest place on the stack that they
lead back to. A vertex that leads to no place below its own is the oldest of its
component, which is then the part of the stack from that vertex upward.

Components come out callees first: a component follows every component it leads to.
Inside a component the vertices stand in the order in which they were entered.
-/

namespace CallTargets

namespace Components

/-- The state of the pass. A vertex that is neither unseen nor on the stack belongs to
one of the finished components. -/
structure Pass where
  unseen : List Nat
  /-- The entered vertices of unfinished components, newest first. -/
  stack : List Nat
  /-- The finished components, newest first. -/
  done : List (List Nat)

/-- The place of a vertex on the stack, counted from its bottom. -/
def placeOf (v : Nat) : (stack : List Nat) → Option Nat
  | [] => none
  | x :: below => if x = v then some below.length else placeOf v below

/-- Takes the top of the stack, down to a given place, as a component. -/
def Pass.close (p : Pass) (place : Nat) : Pass :=
  let size := p.stack.length - place
  { p with stack := p.stack.drop size, done := (p.stack.take size).reverse :: p.done }

/-- Enters a vertex and everything it leads to, and yields the lowest place on the stack
that was reached. The open vertices lie on a path without repetition, so `room` need not
exceed the number of vertices. -/
def enter (succ : Nat → List Nat) : (room : Nat) → Pass → Nat → Nat × Pass
  | 0, p, _ => (p.stack.length, p)
  | room + 1, p, v =>
    let place := p.stack.length
    let entered := { p with unseen := p.unseen.erase v, stack := v :: p.stack }
    let (low, p) := (succ v).foldl (fun (low, p) w =>
      if w ∈ p.unseen then
        let (low', p) := enter succ room p w
        (min low low', p)
      else match placeOf w p.stack with
        | some place' => (min low place', p)
        | none => (low, p)) (place, entered)
    (low, if low < place then p else p.close place)

def passOver (succ : Nat → List Nat) (room : Nat) (p : Pass) (vs : List Nat) : Pass :=
  vs.foldl (fun p v => if v ∈ p.unseen then (enter succ room p v).2 else p) p

end Components

/-- A graph on the vertices `0, …, size - 1`, given by the successors of each. -/
abbrev Adjacency := Array (List Nat)

namespace Adjacency

def succ (adj : Adjacency) (v : Nat) : List Nat := adj[v]?.getD []

def finalPass (adj : Adjacency) : Components.Pass :=
  Components.passOver adj.succ adj.size { unseen := List.range adj.size, stack := [], done := [] }
    (List.range adj.size)

/-- The strongly connected components, each after all those it leads to. An edge to a
number that is no vertex has no effect. -/
def components (adj : Adjacency) : List (List Nat) := adj.finalPass.done.reverse

/-- A component with a cycle: two members or more, or one that is its own successor. -/
def isCyclic (adj : Adjacency) : (component : List Nat) → Bool
  | [v] => (adj.succ v).contains v
  | component => component.length > 1

end Adjacency

structure ComponentStats where
  vertices : Nat
  components : Nat
  largest : Nat
  cyclic : Nat
  deriving DecidableEq, Repr

def Adjacency.stats (adj : Adjacency) (components : List (List Nat)) : ComponentStats where
  vertices := adj.size
  components := components.length
  largest := components.foldl (fun n c => max n c.length) 0
  cyclic := (components.filter adj.isCyclic).length

end CallTargets
