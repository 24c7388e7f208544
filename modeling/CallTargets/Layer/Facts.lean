import CallTargets.Graph.Search
import CallTargets.Layer.Basic
import CallTargets.Ordered.Map
import CallTargets.Ordered.Set
/-!
# Facts about layers

What is known about the fields of types: the functions stored into them, the fields that
are copied into others, and the fields and types about which nothing can be trusted.
-/

namespace CallTargets

structure Facts (κ : Type) where
  confined : OrdMap κ (OrdMap Field (OrdSet FunctionId)) := ∅
  propagated : OrdMap (Layer κ) (OrdSet (Layer κ)) := ∅
  /-- The layers into which something unknown was stored. -/
  escaped : OrdSet (Layer κ) := ∅
  /-- The types whose surroundings are not known. -/
  capped : OrdSet κ := ∅
  stored : OrdSet FunctionId := ∅

namespace Facts

variable {κ : Type} [DecidableEq κ]

/-! ## Recording -/

def confine (facts : Facts κ) (l : Layer κ) (f : FunctionId) : Facts κ :=
  { facts with confined := facts.confined.alter l.type fun fields =>
      (fields.getD ∅).alter l.field fun functions => (functions.getD ∅).insert f }

/-- What a layer holds may get into another one. -/
def propagate (facts : Facts κ) (target source : Layer κ) : Facts κ :=
  if target = source then facts
  else { facts with propagated := facts.propagated.alter target fun sources =>
      (sources.getD ∅).insert source }

def escape (facts : Facts κ) (l : Layer κ) : Facts κ :=
  { facts with escaped := facts.escaped.insert l }

def cap (facts : Facts κ) (t : κ) : Facts κ := { facts with capped := facts.capped.insert t }

def capAny (facts : Facts κ) (t : Option κ) : Facts κ := t.elim facts facts.cap

def markStored (facts : Facts κ) (f : FunctionId) : Facts κ :=
  { facts with stored := facts.stored.insert f }

/-- Puts other functions in the place of those that are held. -/
def mapFunctions (facts : Facts κ) (map : FunctionId → FunctionId) : Facts κ :=
  { facts with
    confined := facts.confined.mapValues fun _ fields => fields.mapValues fun _ s => s.image map
    stored := facts.stored.image map }

/-! ## Asking -/

def held (facts : Facts κ) (l : Layer κ) : OrdSet FunctionId :=
  (((facts.confined.get? l.type).bind (·.get? l.field)).getD ∅)

def sources (facts : Facts κ) (l : Layer κ) : OrdSet (Layer κ) :=
  (facts.propagated.get? l).getD ∅

/-- The field, or the whole type, cannot be trusted. -/
def isEscaped (facts : Facts κ) (l : Layer κ) : Bool :=
  l ∈ facts.escaped || l.whole ∈ facts.escaped

def isCapped (facts : Facts κ) (t : κ) : Bool := t ∈ facts.capped

/-- The functions a layer holds. A field holds what was stored into any field of its type
as well, and any field may be each of them. -/
def targets (facts : Facts κ) (l : Layer κ) : OrdSet FunctionId :=
  match l.field with
  | .any =>
    let fields := (facts.confined.get? l.type).getD ∅
    .ofList (fields.toList.flatMap fun e => e.2.toList)
  | .nth _ => (facts.held l).union (facts.held l.whole)

/-- The layers that are copied into a layer, or into the whole of its type. -/
def inflow (facts : Facts κ) (l : Layer κ) : List (Layer κ) :=
  (facts.sources l).toList ++ (facts.sources l.whole).toList

def allSources (facts : Facts κ) : List (Layer κ) :=
  facts.propagated.toList.flatMap fun e => e.2.toList

/-- The layers that may get into a layer, over any number of copies; near ones first. -/
def dependents (facts : Facts κ) (l : Layer κ) : OrdSet (Layer κ) :=
  let search : Search (Layer κ) (OrdSet (Layer κ)) Empty :=
    { turn := .oldest
      visit := fun found l => .goOn (found.insertMany (facts.inflow l)) (facts.inflow l) }
  search.explore (OrdSet.ofList (l :: facts.allSources)).toList [l] ∅

def matched (facts : Facts κ) (l : Layer κ) : OrdSet FunctionId :=
  (facts.dependents l).toList.foldl (fun s d => s.union (facts.targets d)) (facts.targets l)

end Facts

end CallTargets
