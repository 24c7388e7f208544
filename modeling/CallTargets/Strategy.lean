/-!
# Strategies

How the targets of calls through pointers are found. Each way to answer indirect calls
refines the one before it; virtual calls are answered by the class hierarchy, or not at
all.
-/

namespace CallTargets

structure LayerOptions where
  /-- The number of layers that may be used, the signature included. -/
  max : Nat := 10
  /-- Function pointers that are stored are traced. -/
  dataflow : Bool := false
  deriving DecidableEq, Repr

namespace LayerOptions

/-- The number of layers that may be used; the signature always may. -/
def limit (o : LayerOptions) : Nat := Nat.max 1 o.max

def name (o : LayerOptions) : String := if o.dataflow then "DataflowEnhanced" else "MultiLayer"

end LayerOptions

inductive Indirect where
  | signature
  | layers (options : LayerOptions)
  /-- Calls that can be traced are answered by their traces, others by layers. -/
  | pointerFlow (options : LayerOptions)
  deriving DecidableEq, Repr

namespace Indirect

def options? : Indirect → Option LayerOptions
  | signature => none
  | layers options | pointerFlow options => some options

def traces : Indirect → Bool
  | pointerFlow _ => true
  | _ => false

/-- The name of the way, and of those that it refines. -/
def names : Indirect → List String
  | signature => ["Signature"]
  | layers options => [options.name, "Signature"]
  | pointerFlow options => ["PointerFlow", options.name, "Signature"]

end Indirect

structure Strategy where
  indirect : Indirect
  classes : Bool := true
  deriving DecidableEq, Repr

/-- The names of the ways that a strategy combines, the outermost first. -/
def Strategy.names (s : Strategy) : List String :=
  (if s.classes then ["ClassHierarchy"] else []) ++ s.indirect.names

def Strategy.name (s : Strategy) : String := s.names.headD ""

end CallTargets
