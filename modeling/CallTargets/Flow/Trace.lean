import CallTargets.Graph.Search
import CallTargets.View
/-!
# Tracing function pointers

A function pointer can be traced when all the places it may come from are in sight:
addresses of functions, conversions, joins, slots that are only loaded from and stored
to, results of direct calls, and parameters of which all arguments are known.
-/

namespace CallTargets

/-- What is known about the arguments of a parameter. -/
inductive ParamFlow where
  | known (functions : OrdSet FunctionId)
  /-- Anything may be passed. -/
  | unknown
  deriving DecidableEq

/-- What is known about function pointer parameters, by function and place. -/
structure Flow where
  params : OrdMap (FunctionId × Nat) ParamFlow := ∅

def Flow.known? (flow : Flow) (f : FunctionId) (place : Nat) : Option (OrdSet FunctionId) :=
  match flow.params.get? (f, place) with
  | some (.known functions) => some functions
  | _ => none

structure Trace where
  functions : OrdSet FunctionId := ∅
  /-- The stores and calls it came through. -/
  sites : OrdSet ValueId := ∅
  deriving DecidableEq

namespace Program

/-- The value is a variable on the stack or a global one. -/
def isSlot (p : Program) (v : ValueId) : Bool :=
  match (p.value? v).map Value.kind with
  | some (.global _) => true
  | some (.instr i) => i.opcode.isAlloca
  | _ => false

/-- The use of a slot is a load from it, or a store into it of something else. -/
def isPrivateUse (p : Program) (slot user : ValueId) : Bool :=
  match p.opcode? user with
  | some (.load _) => true
  | some (.store value ptr) => ptr = slot && value ≠ slot
  | _ => false

def privateStores? (p : Program) (slot : ValueId) : Option (List ValueId) :=
  if p.isSlot slot && (p.usersOf slot).all (p.isPrivateUse slot) then
    some ((p.usersOf slot).filter fun user => (p.store? user).isSome)
  else none

/-- What a global variable is initialised with, given its address. -/
def initOf? (p : Program) (v : ValueId) : Option ValueId :=
  (((p.value? v).bind Value.global?).bind p.global?).bind Global.init

def returned (p : Program) (f : FunctionId) : List ValueId :=
  (p.instructionsOf f).filterMap fun v =>
    match p.opcode? v with
    | some (.ret value) => value
    | _ => none

end Program

namespace Trace

/-- A trace under way, with the functions whose results were traced. -/
structure Progress where
  trace : Trace := {}
  entered : List FunctionId := []

def Progress.through (s : Progress) (sites : List ValueId) : Progress :=
  { s with trace := { s.trace with sites := s.trace.sites.insertMany sites } }

def Progress.reaches (s : Progress) (functions : List FunctionId) : Progress :=
  { s with trace := { s.trace with functions := s.trace.functions.insertMany functions } }

/-- One step back from a value. The values it may come from are traced in the opposite
order. -/
def back (view : View) (flow : Flow) (s : Progress) (v : ValueId) : Visit ValueId Progress Unit :=
  let p := view.program
  match (p.value? v).map Value.kind with
  | some (.function f) =>
    .goOn (if p.isIntrinsic f then s else s.reaches [view.definitionOf f]) []
  | some (.const .null) | some (.const .undef) => .goOn s []
  | some (.const (.cast op operand)) => if op.keepsPointer then .goOn s [operand] else .stop ()
  | some (.argument f place) =>
    match flow.known? f place with
    | some functions => .goOn (s.reaches functions.toList) []
    | none => .stop ()
  | some (.instr i) =>
    match i.opcode with
    | .cast op operand => if op.keepsPointer then .goOn s [operand] else .stop ()
    | .phi incoming => .goOn s incoming.reverse
    | .select _ ifTrue ifFalse => .goOn s [ifFalse, ifTrue]
    | .load ptr =>
      let slot := p.strip ptr
      match p.privateStores? slot with
      | some stores =>
        let stored := stores.filterMap fun store => (p.store? store).map Prod.fst
        .goOn (s.through stores) (stored ++ (p.initOf? slot).toList).reverse
      | none => .stop ()
    | .call call =>
      match view.directTarget? call.callee with
      | some f =>
        let s := s.through [v]
        if s.entered.contains f then .goOn s []
        else .goOn { s with entered := f :: s.entered } (p.returned f).reverse
      | none => .stop ()
    | _ => .stop ()
  | _ => .stop ()

def search (view : View) (flow : Flow) : Search ValueId Progress Unit :=
  { turn := .newest, visit := back view flow }

end Trace

/-- Traces a function pointer, unless something it may come from is out of sight. -/
def View.trace? (view : View) (flow : Flow) (v : ValueId) : Option Trace :=
  match ((Trace.search view flow).run view.program.valueIds [v] {}).2 with
  | .answered () => none
  | .exhausted s => some s.trace

end CallTargets
