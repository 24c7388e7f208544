import CallTargets.Class.Hierarchy
import CallTargets.Program.Basic
/-!
# Constructors and destructors

A constructor calls those of the base classes on its own object, and stores the addresses
of vtables into it. Destructors do the same. Both tell from which classes a class
inherits.
-/

namespace CallTargets

namespace Structor

/-- The value is a given parameter, or was loaded from a variable into which the parameter
was stored. -/
def isSameObject (p : Program) (this v : ValueId) : Bool :=
  let target := p.strip v
  v = this || target = this || (p.usersOf this).any fun user =>
    match p.store? user with
    | some (value, ptr) =>
      value = this && (p.usersOf ptr).any fun load => load = target && p.load? load = some ptr
    | none => false

def vtable? (p : Program) (v : ValueId) : Option String := do
  match ← p.const? (p.strip v) with
  | .gep g =>
    let global ← p.global? (← (← p.value? (p.strip g.base)).global?)
    if global.isVtable then some global.name else none
  | _ => none

/-- The class that an instruction of a constructor or destructor shows to be a base. -/
def base? (p : Program) (this v : ValueId) : Option String := do
  match ← p.opcode? v with
  | .call call =>
    let callee := p.functionName (← p.baseFunction? call.callee)
    let arg ← call.args[call.sret.toNat]?
    if Symbol.isStructor callee && (p.callSite? (p.strip arg)).isNone &&
        isSameObject p this arg then
      (Symbol.Method.ofSymbol? callee).map Symbol.Method.owner
    else none
  | .store value _ => Symbol.vtableClass? (← vtable? p value)
  | _ => none

/-- Adds that a class inherits from another one, and counts that if it is new. -/
def countInherit (c : String) (state : Nat × Hierarchy) (base : String) : Nat × Hierarchy :=
  let (isNew, h) := state.2.inherit c base
  (state.1 + isNew.toNat, h)

/-- Records what one constructor or destructor shows, and counts the new facts. -/
def record (p : Program) (state : Nat × Hierarchy) (f : Function) : Nat × Hierarchy :=
  match Symbol.Method.ofSymbol? f.name with
  | some { owner, .. } =>
    let state := (state.1, state.2.addClass owner)
    match f.params.head? with
    | some this => (f.instructions.filterMap (base? p this)).foldl (countInherit owner) state
    | none => state
  | none => state

/-- Records the constructors and destructors of a module, and counts the new facts. -/
def scan (p : Program) (h : Hierarchy) (m : Module) : Nat × Hierarchy :=
  ((m.functions.filterMap p.function?).filter fun f =>
    !f.isDeclaration && Symbol.isStructor f.name).foldl (record p) (0, h)

end Structor

end CallTargets
