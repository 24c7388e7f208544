import CallTargets.Class.Hierarchy
import CallTargets.View
/-!
# Virtual calls

A virtual call loads the function it calls from a slot of a vtable, which it loaded
before under a name that says so. It reaches what is in that slot in the class of its
object and in those that inherit from it.
-/

namespace CallTargets

namespace Dispatch

/-- The address computation, if its base was loaded as a vtable and it has one index. -/
def slotAt? (p : Program) (address : ValueId) : Option Gep := do
  match ← p.opcode? address with
  | .gep g =>
    let isVtable := (p.load? g.base).isSome &&
      ((p.value? g.base).bind Value.name).any fun name => Text.contains name "vtable"
    if isVtable && g.indices.length = 1 then some g else none
  | _ => none

def slotAddress? (p : Program) (call : Call) : Option Gep :=
  call.args.head?.bind fun arg =>
    if (p.baseFunction? call.callee).isSome || !p.isPointer arg then none
    else (p.load? call.callee).bind (slotAt? p)

def isVirtual (p : Program) (call : Call) : Bool := (slotAddress? p call).isSome

/-- The place of a slot in its table, if it is known. -/
def place? (g : Gep) : Option Nat := do
  let n ← (← g.indices.head?).const?
  if 0 ≤ n then some n.toNat else none

def slot? (p : Program) (call : Call) : Option Nat := (slotAddress? p call).bind place?

/-- The object a method is called on: the first argument, or the second one behind the place
of the result. -/
def object? (call : Call) : Option ValueId := call.args[call.sret.toNat]?

def className? (struct : String) : Option String :=
  ((Text.dropLead? struct "class.") <|> (Text.dropLead? struct "struct.")).map Normal.structName

def classAt? (p : Program) (v : ValueId) : Option String :=
  (p.pointee? v).bind fun t => (p.types.structName? t).bind className?

/-- The class of an object by the type of its pointer, before or behind conversions. -/
def staticClass? (p : Program) (v : ValueId) : Option String :=
  (classAt? p v).or (classAt? p (p.strip v))

/-- A name is that of the expected method; destructors are all alike, and a name that cannot
be read may be any. -/
def isSameMethod (expected : Symbol.Method) (name : String) : Bool :=
  match Symbol.Method.ofSymbol? name with
  | some candidate =>
    if Text.startsWith expected.name "~" then Text.startsWith candidate.name "~"
    else candidate.name = expected.name
  | none => true

def expected? (p : Program) (h : Hierarchy) (c : String) (slot : Nat) : Option Symbol.Method :=
  (((h.tablesOf c).filterMap (·[slot]?)).map p.functionName).findSome? fun name =>
    if name = Symbol.pureVirtual then none else Symbol.Method.ofSymbol? name

def entries (slot : Option Nat) (table : List FunctionId) : List FunctionId :=
  match slot with
  | some k => table[k]?.toList
  | none => table

def classesFrom (h : Hierarchy) (known : Option String) : OrdSet String :=
  match known with
  | some c => h.descendants c
  | none => h.classes

/-- The functions that a call may select in the tables of some classes. -/
def candidates (h : Hierarchy) (classes : OrdSet String) (slot : Option Nat) : List FunctionId :=
  classes.toList.flatMap fun c => (h.tablesOf c).flatMap (entries slot)

/-- A virtual call may reach the function, by its name and signature. -/
def isTarget (view : View) (call : Call) (expected : Option Symbol.Method) (f : FunctionId) :
    Bool :=
  view.program.functionName f ≠ Symbol.pureVirtual &&
    view.signatureOf f = view.signature call.type &&
    expected.all fun method => isSameMethod method (view.program.functionName f)

def targets (view : View) (h : Hierarchy) (call : Call) : OrdSet FunctionId :=
  match object? call with
  | some this =>
    let slot := slot? view.program call
    let known := (staticClass? view.program this).filter (· ∈ h.classes)
    let expected := known.bind fun c => slot.bind (expected? view.program h c)
    let found := (candidates h (classesFrom h known) slot).filter (isTarget view call expected)
    .ofList (found.map view.definitionOf)
  | none => ∅

end Dispatch

end CallTargets
