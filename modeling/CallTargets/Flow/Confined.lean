import CallTargets.Flow.Trace
/-!
# Functions that no unknown call can reach

A function is confined if all uses of its address are in sight: it is called directly,
passed to a library function that calls it back, or kept in slots from which it is only
loaded to be called, by calls that can be traced. Any other indirect call cannot reach
it.
-/

namespace CallTargets

/-- Library functions that call back, with the place of the argument that they call. -/
def callbacks : List (String × Nat) :=
  [("pthread_create", 2), ("thrd_create", 1), ("signal", 1), ("qsort", 3), ("bsearch", 4)]

def callbackPlace? (name : String) : Option Nat := callbacks.lookup name

namespace View

def isPlainCall (view : View) (v : ValueId) (call : Call) : Bool :=
  let place := (view.program.baseFunction? call.callee).bind fun f =>
    callbackPlace? (view.program.functionName f)
  call.args.zipIdx.all fun (arg, i) => arg ≠ v || place = some i

/-- A use of a loaded value: a call of it that can be traced, or a step to another value with
the same uses to check. -/
def invokedUse? (view : View) (flow : Flow) (v user : ValueId) : Option (List ValueId) :=
  match view.program.opcode? user with
  | some (.call call) =>
    if call.callee = v && !call.args.contains v && (view.trace? flow v).isSome then some []
    else none
  | some (.cast op _) => if op.keepsPointer then some [user] else none
  | some (.phi _) => some [user]
  | some (.select condition _ _) => if condition ≠ v then some [user] else none
  | _ => none

def isOnlyInvoked (view : View) (flow : Flow) (v : ValueId) : Bool :=
  let search : Search ValueId Unit Unit :=
    { turn := .newest
      visit := fun _ v =>
        match (view.program.usersOf v).mapM (view.invokedUse? flow v) with
        | some next => .goOn () next.flatten
        | none => .stop () }
  match (search.run view.program.valueIds [v] ()).2 with
  | .answered _ => false
  | .exhausted _ => true

/-- The slot is private, and what is loaded from it is only used to be called. -/
def isCallSlot (view : View) (flow : Flow) (slot : ValueId) : Bool :=
  (view.program.privateStores? slot).isSome &&
    ((view.program.usersOf slot).filter fun user => (view.program.load? user).isSome).all
      (view.isOnlyInvoked flow)

/-- A use of an address that is in sight, with the further values to check. -/
def confinedUse? (view : View) (flow : Flow) (v user : ValueId) : Option (List ValueId) :=
  let p := view.program
  match (p.value? user).map Value.kind with
  | some (.instr i) =>
    match i.opcode with
    | .call call => if view.isPlainCall v call then some [] else none
    | .store stored ptr =>
      if stored = v && ptr ≠ v && view.isCallSlot flow ptr then some [] else none
    | _ => none
  | some (.global g) =>
    match p.global? g with
    | some global =>
      if global.init = some v && !global.linkage.isExternal && view.isCallSlot flow user then
        some []
      else none
    | none => none
  | some (.const (.cast op _)) => if op.keepsPointer then some [user] else none
  | _ => none

/-- All uses of a function's address are in sight. -/
def isConfined (view : View) (flow : Flow) (f : FunctionId) : Bool :=
  let search : Search ValueId Unit Unit :=
    { turn := .newest
      visit := fun _ v =>
        match (view.program.usersOf v).mapM (view.confinedUse? flow v) with
        | some next => .goOn () next.flatten
        | none => .stop () }
  match view.program.function? f with
  | some { value, .. } =>
    match (search.run view.program.valueIds [value] ()).2 with
    | .answered _ => false
    | .exhausted _ => true
  | none => false

end View

end CallTargets
