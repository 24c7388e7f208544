import CallTargets.Flow.Trace
import CallTargets.Layer.Facts
import CallTargets.Layer.Walk
/-!
# Functions confined to layers

A function whose address is stored into a field is confined to all layers behind the
pointer it is stored through. Initial values of global variables confine functions to
every aggregate they stand in.
-/

namespace CallTargets

/-- The layers that are known behind a pointer. -/
def View.chain (view : View) (aliases : OrdMap ValueId ValueId) (v : ValueId) :
    List (Layer TypeKey) := (view.program.typeChain aliases v).1.map view.layer

/-- The outermost type behind a pointer, if its surroundings are not known. -/
def View.cap? (view : View) (aliases : OrdMap ValueId ValueId) (v : ValueId) : Option TypeKey :=
  if (view.program.typeChain aliases v).2 then none
  else (view.chain aliases v).getLast?.map Layer.type

structure Gathered where
  facts : Facts TypeKey := {}
  /-- Untyped results of calls, with the only conversion that types them. -/
  aliases : OrdMap ValueId ValueId := ∅
  tracedStores : OrdSet ValueId := ∅

namespace Gathered

/-! ## Layers behind a pointer -/

def record (g : Gathered) (change : Facts TypeKey → Facts TypeKey) : Gathered :=
  { g with facts := change g.facts }

def recordChain (view : View) (g : Gathered) (v : ValueId)
    (change : Facts TypeKey → Layer TypeKey → Facts TypeKey) : Gathered :=
  g.record fun facts =>
    (view.chain g.aliases v).foldl change (facts.capAny (view.cap? g.aliases v))

/-- A function is held by what a pointer points to. -/
def confineTarget (view : View) (g : Gathered) (target : ValueId) (f : FunctionId) : Gathered :=
  if view.program.isIntrinsic f then g
  else (g.record (·.markStored f)).recordChain view target fun facts l => facts.confine l f

/-! ## Untyped results of calls -/

/-- The call whose untyped result a conversion turns into a pointer to a composite type. -/
def aliasOf? (p : Program) (v : ValueId) : Option ValueId :=
  match p.opcode? v with
  | some (.cast _ operand) =>
    let isRaw := (p.pointee? operand).bind p.types.get? = some (.integer 8)
    if (p.opcode? operand).any Opcode.isCall && isRaw
        && (p.pointee? v).any p.types.isComposite then some operand
    else none
  | _ => none

/-- Remembers results of calls that have one conversion of that kind only. -/
def recover (p : Program) (known : OrdMap ValueId ValueId) (f : FunctionId) :
    OrdMap ValueId ValueId :=
  let found : OrdMap ValueId (Option ValueId) := (p.instructionsOf f).foldl
    (fun found v =>
      match aliasOf? p v with
      | some call => found.alter call fun
        | none => some v
        | some _ => none
      | none => found) ∅
  found.toList.foldl (fun known (call, conversion) => conversion.elim known (known.insert call))
    known

def collectAliases (p : Program) (g : Gathered) (f : FunctionId) : Gathered :=
  { g with aliases := recover p g.aliases f }

/-! ## Initial values -/

inductive Element where
  | function (f : FunctionId)
  | nested (v : ValueId)
  /-- A pointer to another variable, by which a type loses its surroundings. -/
  | capped (t : TypeId)
  | other

def convertedElement (p : Program) (container operand : ValueId) : Element :=
  match (p.value? operand).map Value.kind with
  | some (.function f) => .function f
  | some (.global inner) =>
    if ((p.global? inner).map Global.type).any p.types.isStruct then .capped (p.typeOf container)
    else .other
  | _ => .nested operand

def plainElement (p : Program) (v : ValueId) : Element :=
  match p.pointee? v, (p.value? v).bind Value.global? with
  | some pointee, some _ => if p.types.isStruct pointee then .capped pointee else .other
  | _, _ => if p.isPointer v then .nested v else .other

def element (p : Program) (container v : ValueId) : Element :=
  match (p.value? v).bind Value.function? with
  | some f => .function f
  | none =>
    if p.isComposite v then .nested v
    else match p.cast? v with
      | some (.bitCast, operand) | some (.ptrToInt, operand) =>
        convertedElement p container operand
      | _ => plainElement p v

/-- Aggregates by their elements: which one an element was found in last, and where. -/
abbrev Containers := OrdMap ValueId (ValueId × Nat)

def Containers.wayOut (containers : Containers) :
    Search ValueId (List (ValueId × Nat)) Empty where
  turn := .newest
  visit := fun found v =>
    match containers.get? v with
    | some (container, slot) => .goOn (found ++ [(container, slot)]) [container]
    | none => .goOn found []

/-- The aggregates around an element, from the inside out. -/
def Containers.around (containers : Containers) (v : ValueId) : List (ValueId × Nat) :=
  containers.wayOut.explore containers.keys [v] []

def confineElement (view : View) (containers : Containers) (facts : Facts TypeKey) (v : ValueId)
    (f : FunctionId) : Facts TypeKey :=
  if view.program.isIntrinsic f then facts
  else (containers.around v).foldl
    (fun facts (container, slot) =>
      facts.confine ⟨view.typeKey (view.program.typeOf container), .nth slot⟩ f)
    (facts.markStored f)

def visitElement (view : View) (v : ValueId) (state : Facts TypeKey × Containers × List ValueId)
    (e : ValueId × Nat) : Facts TypeKey × Containers × List ValueId :=
  let containers := state.2.1.insert e.1 (v, e.2)
  match element view.program v e.1 with
  | .function f => (confineElement view containers state.1 e.1 f, containers, state.2.2)
  | .nested inner => (state.1, containers, state.2.2 ++ [inner])
  | .capped t => (state.1.cap (view.typeKey t), containers, state.2.2)
  | .other => (state.1, containers, state.2.2)

/-- A look at an aggregate, which leads to the elements that may hold further addresses. -/
def visitAggregate (view : View) (state : Facts TypeKey × Containers) (v : ValueId) :
    Visit ValueId (Facts TypeKey × Containers) Empty :=
  let found := ((view.program.elements? v).getD []).zipIdx.foldl (visitElement view v)
    (state.1, state.2, [])
  .goOn (found.1, found.2.1) found.2.2

def aggregateSearch (view : View) : Search ValueId (Facts TypeKey × Containers) Empty :=
  { turn := .oldest, visit := visitAggregate view }

def linkerLists : List String := ["llvm.compiler.used", "llvm.used"]

def confineInit (view : View) (g : Gathered) (id : GlobalId) : Gathered :=
  match view.program.global? id with
  | some { name, init := some init, .. } =>
    if linkerLists.contains name || (view.program.elements? init).isNone then g
    else
      { g with
        facts := ((aggregateSearch view).explore view.program.valueIds [init] (g.facts, ∅)).1 }
  | _ => g

/-! ## Stores and calls -/

/-- Confines what a store stores: a function, or, if the flow is known, the functions that a
function pointer was traced to. -/
def confineStore (view : View) (flow : Option Flow) (g : Gathered) (store value ptr : ValueId) :
    Gathered :=
  match view.program.baseFunction? value with
  | some f => g.confineTarget view ptr f
  | none =>
    if (view.program.functionPointee? (view.program.strip value)).isNone then g
    else match flow.bind (view.trace? · value) with
      | some trace =>
        if trace.functions.isEmpty then g
        else
          let g := trace.functions.toList.foldl (fun g f => g.confineTarget view ptr f) g
          { g with tracedStores := g.tracedStores.insert store }
      | none => g

def confineUse (view : View) (param : ValueId) (f : FunctionId) (g : Gathered) (user : ValueId) :
    Gathered :=
  match view.program.opcode? user with
  | some (.store value ptr) => if value = param then g.confineTarget view ptr f else g
  | _ => if (view.program.bitCast? user).isSome then g.confineTarget view user f else g

/-- Confines a function that is passed to a parameter: it is held by what the parameter is
stored into, and by conversions of the parameter. -/
def confineParam (view : View) (g : Gathered) (param : ValueId) (f : FunctionId) : Gathered :=
  (view.program.usersOf param).foldl (confineUse view param f) g

def confineArg (view : View) (call : Call) (g : Gathered) (arg : ValueId × Nat) : Gathered :=
  match ((view.program.value? arg.1).bind Value.function?).filter
      fun f => !view.program.isIntrinsic f with
  | some f =>
    match (view.program.baseFunction? call.callee).map view.definitionOf with
    | none => g.confineTarget view arg.1 f
    | some callee =>
      match (view.program.function? callee).filter fun callee => !callee.isDeclaration with
      | some callee =>
        match callee.params[arg.2]? with
        | some param => g.confineParam view param f
        | none => g
      | none => g
  | none => g

def confineArgs (view : View) (g : Gathered) (call : Call) : Gathered :=
  call.args.zipIdx.foldl (confineArg view call) g

/-- Confines the functions that an instruction stores or passes. -/
def confineInstr (view : View) (flow : Option Flow) (g : Gathered) (v : ValueId) : Gathered :=
  match view.program.opcode? v with
  | some (.store value ptr) => g.confineStore view flow v value ptr
  | some (.call call) => g.confineArgs view call
  | _ => g

def confineIn (view : View) (flow : Option Flow) (g : Gathered) (f : FunctionId) : Gathered :=
  (view.program.instructionsOf f).foldl (confineInstr view flow) g

end Gathered

end CallTargets
