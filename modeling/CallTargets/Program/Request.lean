import CallTargets.Program.Build
/-!
# Requests

Everything that can be asked of a program under construction. A request names entities
that are there and may yield the names of new ones.
-/

namespace CallTargets

inductive Entity where
  | type (t : TypeId)
  | value (v : ValueId)
  | function (f : FunctionId)
  | global (g : GlobalId)
  | module (m : ModuleId)
  | block (f : FunctionId) (b : BlockId)
  deriving DecidableEq, Repr

def Entity.index : Entity → Nat
  | type t => t.index
  | value v => v.index
  | function f => f.index
  | global g => g.index
  | module m => m.index
  | block _ b => b.index

/-! ## Instructions -/

/-- An instruction to be. What follows from its operands is left out. -/
inductive InstrRequest where
  | alloca (type : TypeId)
  | load (ptr : ValueId)
  | store (value ptr : ValueId)
  | gep (base : ValueId) (indices : List GepIndex)
  | cast (op : CastOp) (operand : ValueId) (type : TypeId)
  | phi (type : TypeId) (incoming : List ValueId)
  | select (condition ifTrue ifFalse : ValueId)
  | unary (operand : ValueId)
  | binary (lhs rhs : ValueId)
  | call (callee : ValueId) (args : List ValueId) (sret : Bool)
  | ret (value : Option ValueId)
  | branch (condition : Option ValueId) (targets : List BlockId)
  | unreachable
  deriving DecidableEq, Repr

inductive ResultType where
  | old (t : TypeId)
  | made (ty : Ty)
  deriving DecidableEq, Repr

def Program.addResultType (p : Program) : ResultType → TypeId × Program
  | .old t => (t, p)
  | .made ty => p.addType ty

def Program.addResult (p : Program) (site : Site) (type : ResultType) (opcode : Opcode)
    (name : Option String) : ValueId × Program :=
  let (type, p) := p.addResultType type
  let (v, p) := p.addInstr site type opcode
  (v, name.elim p (p.nameValue v))

namespace InstrRequest

def opcode : InstrRequest → Build (ResultType × Opcode)
  | alloca type => return (.made (.pointer type), .alloca type)
  | load ptr => return (.old (← Build.pointee ptr), .load ptr)
  | store value ptr => return (.made .void, .store value ptr)
  | gep base indices => do
    let (g, target) ← Build.gep base indices
    return (.made (.pointer target), .gep g)
  | cast op operand type => return (.old type, .cast op operand)
  | phi type incoming => return (.old type, .phi incoming)
  | select condition ifTrue ifFalse =>
    return (.old (← Build.value ifTrue).type, .select condition ifTrue ifFalse)
  | unary operand => return (.old (← Build.value operand).type, .unary operand)
  | binary lhs rhs => return (.old (← Build.value lhs).type, .binary lhs rhs)
  | call callee args sret => do
    let (c, result) ← Build.call callee args sret
    return (.old result, .call c)
  | ret value => return (.made .void, .ret value)
  | branch condition targets => return (.made .void, .branch condition targets)
  | unreachable => return (.made .void, .unreachable)

def entities (f : FunctionId) : InstrRequest → List Entity
  | alloca type => [.type type]
  | load ptr => [.value ptr]
  | store value ptr => [.value value, .value ptr]
  | gep base indices => .value base :: (indices.filterMap GepIndex.value?).map .value
  | cast _ operand type => [.value operand, .type type]
  | phi type incoming => .type type :: incoming.map .value
  | select condition ifTrue ifFalse => [.value condition, .value ifTrue, .value ifFalse]
  | unary operand => [.value operand]
  | binary lhs rhs => [.value lhs, .value rhs]
  | call callee args _ => .value callee :: args.map .value
  | ret value => value.toList.map .value
  | branch condition targets => condition.toList.map .value ++ targets.map (.block f)
  | unreachable => []

end InstrRequest

/-! ## All requests -/

inductive Request where
  | intern (ty : Ty)
  | bytePointer
  | lookup (name : String)
  | setBody (t : TypeId) (fields : List TypeId)
  | defineStruct (name : String) (fields : List TypeId)
  /-- Look-ups of types are brought up to date, which they are at any time. -/
  | reindex
  | addModule (name : String)
  | addStruct (m : ModuleId) (name : String) (fields : List TypeId)
  | declare (m : ModuleId) (name : String) (type : TypeId)
  /-- Declares a function and opens its first block. -/
  | define (m : ModuleId) (name : String) (type : TypeId)
  | setLinkage (f : FunctionId) (linkage : Linkage)
  | functionValue (f : FunctionId)
  | param (f : FunctionId) (index : Nat)
  | addGlobal (m : ModuleId) (name : String) (type : TypeId) (init : Option ValueId)
  | setInit (g : GlobalId) (init : ValueId)
  | setGlobalLinkage (g : GlobalId) (linkage : Linkage)
  | globalValue (g : GlobalId)
  | nameValue (v : ValueId) (name : String)
  | null (type : TypeId)
  | undef (type : TypeId)
  | int (type : TypeId) (n : Int)
  | aggregate (type : TypeId) (elements : List ValueId)
  | constCast (op : CastOp) (operand : ValueId) (type : TypeId)
  | constGep (base : ValueId) (indices : List Int)
  /-- Opens the first block of a function, unless it is open. -/
  | enter (f : FunctionId)
  | addBlock (f : FunctionId)
  /-- Adds an instruction, with a name for its result if one is given. -/
  | instr (site : Site) (i : InstrRequest) (name : Option String)
  deriving DecidableEq, Repr

namespace Request

def entities : Request → List Entity
  | intern ty => ty.parts.map .type
  | bytePointer | lookup _ | reindex | addModule _ => []
  | setBody t fields => .type t :: fields.map .type
  | defineStruct _ fields => fields.map .type
  | addStruct m _ fields => .module m :: fields.map .type
  | declare m _ type | define m _ type => [.module m, .type type]
  | setLinkage f _ | functionValue f | param f _ | enter f | addBlock f => [.function f]
  | addGlobal m _ type init => .module m :: .type type :: init.toList.map .value
  | setInit g init => [.global g, .value init]
  | setGlobalLinkage g _ | globalValue g => [.global g]
  | nameValue v _ => [.value v]
  | null type | undef type | int type _ => [.type type]
  | aggregate type elements => .type type :: elements.map .value
  | constCast _ operand type => [.value operand, .type type]
  | constGep base _ => [.value base]
  | instr site i _ => .block site.function site.block :: i.entities site.function

section Perform

open Build

def addConst (type : TypeId) (c : Const) : Build (List Entity) := do
  return [.value (← update (·.addValue type (.const c)))]

/-- Does what a request asks for, and yields the names of what was made or found. A function
that is opened comes with its first block. -/
def perform : Request → Build (List Entity)
  | intern ty => return [.type (← update (·.addType ty))]
  | bytePointer => return [.type (← update fun p =>
      let (byte, p) := p.addType (.integer 8)
      p.addType (.pointer byte))]
  | lookup name => return ((← get).types.lookupStruct? name).toList.map .type
  | setBody t fields => do
    let types ← ask (·.types.setBody t fields)
    update fun p => ([], { p with types })
  | defineStruct name fields => do
    let (t, types) ← ask (·.types.defineStruct name fields)
    update fun p => ([.type t], { p with types })
  | reindex => return []
  | addModule name => return [.module (← update (·.addModule name))]
  | addStruct m name fields => do
    let _ ← module m
    let (t, types) ← ask (·.types.defineStruct name fields)
    update fun p => ([.type t], { p with types }.listStruct m t)
  | declare m name type => do
    let params ← paramTypes type
    let _ ← module m
    return [.function (← update (·.addFunction m name type params))]
  | define m name type => do
    let params ← paramTypes type
    let _ ← module m
    let f ← update fun p =>
      let (f, p) := p.addFunction m name type params
      (f, p.openEntry f)
    return [.function f, .block f .entry]
  | setLinkage f linkage => do
    let _ ← function f
    update fun p => ([], p.changeFunction f fun f => { f with linkage })
  | functionValue f => return [.value (← function f).value]
  | param f index => return [.value (← Build.param f index)]
  | addGlobal m name type init => do
    let _ ← module m
    return [.global (← update (·.addGlobal m name type init))]
  | setInit g init => do
    let _ ← global g
    update fun p => ([], p.changeGlobal g fun g => { g with init := some init })
  | setGlobalLinkage g linkage => do
    let _ ← global g
    update fun p => ([], p.changeGlobal g fun g => { g with linkage })
  | globalValue g => return [.value (← global g).value]
  | nameValue v name => do
    let _ ← value v
    update fun p => ([], p.nameValue v name)
  | null type => addConst type .null
  | undef type => addConst type .undef
  | int type n => addConst type (.int n)
  | aggregate type elements => addConst type (.aggregate elements)
  | constCast op operand type => addConst type (.cast op operand)
  | constGep base indices => do
    let (g, target) ← gep base (indices.map .const)
    return [.value (← update (·.addConstGep g target))]
  | enter f => do
    let _ ← function f
    update fun p => ([.function f, .block f .entry], p.openEntry f)
  | addBlock f => do
    let { blocks, .. } ← function f
    update fun p => ([.block f ⟨blocks.length⟩], p.appendBlock f)
  | instr site i name => do
    let (type, opcode) ← i.opcode
    let _ ← block site
    return [.value (← update (·.addResult site type opcode name))]

end Perform

end Request

end CallTargets
