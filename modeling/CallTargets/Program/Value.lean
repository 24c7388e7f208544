import CallTargets.Program.Id
/-!
# Values and instructions

A value is an argument, the address of a function or a global variable, a constant, or
the result of an instruction. Instructions and constants refer to other values, their
operands.
-/

namespace CallTargets

inductive CastOp where
  | bitCast
  | ptrToInt
  | intToPtr
  | addrSpaceCast
  | trunc
  | zext
  | sext
  | other
  deriving DecidableEq, Repr

def CastOp.keepsPointer : CastOp → Bool
  | bitCast | addrSpaceCast => true
  | _ => false

inductive GepIndex where
  | const (n : Int)
  | dynamic (v : ValueId)
  deriving DecidableEq, Repr

def GepIndex.const? : GepIndex → Option Int
  | const n => some n
  | dynamic _ => none

def GepIndex.value? : GepIndex → Option ValueId
  | const _ => none
  | dynamic v => some v

/-- An address computation: a pointer to `source`, moved by indices into it. -/
structure Gep where
  source : TypeId
  base : ValueId
  indices : List GepIndex
  deriving DecidableEq, Repr

def Gep.operands (g : Gep) : List ValueId := g.base :: g.indices.filterMap GepIndex.value?

structure SourceLoc where
  file : String
  line : Nat
  col : Nat
  deriving DecidableEq, Repr

def SourceLoc.text (loc : SourceLoc) : String :=
  loc.file ++ ":" ++ toString loc.line ++ ":" ++ toString loc.col

/-- A call: what is called with which arguments, as a function of which type. -/
structure Call where
  callee : ValueId
  args : List ValueId
  type : TypeId
  /-- The first argument is where the result is returned. -/
  sret : Bool
  deriving DecidableEq, Repr

inductive Opcode where
  | alloca (allocated : TypeId)
  | load (ptr : ValueId)
  | store (value ptr : ValueId)
  | gep (g : Gep)
  | cast (op : CastOp) (operand : ValueId)
  | phi (incoming : List ValueId)
  | select (condition ifTrue ifFalse : ValueId)
  | call (c : Call)
  | unary (operand : ValueId)
  | binary (lhs rhs : ValueId)
  | ret (value : Option ValueId)
  | branch (condition : Option ValueId) (targets : List BlockId)
  | unreachable
  deriving DecidableEq, Repr

namespace Opcode

/-- The values an instruction refers to; of a call, the callee last. -/
def operands : Opcode → List ValueId
  | alloca _ | unreachable => []
  | load ptr => [ptr]
  | store value ptr => [value, ptr]
  | gep g => g.operands
  | cast _ operand | unary operand => [operand]
  | phi incoming => incoming
  | select condition ifTrue ifFalse => [condition, ifTrue, ifFalse]
  | call c => c.args ++ [c.callee]
  | binary lhs rhs => [lhs, rhs]
  | ret value => value.toList
  | branch condition _ => condition.toList

def isTerminator : Opcode → Bool
  | ret _ | branch .. | unreachable => true
  | _ => false

def isCall : Opcode → Bool
  | call _ => true
  | _ => false

def isLoad : Opcode → Bool
  | load _ => true
  | _ => false

def isAlloca : Opcode → Bool
  | alloca _ => true
  | _ => false

end Opcode

structure Instr where
  function : FunctionId
  block : BlockId
  opcode : Opcode
  loc : Option SourceLoc
  deriving DecidableEq, Repr

inductive Const where
  | null
  | undef
  | int (n : Int)
  | aggregate (elements : List ValueId)
  | cast (op : CastOp) (operand : ValueId)
  | gep (g : Gep)
  deriving DecidableEq, Repr

namespace Const

def isData : Const → Bool
  | null | undef | int _ => true
  | _ => false

def isAggregate : Const → Bool
  | aggregate _ => true
  | _ => false

def operands : Const → List ValueId
  | null | undef | int _ => []
  | aggregate elements => elements
  | cast _ operand => [operand]
  | gep g => g.operands

end Const

inductive ValueKind where
  | argument (function : FunctionId) (index : Nat)
  | function (f : FunctionId)
  | global (g : GlobalId)
  | const (c : Const)
  | instr (i : Instr)
  deriving DecidableEq, Repr

structure Value where
  type : TypeId
  name : Option String
  kind : ValueKind
  deriving DecidableEq, Repr

namespace Value

def instr? (v : Value) : Option Instr :=
  match v.kind with
  | .instr i => some i
  | _ => none

def const? (v : Value) : Option Const :=
  match v.kind with
  | .const c => some c
  | _ => none

def function? (v : Value) : Option FunctionId :=
  match v.kind with
  | .function f => some f
  | _ => none

def global? (v : Value) : Option GlobalId :=
  match v.kind with
  | .global g => some g
  | _ => none

def isArgument (v : Value) : Bool :=
  match v.kind with
  | .argument .. => true
  | _ => false

def isConstant (v : Value) : Bool :=
  match v.kind with
  | .const _ | .global _ | .function _ => true
  | _ => false

def operands (v : Value) : List ValueId :=
  match v.kind with
  | .instr i => i.opcode.operands
  | .const c => c.operands
  | _ => []

end Value

end CallTargets
