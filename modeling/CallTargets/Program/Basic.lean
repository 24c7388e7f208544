import CallTargets.Program.Value
import CallTargets.Text.Basic
import CallTargets.Ty.Table
/-!
# Programs

A program has types, values, functions, global variables and modules, each named by its
place. Look-ups by name are partial: a name that is out of range yields nothing.
-/

namespace CallTargets

inductive Linkage where
  | external
  | weak
  | linkOnce
  | internal
  | priv
  deriving DecidableEq, Inhabited, Repr

/-- The name can be seen in other modules. -/
def Linkage.isExternal : Linkage → Bool
  | external | weak | linkOnce => true
  | internal | priv => false

structure Block where
  id : BlockId
  instructions : List ValueId := []
  deriving DecidableEq, Repr

/-- The instruction behind the first occurrence of another one. -/
def Block.next? (b : Block) (v : ValueId) : Option ValueId :=
  (b.instructions.dropWhile (· ≠ v)).tail.head?

/-- A function. Without blocks it is only declared. -/
structure Function where
  name : String
  type : TypeId
  module : ModuleId
  linkage : Linkage := .external
  params : List ValueId
  blocks : List Block := []
  value : ValueId
  /-- The address is used other than to call the function. -/
  addressTaken : Bool := false
  deriving DecidableEq, Repr

namespace Function

def isDeclaration (f : Function) : Bool := f.blocks.isEmpty

def isIntrinsic (f : Function) : Bool := Text.startsWith f.name "llvm."

def instructions (f : Function) : List ValueId := f.blocks.flatMap Block.instructions

end Function

structure Global where
  name : String
  module : ModuleId
  type : TypeId
  value : ValueId
  init : Option ValueId
  linkage : Linkage := .external
  isConstant : Bool := false
  deriving DecidableEq, Repr

namespace Global

def isVtable (g : Global) : Bool := Text.startsWith g.name "_ZTV"

/-- The variable describes a class at run time. -/
def isTypeinfo (g : Global) : Bool := Text.startsWith g.name "_ZTI"

end Global

structure Module where
  id : ModuleId
  name : String
  functions : List FunctionId := []
  globals : List GlobalId := []
  structs : List TypeId := []
  deriving DecidableEq, Repr

structure Program where
  types : TypeTable := {}
  values : Array Value := #[]
  functions : Array Function := #[]
  globals : Array Global := #[]
  modules : Array Module := #[]
  users : Array (List ValueId) := #[]
  deriving DecidableEq, Inhabited, Repr

structure CallSite where
  id : ValueId
  caller : FunctionId
  call : Call
  loc : Option SourceLoc
  deriving DecidableEq, Repr

namespace Program

/-! ## Look-ups -/

def value? (p : Program) (v : ValueId) : Option Value := p.values[v.index]?

def function? (p : Program) (f : FunctionId) : Option Function := p.functions[f.index]?

def global? (p : Program) (g : GlobalId) : Option Global := p.globals[g.index]?

def module? (p : Program) (m : ModuleId) : Option Module := p.modules[m.index]?

def valueIds (p : Program) : List ValueId := (List.range p.values.size).map ValueId.mk

def functionIds (p : Program) : List FunctionId := (List.range p.functions.size).map FunctionId.mk

def globalIds (p : Program) : List GlobalId := (List.range p.globals.size).map GlobalId.mk

def moduleIds (p : Program) : List ModuleId := p.modules.toList.map Module.id

def functionNamed? (p : Program) (name : String) : Option FunctionId :=
  (p.functions.findIdx? fun f => f.name = name).map FunctionId.mk

def globalNamed? (p : Program) (name : String) : Option GlobalId :=
  (p.globals.findIdx? fun g => g.name = name).map GlobalId.mk

/-! ## Values -/

def type? (p : Program) (v : ValueId) : Option TypeId := (p.value? v).map Value.type

def typeOf (p : Program) (v : ValueId) : TypeId := (p.type? v).getD default

def pointee? (p : Program) (v : ValueId) : Option TypeId := (p.type? v).bind p.types.pointee?

def isPointer (p : Program) (v : ValueId) : Bool := (p.type? v).any p.types.isPointer

def isComposite (p : Program) (v : ValueId) : Bool := (p.type? v).any p.types.isComposite

def functionPointee? (p : Program) (v : ValueId) : Option TypeId :=
  (p.type? v).bind p.types.functionPointee?

def isArgument (p : Program) (v : ValueId) : Bool := (p.value? v).any Value.isArgument

def const? (p : Program) (v : ValueId) : Option Const := (p.value? v).bind Value.const?

def instr? (p : Program) (v : ValueId) : Option Instr := (p.value? v).bind Value.instr?

def opcode? (p : Program) (v : ValueId) : Option Opcode := (p.instr? v).map Instr.opcode

def operands (p : Program) (v : ValueId) : List ValueId := ((p.value? v).map Value.operands).getD []

/-- The values that use a value, each once and in order, and then the addresses of the
variables it initialises. -/
def usersOf (p : Program) (v : ValueId) : List ValueId := p.users[v.index]?.getD []

/-- The conversion a value is, as an instruction or a constant. -/
def cast? (p : Program) (v : ValueId) : Option (CastOp × ValueId) :=
  match (p.value? v).map Value.kind with
  | some (.instr { opcode := .cast op operand, .. }) => some (op, operand)
  | some (.const (.cast op operand)) => some (op, operand)
  | _ => none

def bitCast? (p : Program) (v : ValueId) : Option ValueId :=
  match p.cast? v with
  | some (.bitCast, operand) => some operand
  | _ => none

/-- The address computation a value is, as an instruction or a constant. -/
def gep? (p : Program) (v : ValueId) : Option Gep :=
  match (p.value? v).map Value.kind with
  | some (.instr { opcode := .gep g, .. }) => some g
  | some (.const (.gep g)) => some g
  | _ => none

def store? (p : Program) (v : ValueId) : Option (ValueId × ValueId) :=
  match p.opcode? v with
  | some (.store value ptr) => some (value, ptr)
  | _ => none

def load? (p : Program) (v : ValueId) : Option ValueId :=
  match p.opcode? v with
  | some (.load ptr) => some ptr
  | _ => none

def elements? (p : Program) (v : ValueId) : Option (List ValueId) :=
  match p.const? v with
  | some (.aggregate elements) => some elements
  | _ => none

/-- The value behind so many conversions that keep a pointer, at most. -/
def stripUpTo (p : Program) : Nat → ValueId → ValueId
  | 0, v => v
  | n + 1, v =>
    match p.cast? v with
    | some (op, operand) => if op.keepsPointer then stripUpTo p n operand else v
    | none => v

/-- The value behind all conversions that keep a pointer. A chain of them without
repetition has no more links than there are values. -/
def strip (p : Program) (v : ValueId) : ValueId := p.stripUpTo (p.values.size + 1) v

/-- The function whose address a value is, behind conversions that keep a pointer. -/
def baseFunction? (p : Program) (v : ValueId) : Option FunctionId :=
  (p.value? (p.strip v)).bind Value.function?

/-- The function an instruction or an argument belongs to. -/
def functionOf? (p : Program) (v : ValueId) : Option FunctionId :=
  match (p.value? v).map Value.kind with
  | some (.instr i) => some i.function
  | some (.argument f _) => some f
  | _ => none

def blockOf? (p : Program) (v : ValueId) : Option BlockId := (p.instr? v).map Instr.block

/-- The instruction behind another one in its block. -/
def next? (p : Program) (v : ValueId) : Option ValueId := do
  let i ← p.instr? v
  let f ← p.function? i.function
  (← f.blocks[i.block.index]?).next? v

def valueLabel (p : Program) (v : ValueId) : String :=
  match p.value? v with
  | some { kind := .function f, .. } => "@" ++ ((p.function? f).map Function.name).getD ""
  | some { kind := .global g, .. } => "@" ++ ((p.global? g).map Global.name).getD ""
  | some { name := some name, .. } => "%" ++ name
  | _ => v.label

/-! ## Calls -/

def callSite? (p : Program) (v : ValueId) : Option CallSite :=
  match p.instr? v with
  | some { opcode := .call call, function, loc, .. } =>
    some { id := v, caller := function, call, loc }
  | _ => none

def instructionsOf (p : Program) (f : FunctionId) : List ValueId :=
  ((p.function? f).map Function.instructions).getD []

def callSites (p : Program) (f : FunctionId) : List CallSite :=
  (p.instructionsOf f).filterMap p.callSite?

def isDeclaration (p : Program) (f : FunctionId) : Bool :=
  (p.function? f).any Function.isDeclaration

/-- The compiler knows the function by its name. -/
def isIntrinsic (p : Program) (f : FunctionId) : Bool := (p.function? f).any Function.isIntrinsic

def functionName (p : Program) (f : FunctionId) : String :=
  ((p.function? f).map Function.name).getD ""

/-! ## Uses -/

def noteUser (users : Array (List ValueId)) (user operand : ValueId) : Array (List ValueId) :=
  users.modify operand.index fun noted => if noted.head? = some user then noted else user :: noted

def noteOperands (p : Program) (users : Array (List ValueId)) (u : ValueId) :
    Array (List ValueId) :=
  (p.operands u).foldl (fun users operand => noteUser users u operand) users

def noteInit (users : Array (List ValueId)) (g : Global) : Array (List ValueId) :=
  g.init.elim users fun init => users.modify init.index (g.value :: ·)

/-- The users of each value, found in one pass over the values and one over the global
variables. -/
def findUsers (p : Program) : Array (List ValueId) :=
  (p.globals.toList.foldl noteInit
    (p.valueIds.foldl p.noteOperands (Array.replicate p.values.size []))).map List.reverse

/-- The use of a function's address is not just a call of the function. -/
def takesAddress (p : Program) (address user : ValueId) : Bool :=
  match p.opcode? user with
  | some (.call call) => call.callee ≠ address || call.args.contains address
  | _ => true

/-- The program with the users of its values and the marks of its functions whose address
is taken. -/
def withUses (p : Program) : Program :=
  let p := { p with users := p.findUsers }
  { p with functions := p.functions.map fun f =>
      { f with addressTaken := (p.usersOf f.value).any (p.takesAddress f.value) } }

end Program

end CallTargets
