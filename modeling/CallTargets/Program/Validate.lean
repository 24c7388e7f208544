import CallTargets.Program.Basic
/-!
# Validation

A program read from a document may name entities that do not exist, or hold records that
contradict each other. `Program.validate` reports the first fault: types first, then
modules, functions, global variables and values, each in their order.
-/

namespace CallTargets.Program

def checkType (p : Program) (t : TypeId) : Except Fault Unit :=
  if t.index < p.types.size then pure () else throw (.invalidType t)

def checkValue (p : Program) (v : ValueId) : Except Fault Unit :=
  if v.index < p.values.size then pure () else throw (.invalidValue v)

def checkFunction (p : Program) (f : FunctionId) : Except Fault Unit :=
  if f.index < p.functions.size then pure () else throw (.invalidFunction f)

def checkGlobal (p : Program) (g : GlobalId) : Except Fault Unit :=
  if g.index < p.globals.size then pure () else throw (.invalidGlobal g)

def checkModule (p : Program) (m : ModuleId) : Except Fault Unit :=
  if m.index < p.modules.size then pure () else throw (.invalidModule m)

def checkRole (v : ValueId) (role : Role) (holds : Bool) : Except Fault Unit :=
  if holds then pure () else throw (.inconsistent v role)

/-- A type is made of types that exist. Only named structs may be made of types that do
not come before them. -/
def validateType (p : Program) (id : TypeId) (ty : Ty) : Except Fault Unit :=
  ty.parts.forM fun part => do
    p.checkType part
    if ty.structName?.isNone && id.index ≤ part.index then throw (.forwardType id)

def validateTypes (p : Program) : Except Fault Unit :=
  p.types.types.toList.zipIdx.forM fun (ty, i) => p.validateType ⟨i⟩ ty

/-- A module stands at the place it is named for and lists what exists. -/
def validateModule (p : Program) (place : Nat) (m : Module) : Except Fault Unit := do
  if m.id.index ≠ place then throw (.invalidModule m.id)
  m.functions.forM p.checkFunction
  m.globals.forM p.checkGlobal
  m.structs.forM p.checkType

/-- A block stands at the place it is named for and lists its own instructions. -/
def validateBlock (p : Program) (f : FunctionId) (place : Nat) (b : Block) : Except Fault Unit := do
  if b.id.index ≠ place then throw (.invalidBlock f b.id)
  b.instructions.forM fun v => do
    p.checkValue v
    checkRole v .blockInstruction
      ((p.instr? v).any fun i => i.function = f && i.block = b.id)

/-- A function's address and arguments are values that say so. -/
def validateFunction (p : Program) (id : FunctionId) (f : Function) : Except Fault Unit := do
  p.checkType f.type
  p.checkModule f.module
  p.checkValue f.value
  checkRole f.value .functionAddress ((p.value? f.value).bind Value.function? = some id)
  f.params.zipIdx.forM fun (param, index) => do
    p.checkValue param
    checkRole param .argument ((p.value? param).map Value.kind = some (.argument id index))
  f.blocks.zipIdx.forM fun (b, place) => p.validateBlock id place b

/-- A global variable's address is a value that says so. -/
def validateGlobal (p : Program) (id : GlobalId) (g : Global) : Except Fault Unit := do
  p.checkModule g.module
  p.checkType g.type
  p.checkValue g.value
  checkRole g.value .globalAddress ((p.value? g.value).bind Value.global? = some id)
  g.init.forM p.checkValue

/-- An instruction names a block of its function, types that exist, and blocks to go to. -/
def validateInstr (p : Program) (i : Instr) : Except Fault Unit := do
  p.checkFunction i.function
  checkBlock i.block
  match i.opcode with
  | .alloca allocated => p.checkType allocated
  | .gep g => p.checkType g.source
  | .call call => p.checkType call.type
  | .branch _ targets => targets.forM checkBlock
  | _ => pure ()
where
  checkBlock (b : BlockId) : Except Fault Unit :=
    if b.index < ((p.function? i.function).map (·.blocks.length)).getD 0 then pure ()
    else throw (.invalidBlock i.function b)

/-- What a value is exists, and so do its operands. A constant is built from values that
come before it. -/
def validateValue (p : Program) (id : ValueId) (v : Value) : Except Fault Unit := do
  p.checkType v.type
  match v.kind with
  | .argument f _ => p.checkFunction f
  | .function f => p.checkFunction f
  | .global g => p.checkGlobal g
  | .const (.gep g) => p.checkType g.source
  | .const _ => pure ()
  | .instr i => p.validateInstr i
  v.operands.forM fun operand => do
    p.checkValue operand
    checkRole id .earlierConstant (v.const?.isNone || operand.index < id.index)

def validate (p : Program) : Except Fault Unit := do
  p.validateTypes
  p.modules.toList.zipIdx.forM fun (m, i) => p.validateModule i m
  p.functions.toList.zipIdx.forM fun (f, i) => p.validateFunction ⟨i⟩ f
  p.globals.toList.zipIdx.forM fun (g, i) => p.validateGlobal ⟨i⟩ g
  p.values.toList.zipIdx.forM fun (v, i) => p.validateValue ⟨i⟩ v

end CallTargets.Program
