import CallTargets.Program.Basic
/-!
# Building programs

What can be added to a program, and requests for it. The types of loads, address
computations and calls follow from their operands, so a request that makes no sense is
refused. A request looks at the program before it changes it, and a refused one changes
nothing.
-/

namespace CallTargets

/-- Where instructions are added, and the place in the source they come from. -/
structure Site where
  function : FunctionId
  block : BlockId := .entry
  loc : Option SourceLoc := none
  deriving DecidableEq, Repr

/-! ## Additions -/

namespace Program

def addType (p : Program) (ty : Ty) : TypeId × Program :=
  let (id, types) := p.types.intern ty
  (id, { p with types })

def addValue (p : Program) (type : TypeId) (kind : ValueKind) : ValueId × Program :=
  (⟨p.values.size⟩, { p with values := p.values.push { type, name := none, kind } })

def nameValue (p : Program) (v : ValueId) (name : String) : Program :=
  { p with values := p.values.modify v.index fun v => { v with name := some name } }

def addModule (p : Program) (name : String) : ModuleId × Program :=
  let id := ⟨p.modules.size⟩
  (id, { p with modules := p.modules.push { id, name } })

def changeModule (p : Program) (m : ModuleId) (change : Module → Module) : Program :=
  { p with modules := p.modules.modify m.index change }

def changeFunction (p : Program) (f : FunctionId) (change : Function → Function) : Program :=
  { p with functions := p.functions.modify f.index change }

def changeGlobal (p : Program) (g : GlobalId) (change : Global → Global) : Program :=
  { p with globals := p.globals.modify g.index change }

def listStruct (p : Program) (m : ModuleId) (t : TypeId) : Program :=
  p.changeModule m fun m =>
    { m with structs := if m.structs.contains t then m.structs else m.structs ++ [t] }

def arguments (f : FunctionId) (params : List TypeId) : List Value :=
  params.mapIdx fun index type => { type, name := none, kind := .argument f index }

/-- A function without a body. Its address is the value at a place, and its parameters are
the values behind it. -/
def declaration (m : ModuleId) (name : String) (type : TypeId) (params : List TypeId)
    (place : Nat) : Function :=
  { name, type, module := m, value := ⟨place⟩
    params := (List.range params.length).map fun index => ⟨place + 1 + index⟩ }

def pushFunction (p : Program) (m : ModuleId) (name : String) (type addressType : TypeId)
    (params : List TypeId) : Program :=
  let id : FunctionId := ⟨p.functions.size⟩
  let address : Value := { type := addressType, name := none, kind := .function id }
  { p with
    values := p.values.push address ++ (arguments id params).toArray
    functions := p.functions.push (declaration m name type params p.values.size)
    modules := p.modules.modify m.index fun m => { m with functions := m.functions ++ [id] } }

def addFunction (p : Program) (m : ModuleId) (name : String) (type : TypeId)
    (params : List TypeId) : FunctionId × Program :=
  let (addressType, p) := p.addType (.pointer type)
  (⟨p.functions.size⟩, p.pushFunction m name type addressType params)

def openEntry (p : Program) (f : FunctionId) : Program :=
  p.changeFunction f fun f => if f.isDeclaration then { f with blocks := [{ id := .entry }] } else f

def appendBlock (p : Program) (f : FunctionId) : Program :=
  p.changeFunction f fun f => { f with blocks := f.blocks ++ [{ id := ⟨f.blocks.length⟩ }] }

def pushGlobal (p : Program) (m : ModuleId) (name : String) (type addressType : TypeId)
    (init : Option ValueId) : Program :=
  let id : GlobalId := ⟨p.globals.size⟩
  let address : Value := { type := addressType, name := none, kind := .global id }
  { p with
    values := p.values.push address
    globals := p.globals.push { name, module := m, type, value := ⟨p.values.size⟩, init }
    modules := p.modules.modify m.index fun m => { m with globals := m.globals ++ [id] } }

def addGlobal (p : Program) (m : ModuleId) (name : String) (type : TypeId)
    (init : Option ValueId) : GlobalId × Program :=
  let (addressType, p) := p.addType (.pointer type)
  (⟨p.globals.size⟩, p.pushGlobal m name type addressType init)

def addConstGep (p : Program) (g : Gep) (target : TypeId) : ValueId × Program :=
  let (type, p) := p.addType (.pointer target)
  p.addValue type (.const (.gep g))

def addInstr (p : Program) (site : Site) (type : TypeId) (opcode : Opcode) : ValueId × Program :=
  let (id, p) := p.addValue type
    (.instr { function := site.function, block := site.block, opcode, loc := site.loc })
  (id, p.changeFunction site.function fun f =>
    { f with blocks := f.blocks.modify site.block.index fun b =>
        { b with instructions := b.instructions ++ [id] } })

end Program

/-! ## Requests that may be refused -/

/-- Something that is asked of a program. It may be refused. -/
abbrev Build := ExceptT Fault (StateM Program)

namespace Build

def found {α : Type} (what : Option α) (fault : Fault) : Build α :=
  match what with
  | some a => return a
  | none => throw fault

def ask {α : Type} (what : Program → Except Fault α) : Build α := do
  ExceptT.mk (pure (what (← get)))

def update {α : Type} (change : Program → α × Program) : Build α := modifyGet change

def module (m : ModuleId) : Build Module := do found ((← get).module? m) (.invalidModule m)

def function (f : FunctionId) : Build Function := do
  found ((← get).function? f) (.invalidFunction f)

def global (g : GlobalId) : Build Global := do found ((← get).global? g) (.invalidGlobal g)

def value (v : ValueId) : Build Value := do found ((← get).value? v) (.invalidValue v)

def block (site : Site) : Build Block := do
  let f ← function site.function
  found f.blocks[site.block.index]? (.invalidBlock site.function site.block)

def param (f : FunctionId) (index : Nat) : Build ValueId := do
  let f ← function f
  found f.params[index]? (.noSuchParam f.name index)

def paramTypes (type : TypeId) : Build (List TypeId) := do
  let p ← get
  let (_, params, _) ← found ((p.types.get? type).bind Ty.signature?)
    (.notFunctionType (p.types.print type))
  return params

def pointee (v : ValueId) : Build TypeId := do
  let { type, .. } ← value v
  let p ← get
  found (p.types.pointee? type) (.notPointer v (p.types.print type))

def walk (current : TypeId) : (indices : List GepIndex) → Build TypeId
  | [] => return current
  | index :: rest => do
    let p ← get
    let next ← found (p.types.element? current index.const?)
      (.badIndex index.const? (p.types.print current))
    walk next rest

/-- An address computation, and the type of what it leads to. The first index moves over
whole objects and leaves the type as it is. -/
def gep (base : ValueId) (indices : List GepIndex) : Build (Gep × TypeId) := do
  let source ← pointee base
  return ({ source, base, indices }, ← walk source indices.tail)

def call (callee : ValueId) (args : List ValueId) (sret : Bool) : Build (Call × TypeId) := do
  let { type, .. } ← value callee
  let p ← get
  let type ← found (p.types.functionPointee? type) (.notCallable callee (p.types.print type))
  let (ret, _, _) ← found ((p.types.get? type).bind Ty.signature?) (.invalidType type)
  return ({ callee, args, type, sret }, ret)

end Build

end CallTargets
