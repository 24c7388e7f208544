import CallTargets.Program.Request
import CallTargets.Ty.Index
/-!
# Builders

A builder holds a program and the maps by which its types are found. It does what a request asks
for step by step: a type is looked up in the maps, and noted there when it is added.
-/

namespace CallTargets

structure Builder where
  program : Program := {}
  /-- The types without a name of their own, by what they are made of. -/
  unnamed : OrdMap Ty TypeId := ∅
  structs : OrdMap String TypeId := ∅

namespace Builder

def types (b : Builder) : IndexedTable :=
  { table := b.program.types, unnamed := b.unnamed, structs := b.structs }

def withTypes (b : Builder) (t : IndexedTable) : Builder :=
  { program := { b.program with types := t.table }, unnamed := t.unnamed, structs := t.structs }

end Builder

/-- Something that is asked of a builder. It may be refused, and what was done up to then stays
done. -/
abbrev Construct := ExceptT Fault (StateM Builder)

namespace Construct

variable {α : Type}

/-! ## Steps -/

/-- Asks something of the program, and leaves the maps as they are. -/
def ofProgram (x : Build α) : Construct α := ExceptT.mk (modifyGet fun b =>
  let (result, program) := x.run b.program
  (result, { b with program }))

def change (c : Program → α × Program) : Construct α := ofProgram (Build.update c)

def askTypes (what : IndexedTable → Except Fault α) : Construct α := do
  ExceptT.mk (pure (what (← get).types))

def changeTypes (c : IndexedTable → α × IndexedTable) : Construct α := modifyGet fun b =>
  let (a, types) := c b.types
  (a, b.withTypes types)

def addType (ty : Ty) : Construct TypeId := changeTypes (·.intern ty)

def setBody (t : TypeId) (fields : List TypeId) : Construct Unit := do
  let types ← askTypes (·.setBody t fields)
  changeTypes fun _ => ((), types)

/-- The struct called by a name, with the given fields. It is there before it gets them. -/
def defineStruct (name : String) (fields : List TypeId) : Construct TypeId := do
  let t ← changeTypes (·.declareStruct name)
  setBody t fields
  return t

def declare (m : ModuleId) (name : String) (type : TypeId) : Construct FunctionId := do
  let params ← ofProgram (Build.paramTypes type)
  let _ ← ofProgram (Build.module m)
  let addressType ← addType (.pointer type)
  change fun p => (⟨p.functions.size⟩, p.pushFunction m name type addressType params)

def addResultType : ResultType → Construct TypeId
  | .old t => return t
  | .made ty => addType ty

/-! ## Requests -/

/-- Does what a request asks for, and yields the names of what was made or found. -/
def perform : Request → Construct (List Entity)
  | .intern ty => return [.type (← addType ty)]
  | .bytePointer => do
    let byte ← addType (.integer 8)
    return [.type (← addType (.pointer byte))]
  | .lookup name => return ((← get).types.lookupStruct? name).toList.map .type
  | .setBody t fields => do
    setBody t fields
    return []
  | .defineStruct name fields => return [.type (← defineStruct name fields)]
  | .reindex => changeTypes fun t => ([], t.reindex)
  | .addStruct m name fields => do
    let _ ← ofProgram (Build.module m)
    let t ← defineStruct name fields
    change fun p => ([.type t], p.listStruct m t)
  | .declare m name type => return [.function (← declare m name type)]
  | .define m name type => do
    let f ← declare m name type
    change fun p => ([.function f, .block f .entry], p.openEntry f)
  | .addGlobal m name type init => do
    let _ ← ofProgram (Build.module m)
    let addressType ← addType (.pointer type)
    change fun p => ([.global ⟨p.globals.size⟩], p.pushGlobal m name type addressType init)
  | .constGep base indices => do
    let (g, target) ← ofProgram (Build.gep base (indices.map .const))
    let type ← addType (.pointer target)
    return [.value (← change (·.addValue type (.const (.gep g))))]
  | .instr site i name => do
    let (type, opcode) ← ofProgram i.opcode
    let _ ← ofProgram (Build.block site)
    let type ← addResultType type
    let v ← change (·.addInstr site type opcode)
    change fun p => ([.value v], name.elim p (p.nameValue v))
  | r => ofProgram r.perform

end Construct

namespace Builder

def apply (b : Builder) (r : Request) : Builder := ((Construct.perform r).run b).2

def serve (rs : List Request) : Builder := rs.foldl apply {}

end Builder

end CallTargets
