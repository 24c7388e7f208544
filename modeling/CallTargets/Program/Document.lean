import CallTargets.Json.Reader
import CallTargets.Json.Writer
import CallTargets.Program.Builder
import CallTargets.Program.Validate
import CallTargets.Ty.Document
/-!
# Program documents

A program can be written as a JSON document and read back. Reading decodes the document,
validates the program, makes the maps for its types and finds the uses of its values.
-/

namespace CallTargets

/-! ## Names -/

namespace ValueId

def toJson (v : ValueId) : Json := .nat v.index

def ofJson? (j : Json) : Option ValueId := j.nat32?.map mk

end ValueId

namespace FunctionId

def toJson (f : FunctionId) : Json := .nat f.index

def ofJson? (j : Json) : Option FunctionId := j.nat32?.map mk

end FunctionId

namespace GlobalId

def toJson (g : GlobalId) : Json := .nat g.index

def ofJson? (j : Json) : Option GlobalId := j.nat32?.map mk

end GlobalId

namespace ModuleId

def toJson (m : ModuleId) : Json := .nat m.index

def ofJson? (j : Json) : Option ModuleId := j.nat32?.map mk

end ModuleId

namespace BlockId

def toJson (b : BlockId) : Json := .nat b.index

def ofJson? (j : Json) : Option BlockId := j.nat32?.map mk

end BlockId

/-! ## Instructions and constants -/

namespace CastOp

def all : List (String × CastOp) :=
  [("BitCast", bitCast), ("PtrToInt", ptrToInt), ("IntToPtr", intToPtr),
    ("AddrSpaceCast", addrSpaceCast), ("Trunc", trunc), ("ZExt", zext), ("SExt", sext),
    ("Other", other)]

def text : CastOp → String
  | bitCast => "BitCast"
  | ptrToInt => "PtrToInt"
  | intToPtr => "IntToPtr"
  | addrSpaceCast => "AddrSpaceCast"
  | trunc => "Trunc"
  | zext => "ZExt"
  | sext => "SExt"
  | other => "Other"

def toJson (op : CastOp) : Json := .text op.text

def ofJson? (j : Json) : Option CastOp := j.enum? all

end CastOp

namespace GepIndex

def toJson : GepIndex → Json
  | const n => .tagged "Const" (.int n)
  | dynamic v => .tagged "Dynamic" v.toJson

def ofJson? (j : Json) : Option GepIndex := do
  match ← j.variant? with
  | ("Const", some data) => return const (← data.int64?)
  | ("Dynamic", some data) => return dynamic (← ValueId.ofJson? data)
  | _ => none

end GepIndex

namespace Gep

def toJson (g : Gep) : Json := .record
  [("source_ty", g.source.toJson), ("base", g.base.toJson),
    ("indices", .ofList GepIndex.toJson g.indices)]

def ofJson? (j : Json) : Option Gep := do
  match ← j.fields? ["source_ty", "base", "indices"] with
  | [some source, some base, some indices] =>
    return { source := ← TypeId.ofJson? source, base := ← ValueId.ofJson? base,
             indices := ← indices.list? GepIndex.ofJson? }
  | _ => none

end Gep

namespace SourceLoc

def toJson (loc : SourceLoc) : Json := .record
  [("file", .text loc.file), ("line", .nat loc.line), ("col", .nat loc.col)]

def ofJson? (j : Json) : Option SourceLoc := do
  match ← j.fields? ["file", "line", "col"] with
  | [some file, some line, some col] =>
    return { file := ← file.string?, line := ← line.nat32?, col := ← col.nat32? }
  | _ => none

end SourceLoc

namespace Call

def toJson (c : Call) : Json := .record
  [("callee", c.callee.toJson), ("args", .ofList ValueId.toJson c.args), ("fn_ty", c.type.toJson),
    ("sret", .bool c.sret)]

def ofJson? (j : Json) : Option Call := do
  match ← j.fields? ["callee", "args", "fn_ty", "sret"] with
  | [some callee, some args, some type, some sret] =>
    return { callee := ← ValueId.ofJson? callee, args := ← args.list? ValueId.ofJson?,
             type := ← TypeId.ofJson? type, sret := ← sret.bool? }
  | _ => none

end Call

def castJson (op : CastOp) (operand : ValueId) : Json := .record
  [("op", op.toJson), ("operand", operand.toJson)]

def castOfJson? (j : Json) : Option (CastOp × ValueId) := do
  match ← j.fields? ["op", "operand"] with
  | [some op, some operand] => return (← CastOp.ofJson? op, ← ValueId.ofJson? operand)
  | _ => none

namespace Opcode

def toJson : Opcode → Json
  | alloca t => .tagged "Alloca" (.record [("allocated", t.toJson)])
  | load ptr => .tagged "Load" (.record [("ptr", ptr.toJson)])
  | store value ptr => .tagged "Store" (.record [("value", value.toJson), ("ptr", ptr.toJson)])
  | gep g => .tagged "GetElementPtr" g.toJson
  | cast op operand => .tagged "Cast" (castJson op operand)
  | phi incoming => .tagged "Phi" (.record [("incoming", .ofList ValueId.toJson incoming)])
  | select condition ifTrue ifFalse => .tagged "Select" (.record
      [("condition", condition.toJson), ("if_true", ifTrue.toJson), ("if_false", ifFalse.toJson)])
  | call c => .tagged "Call" c.toJson
  | unary operand => .tagged "Unary" (.record [("operand", operand.toJson)])
  | binary lhs rhs => .tagged "Binary" (.record [("lhs", lhs.toJson), ("rhs", rhs.toJson)])
  | ret value => .tagged "Return" (.record [("value", .ofOption ValueId.toJson value)])
  | branch condition targets => .tagged "Branch" (.record
      [("condition", .ofOption ValueId.toJson condition),
        ("targets", .ofList BlockId.toJson targets)])
  | unreachable => .text "Unreachable"

def pair? (first second : String) (j : Json) : Option (ValueId × ValueId) := do
  match ← j.fields? [first, second] with
  | [some a, some b] => return (← ValueId.ofJson? a, ← ValueId.ofJson? b)
  | _ => none

def select? (j : Json) : Option Opcode := do
  match ← j.fields? ["condition", "if_true", "if_false"] with
  | [some condition, some ifTrue, some ifFalse] =>
    return .select (← ValueId.ofJson? condition) (← ValueId.ofJson? ifTrue)
      (← ValueId.ofJson? ifFalse)
  | _ => none

def ret? (j : Json) : Option Opcode := do
  match ← j.fields? ["value"] with
  | [value] => return .ret (← Json.optional? ValueId.ofJson? value)
  | _ => none

def branch? (j : Json) : Option Opcode := do
  match ← j.fields? ["condition", "targets"] with
  | [condition, some targets] =>
    return .branch (← Json.optional? ValueId.ofJson? condition) (← targets.list? BlockId.ofJson?)
  | _ => none

def ofJson? (j : Json) : Option Opcode := do
  match ← j.variant? with
  | ("Alloca", some data) => return alloca (← Ty.single? "allocated" TypeId.ofJson? data)
  | ("Load", some data) => return load (← Ty.single? "ptr" ValueId.ofJson? data)
  | ("Store", some data) =>
    let (value, ptr) ← pair? "value" "ptr" data
    return store value ptr
  | ("GetElementPtr", some data) => return gep (← Gep.ofJson? data)
  | ("Cast", some data) =>
    let (op, operand) ← castOfJson? data
    return cast op operand
  | ("Phi", some data) => return phi (← Ty.single? "incoming" (Json.list? ValueId.ofJson?) data)
  | ("Select", some data) => select? data
  | ("Call", some data) => return call (← Call.ofJson? data)
  | ("Unary", some data) => return unary (← Ty.single? "operand" ValueId.ofJson? data)
  | ("Binary", some data) =>
    let (lhs, rhs) ← pair? "lhs" "rhs" data
    return binary lhs rhs
  | ("Return", some data) => ret? data
  | ("Branch", some data) => branch? data
  | ("Unreachable", none) | ("Unreachable", some .null) => return unreachable
  | _ => none

end Opcode

namespace Instr

def toJson (i : Instr) : Json := .record
  [("function", i.function.toJson), ("block", i.block.toJson), ("opcode", i.opcode.toJson),
    ("loc", .ofOption SourceLoc.toJson i.loc)]

def ofJson? (j : Json) : Option Instr := do
  match ← j.fields? ["function", "block", "opcode", "loc"] with
  | [some function, some block, some opcode, loc] =>
    return { function := ← FunctionId.ofJson? function, block := ← BlockId.ofJson? block,
             opcode := ← Opcode.ofJson? opcode, loc := ← Json.optional? SourceLoc.ofJson? loc }
  | _ => none

end Instr

namespace Const

def toJson : Const → Json
  | null => .text "Null"
  | undef => .text "Undef"
  | int n => .tagged "Int" (.int n)
  | aggregate elements => .tagged "Aggregate" (.ofList ValueId.toJson elements)
  | cast op operand => .tagged "Expr" (.tagged "Cast" (castJson op operand))
  | gep g => .tagged "Expr" (.tagged "GetElementPtr" g.toJson)

def expr? (j : Json) : Option Const := do
  match ← j.variant? with
  | ("Cast", some data) =>
    let (op, operand) ← castOfJson? data
    return cast op operand
  | ("GetElementPtr", some data) => return gep (← Gep.ofJson? data)
  | _ => none

def ofJson? (j : Json) : Option Const := do
  match ← j.variant? with
  | ("Null", none) | ("Null", some .null) => return null
  | ("Undef", none) | ("Undef", some .null) => return undef
  | ("Int", some data) => return int (← data.int64?)
  | ("Aggregate", some data) => return aggregate (← data.list? ValueId.ofJson?)
  | ("Expr", some data) => expr? data
  | _ => none

end Const

/-! ## Values, functions, variables and modules -/

namespace ValueKind

def toJson : ValueKind → Json
  | argument f index => .tagged "Argument" (.record [("function", f.toJson), ("index", .nat index)])
  | function f => .tagged "Function" f.toJson
  | global g => .tagged "Global" g.toJson
  | const c => .tagged "Constant" c.toJson
  | instr i => .tagged "Instruction" i.toJson

def argument? (j : Json) : Option ValueKind := do
  match ← j.fields? ["function", "index"] with
  | [some f, some index] => return .argument (← FunctionId.ofJson? f) (← index.nat32?)
  | _ => none

def ofJson? (j : Json) : Option ValueKind := do
  match ← j.variant? with
  | ("Argument", some data) => argument? data
  | ("Function", some data) => return function (← FunctionId.ofJson? data)
  | ("Global", some data) => return global (← GlobalId.ofJson? data)
  | ("Constant", some data) => return const (← Const.ofJson? data)
  | ("Instruction", some data) => return instr (← Instr.ofJson? data)
  | _ => none

end ValueKind

namespace Value

def toJson (v : Value) : Json := .record
  [("ty", v.type.toJson), ("name", .ofOption .text v.name), ("kind", v.kind.toJson)]

def ofJson? (j : Json) : Option Value := do
  match ← j.fields? ["ty", "name", "kind"] with
  | [some type, name, some kind] =>
    return { type := ← TypeId.ofJson? type, name := ← Json.optional? Json.string? name,
             kind := ← ValueKind.ofJson? kind }
  | _ => none

end Value

namespace Linkage

def all : List (String × Linkage) :=
  [("External", external), ("Weak", weak), ("LinkOnce", linkOnce), ("Internal", internal),
    ("Private", priv)]

def text : Linkage → String
  | external => "External"
  | weak => "Weak"
  | linkOnce => "LinkOnce"
  | internal => "Internal"
  | priv => "Private"

def toJson (l : Linkage) : Json := .text l.text

def ofJson? (j : Json) : Option Linkage := j.enum? all

end Linkage

namespace Block

def toJson (b : Block) : Json := .record
  [("id", b.id.toJson), ("instructions", .ofList ValueId.toJson b.instructions)]

def ofJson? (j : Json) : Option Block := do
  match ← j.fields? ["id", "instructions"] with
  | [some id, some instructions] =>
    return { id := ← BlockId.ofJson? id, instructions := ← instructions.list? ValueId.ofJson? }
  | _ => none

end Block

namespace Function

def toJson (f : Function) : Json := .record
  [("name", .text f.name), ("ty", f.type.toJson), ("module", f.module.toJson),
    ("linkage", f.linkage.toJson), ("params", .ofList ValueId.toJson f.params),
    ("blocks", .ofList Block.toJson f.blocks), ("value", f.value.toJson),
    ("address_taken", .bool f.addressTaken)]

def ofJson? (j : Json) : Option Function := do
  match ← j.fields?
    ["name", "ty", "module", "linkage", "params", "blocks", "value", "address_taken"] with
  | [some name, some type, some module, some linkage, some params, some blocks, some value,
      some addressTaken] =>
    return { name := ← name.string?, type := ← TypeId.ofJson? type,
             module := ← ModuleId.ofJson? module, linkage := ← Linkage.ofJson? linkage,
             params := ← params.list? ValueId.ofJson?, blocks := ← blocks.list? Block.ofJson?,
             value := ← ValueId.ofJson? value, addressTaken := ← addressTaken.bool? }
  | _ => none

end Function

namespace Global

def toJson (g : Global) : Json := .record
  [("name", .text g.name), ("module", g.module.toJson), ("value_type", g.type.toJson),
    ("value", g.value.toJson), ("initializer", .ofOption ValueId.toJson g.init),
    ("linkage", g.linkage.toJson), ("is_constant", .bool g.isConstant)]

def ofJson? (j : Json) : Option Global := do
  match ← j.fields?
    ["name", "module", "value_type", "value", "initializer", "linkage", "is_constant"] with
  | [some name, some module, some type, some value, init, some linkage, some isConstant] =>
    return { name := ← name.string?, module := ← ModuleId.ofJson? module,
             type := ← TypeId.ofJson? type, value := ← ValueId.ofJson? value,
             init := ← Json.optional? ValueId.ofJson? init, linkage := ← Linkage.ofJson? linkage,
             isConstant := ← isConstant.bool? }
  | _ => none

end Global

namespace Module

def toJson (m : Module) : Json := .record
  [("id", m.id.toJson), ("name", .text m.name),
    ("functions", .ofList FunctionId.toJson m.functions),
    ("globals", .ofList GlobalId.toJson m.globals),
    ("struct_types", .ofList TypeId.toJson m.structs)]

def ofJson? (j : Json) : Option Module := do
  match ← j.fields? ["id", "name", "functions", "globals", "struct_types"] with
  | [some id, some name, some functions, some globals, some structs] =>
    return { id := ← ModuleId.ofJson? id, name := ← name.string?,
             functions := ← functions.list? FunctionId.ofJson?,
             globals := ← globals.list? GlobalId.ofJson?,
             structs := ← structs.list? TypeId.ofJson? }
  | _ => none

end Module

/-! ## Programs -/

namespace Program

def toJson (p : Program) : Json := .record
  [("types", p.types.toJson), ("values", .ofList Value.toJson p.values.toList),
    ("functions", .ofList Function.toJson p.functions.toList),
    ("globals", .ofList Global.toJson p.globals.toList),
    ("modules", .ofList Module.toJson p.modules.toList)]

/-- The program of a document, neither validated nor with the uses of its values. -/
def decode? (j : Json) : Option Program := do
  match ← j.fields? ["types", "values", "functions", "globals", "modules"] with
  | [some types, some values, some functions, some globals, some modules] =>
    return { types := ← TypeTable.ofJson? types
             values := (← values.list? Value.ofJson?).toArray
             functions := (← functions.list? Function.ofJson?).toArray
             globals := (← globals.list? Global.ofJson?).toArray
             modules := (← modules.list? Module.ofJson?).toArray }
  | _ => none

def render (p : Program) : String := p.toJson.render

end Program

namespace Builder

/-- A program with maps that are made from its types. -/
def ofProgram (program : Program) : Builder :=
  ({ program } : Builder).withTypes (IndexedTable.reindex { table := program.types })

def ofJson (j : Json) : Except Fault Builder :=
  match Program.decode? j with
  | some p => do
    p.validate
    return ofProgram p.withUses
  | none => throw .malformed

def parse (text : String) : Except Fault Builder :=
  match Json.parse? text with
  | some j => ofJson j
  | none => throw .malformed

end Builder

end CallTargets
