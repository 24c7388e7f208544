import CallTargets.Json.Decode
import CallTargets.Ty.Table
/-!
# Types in documents
-/

namespace CallTargets

namespace TypeId

def toJson (t : TypeId) : Json := .nat t.index

def ofJson? (j : Json) : Option TypeId := j.nat32?.map mk

end TypeId

namespace Ty

def toJson : Ty → Json
  | void => .text "Void"
  | label => .text "Label"
  | integer bits => .tagged "Integer" (.record [("bits", .nat bits)])
  | float bits => .tagged "Float" (.record [("bits", .nat bits)])
  | pointer t => .tagged "Pointer" (.record [("pointee", t.toJson)])
  | function ret params variadic => .tagged "Function" (.record
      [("ret", ret.toJson), ("params", .ofList TypeId.toJson params), ("variadic", .bool variadic)])
  | struct name fields bodiless => .tagged "Struct" (.record
      [("name", .ofOption .text name), ("fields", .ofList TypeId.toJson fields),
        ("opaque", .bool bodiless)])
  | array t length => .tagged "Array" (.record [("element", t.toJson), ("len", .nat length)])
  | vector t length => .tagged "Vector" (.record [("element", t.toJson), ("len", .nat length)])

def single? {α : Type} (name : String) (value? : Json → Option α) (j : Json) : Option α := do
  match ← j.fields? [name] with
  | [some value] => value? value
  | _ => none

def sequence? (j : Json) : Option (TypeId × Nat) := do
  match ← j.fields? ["element", "len"] with
  | [some element, some length] => return (← TypeId.ofJson? element, ← length.nat64?)
  | _ => none

def function? (j : Json) : Option Ty := do
  match ← j.fields? ["ret", "params", "variadic"] with
  | [some ret, some params, some variadic] =>
    return .function (← TypeId.ofJson? ret) (← params.list? TypeId.ofJson?) (← variadic.bool?)
  | _ => none

def struct? (j : Json) : Option Ty := do
  match ← j.fields? ["name", "fields", "opaque"] with
  | [name, some fields, some bodiless] =>
    return .struct (← Json.optional? Json.string? name) (← fields.list? TypeId.ofJson?)
      (← bodiless.bool?)
  | _ => none

def ofJson? (j : Json) : Option Ty := do
  match ← j.variant? with
  | ("Void", none) | ("Void", some .null) => return void
  | ("Label", none) | ("Label", some .null) => return label
  | ("Integer", some data) => return integer (← single? "bits" Json.nat32? data)
  | ("Float", some data) => return float (← single? "bits" Json.nat32? data)
  | ("Pointer", some data) => return pointer (← single? "pointee" TypeId.ofJson? data)
  | ("Function", some data) => function? data
  | ("Struct", some data) => struct? data
  | ("Array", some data) =>
    let (element, length) ← sequence? data
    return array element length
  | ("Vector", some data) =>
    let (element, length) ← sequence? data
    return vector element length
  | _ => none

end Ty

namespace TypeTable

def toJson (t : TypeTable) : Json := .record [("types", .ofList Ty.toJson t.types.toList)]

def ofJson? (j : Json) : Option TypeTable := do
  return { types := (← Ty.single? "types" (Json.list? Ty.ofJson?) j).toArray }

end TypeTable

end CallTargets
