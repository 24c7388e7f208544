import CallTargets.Program.Fault
import CallTargets.Text.Basic
import CallTargets.Ty.Basic
/-!
# The type table

Each type of a program has one name. Structs with a name are known by it, all other
types by what they are made of: `intern` gives a type the name it already has, or a new
one.
-/

namespace CallTargets

/-- The types of a program, in the order of their names. -/
structure TypeTable where
  types : Array Ty := #[]
  deriving DecidableEq, Inhabited, Repr

namespace TypeTable

def size (t : TypeTable) : Nat := t.types.size

def get? (t : TypeTable) (id : TypeId) : Option Ty := t.types[id.index]?

def ids (t : TypeTable) : List TypeId := (List.range t.size).map TypeId.mk

/-! ## Building -/

def lookupStruct? (t : TypeTable) (name : String) : Option TypeId :=
  (t.types.findIdx? fun ty => ty.structName? = some name).map TypeId.mk

/-- The name a type already has: that of the struct called like it, or that of the first
type equal to it. -/
def find? (t : TypeTable) (ty : Ty) : Option TypeId :=
  match ty.structName? with
  | some name => t.lookupStruct? name
  | none => (t.types.findIdx? fun ty' => ty' = ty).map TypeId.mk

/-- The name of a type, which is added if it has none. -/
def intern (t : TypeTable) (ty : Ty) : TypeId × TypeTable :=
  match t.find? ty with
  | some id => (id, t)
  | none => (⟨t.size⟩, { types := t.types.push ty })

/-- The struct called by a name, which is added without fields if there is none. -/
def declareStruct (t : TypeTable) (name : String) : TypeId × TypeTable :=
  t.intern (.struct (some name) [] true)

def setBody (t : TypeTable) (id : TypeId) (fields : List TypeId) : Except Fault TypeTable :=
  match t.get? id with
  | some (.struct (some name) _ _) =>
    .ok { types := t.types.setIfInBounds id.index (.struct (some name) fields false) }
  | some _ => .error (.notNamedStruct id)
  | none => .error (.invalidType id)

def defineStruct (t : TypeTable) (name : String) (fields : List TypeId) :
    Except Fault (TypeId × TypeTable) := do
  let (id, t) := t.declareStruct name
  return (id, ← t.setBody id fields)

/-! ## Asking -/

def isPointer (t : TypeTable) (id : TypeId) : Bool := (t.get? id).any Ty.isPointer

def isInteger (t : TypeTable) (id : TypeId) : Bool := (t.get? id).any Ty.isInteger

def isStruct (t : TypeTable) (id : TypeId) : Bool := (t.get? id).any Ty.isStruct

def isFunction (t : TypeTable) (id : TypeId) : Bool := (t.get? id).any Ty.isFunction

def isComposite (t : TypeTable) (id : TypeId) : Bool := (t.get? id).any Ty.isComposite

def pointee? (t : TypeTable) (id : TypeId) : Option TypeId := (t.get? id).bind Ty.pointee?

def functionPointee? (t : TypeTable) (id : TypeId) : Option TypeId :=
  (t.pointee? id).filter t.isFunction

def structName? (t : TypeTable) (id : TypeId) : Option String := (t.get? id).bind Ty.structName?

def fields? (t : TypeTable) (id : TypeId) : Option (List TypeId) := (t.get? id).bind Ty.fields?

def element? (t : TypeTable) (id : TypeId) (index : Option Int) : Option TypeId :=
  (t.get? id).bind (·.element? index)

def kindsText (kinds : List Nat) : String := kinds.foldl (fun text kind => text ++ toString kind) ""

def fieldKinds (t : TypeTable) (id : TypeId) : String :=
  kindsText (((t.fields? id).getD []).map fun field => ((t.get? field).map Ty.kindCode).getD 0)

/-- What is left of a type when all pointers around it are taken away. -/
def innermost (t : TypeTable) (id : TypeId) : TypeId := go (t.size + 1) id
where
  go : Nat → TypeId → TypeId
    | 0, id => id
    | n + 1, id =>
      match t.pointee? id with
      | some id => go n id
      | none => id

/-! ## Printing -/

def floatText (bits : Nat) : String :=
  match bits with
  | 16 => "half"
  | 32 => "float"
  | 64 => "double"
  | 80 => "x86_fp80"
  | _ => "fp128"

end TypeTable

namespace Ty

/-- The types that a printed type shows; a struct with a name does not show its fields. -/
def shown : Ty → List TypeId
  | struct (some _) _ _ => []
  | ty => ty.parts

/-- The printed type, given the printed types that it shows. -/
def textOf (ty : Ty) (parts : List String) : String :=
  match ty, parts with
  | void, _ => "void"
  | label, _ => "label"
  | integer bits, _ => "i" ++ toString bits
  | float bits, _ => TypeTable.floatText bits
  | pointer _, [pointee] => pointee ++ "*"
  | function _ _ variadic, ret :: params =>
    ret ++ " (" ++ Text.joinWith ", " (params ++ if variadic then ["..."] else []) ++ ")"
  | struct (some name) _ _, _ => "%" ++ name
  | struct none _ _, fields => "\x7b " ++ Text.joinWith ", " fields ++ " \x7d"
  | array _ length, [element] => "[" ++ toString length ++ " x " ++ element ++ "]"
  | vector _ length, [element] => "<" ++ toString length ++ " x " ++ element ++ ">"
  | _, _ => ""

end Ty

namespace TypeTable

/-- The printed type, down to a given depth. There is none if the depth is exceeded or a
type is missing. -/
def printUpTo (t : TypeTable) : (depth : Nat) → TypeId → Option String
  | 0, _ => none
  | depth + 1, id => do
    let ty ← t.get? id
    return ty.textOf (← ty.shown.mapM (printUpTo t depth))

/-- The printed type. Without a cycle outside named structs, a type contains no more types
inside each other than the table has. -/
def print? (t : TypeTable) (id : TypeId) : Option String := t.printUpTo t.size id

def print (t : TypeTable) (id : TypeId) : String := (t.print? id).getD ""

end TypeTable

end CallTargets
