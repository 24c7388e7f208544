import CallTargets.Program.Id
/-!
# Types

A type refers to the types it is made of by their names in a table. Structs with a name
may be declared before their fields are known.
-/

namespace CallTargets

inductive Ty where
  | void
  | label
  | integer (bits : Nat)
  | float (bits : Nat)
  | pointer (pointee : TypeId)
  | function (ret : TypeId) (params : List TypeId) (variadic : Bool)
  | struct (name : Option String) (fields : List TypeId) (bodiless : Bool)
  | array (element : TypeId) (length : Nat)
  | vector (element : TypeId) (length : Nat)
  deriving DecidableEq, Inhabited, Repr

namespace Ty

def kindCode : Ty → Nat
  | float 16 => 0
  | float 32 => 2
  | float 64 => 3
  | float 80 => 4
  | float _ => 5
  | void => 7
  | label => 8
  | integer _ => 13
  | function .. => 14
  | pointer _ => 15
  | struct .. => 16
  | array .. => 17
  | vector .. => 18

def structName? : Ty → Option String
  | struct name _ _ => name
  | _ => none

def fields? : Ty → Option (List TypeId)
  | struct _ fields _ => some fields
  | _ => none

def isPointer : Ty → Bool
  | pointer _ => true
  | _ => false

def isInteger : Ty → Bool
  | integer _ => true
  | _ => false

def isStruct : Ty → Bool
  | struct .. => true
  | _ => false

def isFunction : Ty → Bool
  | function .. => true
  | _ => false

def isComposite : Ty → Bool
  | struct .. | array .. | vector .. => true
  | _ => false

def pointee? : Ty → Option TypeId
  | pointer t => some t
  | _ => none

/-- Return type, parameters, and whether further arguments are allowed. -/
def signature? : Ty → Option (TypeId × List TypeId × Bool)
  | function ret params variadic => some (ret, params, variadic)
  | _ => none

def elementCount : Ty → Nat
  | struct _ fields _ => fields.length
  | array _ length | vector _ length => length
  | _ => 0

/-- The type at an index, `none` for one that is not known. A struct needs the number of
one of its fields, arrays and vectors take any index. -/
def element? : Ty → (index : Option Int) → Option TypeId
  | struct _ fields _, some n => if n < 0 then none else fields[n.toNat]?
  | struct .., none => none
  | array element _, _ | vector element _, _ => some element
  | _, _ => none

def parts : Ty → List TypeId
  | pointer t => [t]
  | function ret params _ => ret :: params
  | struct _ fields _ => fields
  | array t _ | vector t _ => [t]
  | void | label | integer _ | float _ => []

end Ty

end CallTargets
