import CallTargets.Key.Normal
import CallTargets.Ordered.Map
import CallTargets.Ordered.Set
import CallTargets.Program.Basic
/-!
# Keys of types and signatures

Types of different modules are the same type if their keys are equal, and so are
signatures. A struct is known by its name and the number of its fields. A struct without
a name is taken for the first one with a name whose fields are of the same kinds. A key is
the hash of the text that a type is known by; how texts are hashed is left open.
-/

namespace CallTargets

/-- How texts are hashed. Two of them may have the same hash. -/
class Hasher where
  hash : String → UInt64

structure TypeKey where
  code : UInt64
  deriving DecidableEq, Inhabited, Repr

structure SignatureKey where
  code : UInt64
  deriving DecidableEq, Inhabited, Repr

/-- The named structs, by the kinds of their fields. -/
abbrev Shapes := OrdMap String (OrdSet String)

namespace Shapes

/-- Adds a named struct whose fields are known. -/
def register (types : TypeTable) (shapes : Shapes) (t : TypeId) : Shapes :=
  match types.get? t with
  | some (.struct (some name) _ false) =>
    shapes.alter (types.fieldKinds t) fun names => (names.getD ∅).insert name
  | _ => shapes

/-- The named structs of a program: those of the modules come first. -/
def ofProgram (p : Program) : Shapes :=
  (p.modules.toList.flatMap Module.structs ++ p.types.ids).foldl (register p.types) ∅

def first? (shapes : Shapes) (kinds : String) : Option String :=
  (shapes.get? kinds).bind (·.toList.head?)

end Shapes

def Ty.structText (name : String) (count : Nat) : String :=
  Normal.structName name ++ "," ++ toString count

/-- The text that a type is known by. The kinds of its fields are asked for if it is a struct
without a name, and its printed form if it is no struct. -/
def Ty.keyText {m : Type → Type} [Monad m] (shapes : Shapes) (kinds print : m String) :
    Ty → m String
  | .struct (some name) fields _ => return structText name fields.length
  | .struct none fields _ => do
    let kinds ← kinds
    match shapes.first? kinds with
    | some name => return structText name fields.length
    | none => return "anon\x7b" ++ kinds ++ "\x7d," ++ toString fields.length
  | _ => return Normal.typeText (← print)

namespace TypeTable

def keyText (types : TypeTable) (shapes : Shapes) (t : TypeId) : String :=
  let ty := (types.get? t).getD default
  Id.run (ty.keyText shapes (pure (types.fieldKinds t)) (pure (types.print t)))

def signatureText (types : TypeTable) (t : TypeId) : String :=
  Normal.signatureText (types.print t)

end TypeTable

end CallTargets
