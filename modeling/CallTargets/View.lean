import CallTargets.Key.Basic
import CallTargets.Layer.Basic
/-!
# The view of a program

What all analyses need to know about a program: the keys of its types and signatures,
and, once it is linked, the definitions behind declarations of other modules.
-/

namespace CallTargets

/-- A program with what is derived from it. -/
structure View where
  program : Program
  hash : String → UInt64
  shapes : Shapes
  /-- The functions that can be seen from other modules, by their names. -/
  definitions : OrdMap String FunctionId

namespace View

def ofProgram [Hasher] (program : Program) : View where
  program
  hash := Hasher.hash
  shapes := Shapes.ofProgram program
  definitions := ∅

/-- Adds a function that can be seen from other modules to the definitions; the first one
of a name stands for it. -/
def recordDefinition (p : Program) (definitions : OrdMap String FunctionId) (f : FunctionId) :
    OrdMap String FunctionId :=
  match p.function? f with
  | some { name, linkage, blocks := _ :: _, .. } =>
    if linkage.isExternal then definitions.insertIfNew name f else definitions
  | _ => definitions

def link (view : View) : View :=
  let definitions :=
    view.program.functionIds.foldl (recordDefinition view.program) view.definitions
  { view with definitions }

def typeKey (view : View) (t : TypeId) : TypeKey :=
  ⟨view.hash (view.program.types.keyText view.shapes t)⟩

def layer (view : View) (l : Layer TypeId) : Layer TypeKey := l.mapType view.typeKey

def signature (view : View) (t : TypeId) : SignatureKey :=
  ⟨view.hash (view.program.types.signatureText t)⟩

def signatureOf (view : View) (f : FunctionId) : SignatureKey :=
  view.signature (((view.program.function? f).map Function.type).getD default)

/-- The function itself, or the definition that a declaration stands for: the one of the
same name, if it has the same signature. -/
def definitionOf (view : View) (f : FunctionId) : FunctionId :=
  match view.program.function? f with
  | some { name, blocks := [], .. } =>
    match view.definitions.get? name with
    | some d => if view.signatureOf d = view.signatureOf f then d else f
    | none => f
  | _ => f

def directTarget? (view : View) (callee : ValueId) : Option FunctionId :=
  ((view.program.baseFunction? callee).map view.definitionOf).filter
    fun f => !view.program.isDeclaration f

end View

end CallTargets
