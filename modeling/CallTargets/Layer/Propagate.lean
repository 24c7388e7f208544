import CallTargets.Layer.Confine
/-!
# Copies between layers

Storing what was loaded from one field into another lets functions pass from layer to
layer. Where a stored pointer cannot be followed, the layers it is stored into escape.
Conversions between structs and untyped memory cut types off from their surroundings.
-/

namespace CallTargets.Gathered

def propagateTo (view : View) (g : Gathered) (ptr : ValueId) (source : Layer TypeKey) : Gathered :=
  g.recordChain view ptr fun facts l => facts.propagate l source

/-- Nothing is known about the layers behind a pointer. -/
def escapeTo (view : View) (g : Gathered) (ptr : ValueId) : Gathered :=
  g.recordChain view ptr Facts.escape

def layersOf (p : Program) (v : ValueId) : List (Layer TypeId) :=
  match (p.nextLayers p.valueIds v).2 with
  | .answered (layers, _) => layers
  | .exhausted _ => []

/-- The constant brings no function from elsewhere. -/
def isSettled (p : Program) (v : ValueId) : Bool :=
  (p.const? v).any fun c => c.isData || c.isAggregate

/-- A pointer behind which no layers are known is copied to what another one points to. -/
def propagatePointer (view : View) (g : Gathered) (store ptr value : ValueId) : Gathered :=
  match view.program.functionPointee? (view.program.strip value) with
  | some t =>
    if (view.program.baseFunction? value).isSome then g
    else
      let g := g.propagateTo view ptr (view.layer ⟨t, .any⟩)
      if store ∈ g.tracedStores then g else g.escapeTo view ptr
  | none => if view.program.isPointer value then g.escapeTo view ptr else g

/-- A value, or the object it points to, is copied to what a pointer points to. -/
def propagateStore (view : View) (g : Gathered) (store ptr value : ValueId) : Gathered :=
  if isSettled view.program value then g
  else match layersOf view.program value with
    | l :: ls => (l :: ls).foldl (fun g l => g.propagateTo view ptr (view.layer l)) g
    | [] =>
      match view.program.baseType? g.aliases value with
      | some t => g.propagateTo view ptr (view.layer ⟨t, .any⟩)
      | none => g.propagatePointer view store ptr value

/-- Target and source of a store or of a call that copies memory. -/
def copy? (p : Program) (v : ValueId) : Option (ValueId × ValueId) :=
  match p.opcode? v with
  | some (.store value ptr) => some (ptr, value)
  | some (.call { callee, args := ptr :: value :: _, .. }) =>
    ((p.baseFunction? callee).filter fun f => Text.startsWith (p.functionName f) "llvm.memcpy").map
      fun _ => (ptr, value)
  | _ => none

/-- The conversions of a function: its own, and constant ones that it uses. -/
def conversions (p : Program) (f : FunctionId) : OrdSet ValueId :=
  (p.instructionsOf f).foldl (fun found v =>
    let found := if (p.cast? v).isSome then found.insert v else found
    found.insertMany ((p.operands v).filter fun operand =>
      (p.const? operand).isSome && (p.bitCast? operand).isSome)) ∅

/-- The type is that of memory without structure. -/
def isUntyped (types : TypeTable) (t : TypeId) : Bool :=
  match types.get? t with
  | some .void | some (.integer _) => true
  | _ => false

/-- The type that a conversion makes untyped or takes from untyped memory, and whether it goes
through an integer. -/
def reinterpretation? (types : TypeTable) (source target : TypeId) : Option (TypeId × Bool) :=
  let inner := types.innermost source
  let outer := types.innermost target
  match types.isPointer source, types.isPointer target with
  | true, true =>
    if types.isStruct inner && isUntyped types outer then some (inner, false)
    else if types.isStruct outer && isUntyped types inner then some (outer, false)
    else none
  | true, false => if types.isInteger target then some (inner, true) else none
  | false, true => if types.isInteger source then some (outer, true) else none
  | false, false => none

def reinterpreted? (types : TypeTable) (source target : TypeId) : Option (TypeId × Bool) :=
  (reinterpretation? types source target).filter fun found => types.isStruct found.1

/-- Caps the struct that a conversion reinterprets; as an integer it escapes too. -/
def propagateCast (view : View) (g : Gathered) (v : ValueId) : Gathered :=
  let p := view.program
  match p.cast? v with
  | some (_, operand) =>
    match reinterpreted? p.types (p.typeOf operand) (p.typeOf v) with
    | some (t, throughInteger) =>
      let key := view.typeKey t
      let g := g.record (·.cap key)
      if throughInteger then g.record (·.escape ⟨key, .any⟩) else g
    | none => g
  | none => g

def propagateInstr (view : View) (g : Gathered) (v : ValueId) : Gathered :=
  match copy? view.program v with
  | some (ptr, value) => g.propagateStore view v ptr value
  | none => g

def propagateIn (view : View) (g : Gathered) (f : FunctionId) : Gathered :=
  (conversions view.program f).toList.foldl (fun g v => g.propagateCast view v)
    ((view.program.instructionsOf f).foldl (propagateInstr view) g)

def function (view : View) (flow : Option Flow) (g : Gathered) (f : FunctionId) : Gathered :=
  ((g.collectAliases view.program f).confineIn view flow f).propagateIn view f

def module (view : View) (flow : Option Flow) (g : Gathered) (m : Module) : Gathered :=
  (m.functions.filter fun f => !view.program.isDeclaration f).foldl (function view flow)
    (m.globals.foldl (fun g id => g.confineInit view id) g)

def linked (view : View) (g : Gathered) : Gathered := g.record (·.mapFunctions view.definitionOf)

end CallTargets.Gathered
