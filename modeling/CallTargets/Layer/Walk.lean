import CallTargets.Graph.Search
import CallTargets.Layer.Basic
import CallTargets.Ordered.Map
import CallTargets.Program.Basic
/-!
# The layers behind a pointer

Walking back from a pointer leads to the address computations it was made by. Each one
contributes the fields that its indices select, innermost first. A walk sees through
loads, conversions and joins, and ends at arguments and variables.
-/

namespace CallTargets.Program

/-! ## One address computation -/

/-- The layers that indices select, innermost first, and the type they lead to. -/
def indexLayers (types : TypeTable) (t : TypeId) : List GepIndex → List (Layer TypeId) × TypeId
  | [] => ([], t)
  | index :: rest =>
    match types.element? t index.const? with
    | some next =>
      let (layers, last) := indexLayers types next rest
      (layers ++ [⟨t, .ofIndex index⟩], last)
    | none => ([⟨t, .ofIndex index⟩], t)

/-- Some use of the address takes it for one of the first field, which has the same address
as the whole struct. -/
def isFirstField (p : Program) (v : ValueId) (first : TypeId) : Bool :=
  (p.usersOf v).any fun user => (p.bitCast? user).isSome && p.pointee? user = some first

/-- The layers of an address computation, innermost first. The first index selects no
field. -/
def gepLayers (p : Program) (v : ValueId) (g : Gep) : List (Layer TypeId) :=
  let (layers, last) := indexLayers p.types g.source g.indices.tail
  match (p.types.fields? last).bind List.head? with
  | some first => if p.isFirstField v first then ⟨last, .nth 0⟩ :: layers else layers
  | none => layers

/-! ## Walking back -/

/-- Arguments and variables: where walks end. -/
def isRoot (p : Program) (v : ValueId) : Bool :=
  match (p.value? v).map Value.kind with
  | some (.argument ..) | some (.global _) => true
  | some (.instr i) => i.opcode.isAlloca
  | _ => false

/-- One step back, if the walk sees through the value. The first branch of a join that leads
to an address computation is the one that counts. -/
def walkBack? (p : Program) (v : ValueId) : Option (List ValueId) :=
  match p.opcode? v with
  | some (.load ptr) => some [ptr]
  | some (.select _ ifTrue _) => some [ifTrue]
  | some (.phi incoming) => some incoming
  | some (.unary operand) => some [operand]
  | _ => (p.bitCast? v).map fun operand => [operand]

/-- The walk to the next address computation. Its answer is the layers and the base of the
computation. Without one, the walk keeps the last place where it got no further, if that
is a root or a value it has been at before. -/
def layerWalk (p : Program) :
    Search ValueId (Option ValueId) (List (Layer TypeId) × ValueId) where
  turn := .newest
  visit := fun root v =>
    if p.isArgument v then .goOn (some v) []
    else match p.gep? v with
      | some g => .stop (p.gepLayers v g, g.base)
      | none =>
        match p.walkBack? v with
        | some next => .goOn root next
        | none => .goOn (if p.isRoot v then some v else none) []
  pass := fun _ v => some v

def nextLayers (p : Program) (fresh : List ValueId) (v : ValueId) :
    List ValueId × Outcome (Option ValueId) (List (Layer TypeId) × ValueId) :=
  p.layerWalk.run fresh [v] (some v)

/-- All layers behind a value, innermost first, and the root at the end of the walk. An
address computation uses up a value, so there always is less to walk behind it. -/
def layersFrom (p : Program) (fresh : List ValueId) (v : ValueId) :
    List (Layer TypeId) × Option ValueId :=
  match p.nextLayers fresh v with
  | (left, .answered (layers, base)) =>
    if left.length < fresh.length then
      let (outer, root) := p.layersFrom left base
      (layers ++ outer, root)
    else (layers, none)
  | (_, .exhausted root) => ([], root)
termination_by fresh.length

/-! ## Whole chains -/

def compositeSearch (p : Program) (aliases : OrdMap ValueId ValueId) :
    Search ValueId Unit TypeId where
  turn := .newest
  visit := fun _ v =>
    match here? v with
    | some t => .stop t
    | none => .goOn () (next v)
where
  here? (v : ValueId) : Option TypeId := do
    let t ← p.type? v
    if p.types.isComposite t then return t
    let pointee ← p.types.pointee? t
    if p.types.isComposite pointee then return pointee
    p.pointee? (← aliases.get? v)
  next (v : ValueId) : List ValueId :=
    match p.opcode? v with
    | some (.select _ ifTrue _) => [ifTrue]
    | some (.phi incoming) => incoming
    | some (.load ptr) => [ptr]
    | _ => (p.bitCast? v).toList

/-- The struct, array or vector type that a value points into. `aliases` gives untyped
results of calls the conversion that types them. -/
def baseType? (p : Program) (aliases : OrdMap ValueId ValueId) (v : ValueId) : Option TypeId :=
  match ((p.compositeSearch aliases).run p.valueIds [v] ()).2 with
  | .answered t => some t
  | .exhausted _ => none

/-- Nothing from outside can get in at the root of a chain: it is no pointer argument, and
nothing is stored into it. -/
def isClosedRoot (p : Program) (root : ValueId) : Bool :=
  !(p.isArgument root && p.isPointer root) &&
    !(p.usersOf root).any fun user => (p.store? user).any fun (_, ptr) => ptr = root

/-- All layers a value may be nested in, innermost first, and whether they are known to be
all. -/
def typeChain (p : Program) (aliases : OrdMap ValueId ValueId) (v : ValueId) :
    List (Layer TypeId) × Bool :=
  let base := (p.baseType? aliases v).map fun t => (⟨t, .nth 0⟩ : Layer TypeId)
  let (layers, root) := p.layersFrom p.valueIds v
  (base.toList ++ layers, root.any p.isClosedRoot)

end CallTargets.Program
