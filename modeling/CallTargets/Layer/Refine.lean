import CallTargets.Layer.Facts
import CallTargets.Layer.Walk
import CallTargets.View
/-!
# Refining the targets of a call

The candidates for an indirect call are narrowed layer by layer: the pointer that is
called was loaded from a field, so it is one of the functions that the field may hold.
-/

namespace CallTargets

inductive Stop where
  | noCandidates
  /-- As many layers as are allowed were used. -/
  | limit
  | capped (t : TypeKey)
  /-- The pointer comes from no further field. -/
  | noLayers
  | escaped (l : Layer TypeKey)
  | nothingLeft (l : Layer TypeKey)
  deriving DecidableEq, Repr

def Stop.text (typeText : TypeKey → String) : Stop → String
  | noCandidates => "empty baseline"
  | limit => "layer limit"
  | capped t => "capped at " ++ typeText t
  | noLayers => "no more layers"
  | escaped l => "escaped at " ++ l.text typeText
  | nothingLeft l => "empty intersection at " ++ l.text typeText

abbrev Matches := OrdMap (Layer TypeKey) (OrdSet FunctionId)

def Matches.recall (kept : Matches) (facts : Facts TypeKey) (l : Layer TypeKey) :
    OrdSet FunctionId := (kept.get? l).getD (facts.matched l)

structure Refinement where
  targets : OrdSet FunctionId
  /-- The layers used so far, with what each left. -/
  steps : List (Layer TypeKey × OrdSet FunctionId) := []
  kept : Matches

namespace Refinement

/-- The number of the layer to come; the signature is the first one. -/
def depth (r : Refinement) : Nat := r.steps.length + 1

/-- Narrows the targets by layers, up to the first reason to stop. -/
def narrow (facts : Facts TypeKey) (max : Nat) (r : Refinement) :
    List (Layer TypeKey) → Refinement × Option Stop
  | [] => (r, none)
  | l :: rest =>
    if max ≤ r.depth then (r, some .limit)
    else if facts.isEscaped l then (r, some (.escaped l))
    else
      let held := r.kept.recall facts l
      let kept := r.kept.insertIfNew l held
      let targets := r.targets.filter fun f => f ∈ held
      if targets.isEmpty then ({ r with kept }, some (.nothingLeft l))
      else
        let r := { targets, steps := r.steps ++ [(l, targets)], kept }
        if facts.isCapped l.type then (r, some (.capped l.type))
        else narrow facts max r rest

def last (r : Refinement) (type : TypeKey) : TypeKey :=
  (r.steps.getLast?.map fun s => s.1.type).getD type

def walk (view : View) (facts : Facts TypeKey) (max : Nat) (type : TypeKey)
    (fresh : List ValueId) (v : ValueId) (r : Refinement) : Refinement × Stop :=
  if max ≤ r.depth then (r, .limit)
  else if facts.isCapped (r.last type) then (r, .capped (r.last type))
  else match view.program.nextLayers fresh v with
    | (_, .exhausted _) => (r, .noLayers)
    | (left, .answered (layers, base)) =>
      if layers.isEmpty then (r, .noLayers)
      else match r.narrow facts max (layers.map view.layer) with
        | (r, some stop) => (r, stop)
        | (r, none) =>
          if left.length < fresh.length then walk view facts max type left base r
          else (r, .noLayers)
termination_by fresh.length

end Refinement

structure Resolution where
  /-- The candidates by signature. -/
  baseline : OrdSet FunctionId
  /-- The layers used, innermost first, with what each left. -/
  steps : List (Layer TypeKey × OrdSet FunctionId)
  stop : Stop
  targets : OrdSet FunctionId

/-- Refines the candidates for a call, which may use so many layers at most. -/
def View.refine (view : View) (facts : Facts TypeKey) (max : Nat) (kept : Matches)
    (baseline : OrdSet FunctionId) (call : Option Call) : Resolution × Matches :=
  match call with
  | some call =>
    if baseline.isEmpty then
      ({ baseline, steps := [], stop := .noCandidates, targets := baseline }, kept)
    else
      let (r, stop) := Refinement.walk view facts max (view.typeKey call.type)
        view.program.valueIds call.callee { targets := baseline, kept }
      ({ baseline, steps := r.steps, stop, targets := r.targets }, r.kept)
  | none => ({ baseline, steps := [], stop := .noCandidates, targets := baseline }, kept)

end CallTargets
