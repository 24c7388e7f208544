import CallTargets.Json.Decode
import CallTargets.Json.Reader
import CallTargets.Strategy
/-!
# Configurations

Which strategy a run uses. A configuration is read from a JSON document, in which every
option may be left out.
-/

namespace CallTargets

/-- The strategies that can be chosen, from the coarsest to the finest. -/
inductive Kind where
  | signature
  | multilayer
  | dataflowEnhanced
  | pointerFlow
  deriving DecidableEq, Repr

inductive ConfigFault where
  | unknownKind (name : String)
  | layerLimit (n : Nat)
  /-- A document that is not one of a configuration. -/
  | malformed
  deriving DecidableEq, Repr

/-- A fault in words; malformed documents have none. -/
def ConfigFault.message? : ConfigFault → Option String
  | unknownKind name => some ("unknown indirect-call analysis kind '" ++ name ++
      "' (expected signature, multilayer, dataflow-enhanced or pointer-flow)")
  | layerLimit n => some ("max-type-layer must be at least 1, got " ++ toString n)
  | malformed => none

namespace Kind

def all : List Kind := [signature, multilayer, dataflowEnhanced, pointerFlow]

def name : Kind → String
  | signature => "signature"
  | multilayer => "multilayer"
  | dataflowEnhanced => "dataflow-enhanced"
  | pointerFlow => "pointer-flow"

def ofName (name : String) : Except ConfigFault Kind :=
  match all.find? fun kind => kind.name = name with
  | some kind => .ok kind
  | none => .error (.unknownKind name)

def indirect (max : Nat) : Kind → Indirect
  | signature => .signature
  | multilayer => .layers { max }
  | dataflowEnhanced => .layers { max, dataflow := true }
  | pointerFlow => .pointerFlow { max, dataflow := true }

def usesLayers (kind : Kind) : Bool := (kind.indirect 1).options?.isSome

/-- Function pointers that are stored are traced. -/
def usesDataflow (kind : Kind) : Bool := (kind.indirect 1).options?.any LayerOptions.dataflow

end Kind

structure Config where
  kind : Kind := .pointerFlow
  maxTypeLayer : Nat := 10
  debug : Bool := false
  deriving DecidableEq, Repr

namespace Config

def strategy (c : Config) : Strategy := { indirect := c.kind.indirect c.maxTypeLayer }

def options? : Json → Option (List (Option Json))
  | .arr items =>
    if items.length ≤ 3 then some (items.map some ++ List.replicate (3 - items.length) none)
    else none
  | j => j.fields? ["icall-analysis-type", "max-type-layer", "debug-mode"]

def option? {α : Type} (value? : Json → Option α) (default : α) : Option Json → Option α
  | some j => value? j
  | none => some default

/-- The configuration of a document, whatever its limit. -/
def decode? (j : Json) : Option Config := do
  match ← options? j with
  | [kind, max, debug] =>
    return { kind := ← option? (Json.enum? (Kind.all.map fun kind => (kind.name, kind)))
               .pointerFlow kind
             maxTypeLayer := ← option? Json.nat64? 10 max
             debug := ← option? Json.bool? false debug }
  | _ => none

/-- Reads a configuration; at least one layer has to be allowed. -/
def parse (text : String) : Except ConfigFault Config :=
  match (Json.parse? text).bind decode? with
  | some c => if c.maxTypeLayer = 0 then .error (.layerLimit 0) else .ok c
  | none => .error .malformed

end Config

end CallTargets
