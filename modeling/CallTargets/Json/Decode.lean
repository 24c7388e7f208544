import CallTargets.Json.Basic
/-!
# Decoding JSON values

Data is decoded strictly. A record is an object with all the record's fields, or an
array of them in their order; further fields of an object are ignored, repeated ones are
refused. A variant is an object with one field, named for the variant and holding its
data; a variant without data may also be written as its name alone.
-/

namespace CallTargets.Json

def bool? : Json → Option Bool
  | .bool b => some b
  | _ => none

/-- An integer literal in a range, of which the end is excluded. -/
def intIn? (first past : Int) : Json → Option Int
  | .int n => if first ≤ n && n < past then some n else none
  | _ => none

def nat32? (j : Json) : Option Nat := (j.intIn? 0 (Nat.pow 2 32)).map Int.toNat

def nat64? (j : Json) : Option Nat := (j.intIn? 0 (Nat.pow 2 64)).map Int.toNat

def int64? (j : Json) : Option Int := j.intIn? (-Nat.pow 2 63) (Nat.pow 2 63)

def string? : Json → Option String
  | .str text => text
  | _ => none

def items? : Json → Option (List Json)
  | .arr items => some items
  | _ => none

def list? {α : Type} (item? : Json → Option α) (j : Json) : Option (List α) := do
  (← j.items?).mapM item?

/-- The fields of an object by their names; none may be repeated, and no name may fail to
be a text. -/
def pick? (names : List String) (fields : List (Option String × Json)) :
    Option (List (Option Json)) :=
  if fields.all (·.1.isSome) then
    names.mapM fun name =>
      match fields.filter (·.1 = some name) with
      | [] => some none
      | [(_, value)] => some (some value)
      | _ => none
  else none

def fields? (names : List String) : Json → Option (List (Option Json))
  | .obj fields => pick? names fields
  | .arr items => if items.length = names.length then some (items.map some) else none
  | _ => none

/-- A field that may be missing or `null`. -/
def optional? {α : Type} (value? : Json → Option α) : Option Json → Option (Option α)
  | none => some none
  | some .null => some none
  | some j => (value? j).map some

def variant? : Json → Option (String × Option Json)
  | .str (some name) => some (name, none)
  | .obj [(some name, data)] => some (name, some data)
  | _ => none

def enum? {α : Type} (variants : List (String × α)) (j : Json) : Option α := do
  match ← j.variant? with
  | (name, none) | (name, some .null) => variants.lookup name
  | _ => none

def tagged (name : String) (data : Json) : Json := record [(name, data)]

/-- Every object with repeated fields merged: the last value stands for all of them. -/
def mergeRepeated : Json → Json
  | .arr items => .arr (mergeItems items)
  | .obj fields => .obj (mergeFields fields)
  | j => j
where
  mergeItems : List Json → List Json
    | [] => []
    | j :: js => mergeRepeated j :: mergeItems js
  /-- Merges inside each field and drops those that are repeated later. -/
  mergeFields : List (Option String × Json) → List (Option String × Json)
    | [] => []
    | (k, v) :: rest =>
      let rest := mergeFields rest
      if rest.any (·.1 = k) then rest else (k, mergeRepeated v) :: rest

end CallTargets.Json
