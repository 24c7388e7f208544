/-!
# JSON values

Numbers keep what decoding has to tell apart: an integer literal is its value, any
other number literal is kept as it was written. A string literal may name half of a
surrogate pair; it then stands for no text, which matters only where the text is
looked at.
-/

namespace CallTargets

inductive Json where
  | null
  | bool (b : Bool)
  /-- A number without fraction and exponent, `-0` excepted. -/
  | int (n : Int)
  /-- Any other number, as it was written. -/
  | real (literal : String)
  /-- A string; `none` if its escapes name an unpaired surrogate. -/
  | str (text : Option String)
  | arr (items : List Json)
  | obj (fields : List (Option String × Json))
  deriving Inhabited, Repr

namespace Json

def text (s : String) : Json := .str (some s)

def nat (n : Nat) : Json := .int n

def record (fields : List (String × Json)) : Json :=
  .obj (fields.map fun (k, v) => (some k, v))

/-- The value, or `null` where there is none. -/
def ofOption {α : Type} (f : α → Json) : Option α → Json
  | some a => f a
  | none => .null

def ofList {α : Type} (f : α → Json) (items : List α) : Json := .arr (items.map f)

/-- The value of a field; the first one if the name is repeated. -/
def field? (name : String) : Json → Option Json
  | .obj fields => (fields.find? fun e => e.1 = some name).map Prod.snd
  | _ => none

end Json

end CallTargets
