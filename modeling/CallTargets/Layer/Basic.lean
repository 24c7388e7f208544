import CallTargets.Program.Value
/-!
# Layers

A layer is a field of a type. Functions that were stored into a field of an object can
be called through the same field of any object of that type, so layers bound what an
indirect call may reach. Types are given by their names in a program, or by their keys.
-/

namespace CallTargets

inductive Field where
  /-- The field or element with a number. -/
  | nth (n : Nat)
  /-- Any field. -/
  | any
  deriving DecidableEq, Repr

namespace Field

/-- The field an index of an address computation selects; an index that is not known or
negative selects no particular one. -/
def ofIndex (index : GepIndex) : Field :=
  match index.const? with
  | some n => if 0 ≤ n then nth n.toNat else any
  | none => any

def text : Field → String
  | nth n => toString n
  | any => "*"

end Field

structure Layer (κ : Type) where
  type : κ
  field : Field
  deriving DecidableEq, Repr

namespace Layer

variable {κ ι : Type}

def whole (l : Layer κ) : Layer κ := { l with field := .any }

def mapType (f : κ → ι) (l : Layer κ) : Layer ι := ⟨f l.type, l.field⟩

def text (typeText : κ → String) (l : Layer κ) : String :=
  "(" ++ typeText l.type ++ ", " ++ l.field.text ++ ")"

end Layer

end CallTargets
