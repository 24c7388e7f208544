import CallTargets.Text.Basic
import CallTargets.Text.Blank
import CallTargets.Text.Word
/-!
# Normal forms of printed names and types

The same type may be printed under different names in different modules, because
linkers append numbers to names that clash. Comparing types by their printed form
therefore drops such numbers, and blanks. Comparing signatures drops a class pointer in
the place of the first parameter too, so that a method and a call through a pointer to
another class of its hierarchy compare equal.
-/

namespace CallTargets.Normal

theorem length_dropWhile_le {α : Type} (p : α → Bool) (l : List α) :
    (l.dropWhile p).length ≤ l.length :=
  (List.dropWhile_suffix p).length_le

/-- The text without numbers that follow a point and end a word. -/
def dropNumbers : List Char → List Char
  | [] => []
  | '.' :: rest =>
    if !(rest.takeWhile Char.isDigit).isEmpty &&
        !(rest.dropWhile Char.isDigit).head?.any Text.isWord then
      dropNumbers (rest.dropWhile Char.isDigit)
    else '.' :: dropNumbers rest
  | c :: rest => c :: dropNumbers rest
termination_by text => text.length
decreasing_by
  · exact Nat.lt_succ_of_le (length_dropWhile_le _ _)
  · simp
  · simp

/-- The text of a function type without a class pointer in the place of its first
parameter. -/
def dropReceiver (text : List Char) : List Char :=
  match text.dropWhile (· ≠ '(') with
  | '(' :: params =>
    match Text.afterLead "%class.".toList params with
    | some named =>
      let inName := fun c => c ≠ '*' && c ≠ ',' && c ≠ '(' && c ≠ ')'
      match named.takeWhile inName, named.dropWhile inName with
      | _ :: _, '*' :: ',' :: rest => text.takeWhile (· ≠ '(') ++ '(' :: rest
      | _ :: _, '*' :: rest => text.takeWhile (· ≠ '(') ++ '(' :: rest
      | _, _ => text
    | none => text
  | _ => text

def typeText (printed : String) : String :=
  String.ofList (Text.dropBlanks (dropNumbers printed.toList))

def signatureText (printed : String) : String :=
  String.ofList (Text.dropBlanks (dropReceiver (dropNumbers printed.toList)))

/-- A text, reversed, without a last point and the digits behind it. -/
def dropLastNumber? (reversed : List Char) : Option (List Char) :=
  match reversed.takeWhile Char.isDigit, reversed.dropWhile Char.isDigit with
  | _ :: _, '.' :: rest => some rest
  | _, _ => none

theorem length_of_dropLastNumber? {text rest : List Char} (h : dropLastNumber? text = some rest) :
    rest.length < text.length := by
  unfold dropLastNumber? at h
  split at h
  · rename_i heq
    have := length_dropWhile_le Char.isDigit text
    rw [heq] at this
    cases h
    exact this
  · simp at h

/-- The name of a struct without the number that tells it from its namesakes. Names of
unnamed structs keep theirs, which is all they have. -/
def structName (name : String) : String :=
  if Text.contains name ".anon" then name
  else match dropLastNumber? name.toList.reverse with
    | some rest => String.ofList rest.reverse
    | none => name

def dropLastNumbers (reversed : List Char) : List Char :=
  match _h : dropLastNumber? reversed with
  | some rest => dropLastNumbers rest
  | none => reversed
termination_by reversed.length
decreasing_by exact length_of_dropLastNumber? ‹_›

/-- The name of a function without the numbers of its clones; a name of nothing but
numbers stays. -/
def functionName (name : String) : String :=
  match dropLastNumbers name.toList.reverse with
  | [] => name
  | rest => String.ofList rest.reverse

end CallTargets.Normal
