/-!
# Texts as lists of characters

What the readers of symbols and printed types need: leading and trailing parts,
cuts by byte length, and decimal numerals.
-/

namespace CallTargets.Text

def afterLead : (lead text : List Char) → Option (List Char)
  | [], text => some text
  | _ :: _, [] => none
  | l :: lead, c :: text => if l = c then afterLead lead text else none

theorem afterLead_eq_some_iff {lead text rest : List Char} :
    afterLead lead text = some rest ↔ text = lead ++ rest := by
  induction lead generalizing text with
  | nil => simp [afterLead, eq_comm]
  | cons l lead ih =>
    cases text with
    | nil => simp [afterLead]
    | cons c text =>
      by_cases hc : l = c
      · simp [afterLead, hc, ih]
      · simp [afterLead, hc, Ne.symm hc]

theorem afterLead_self (lead rest : List Char) : afterLead lead (lead ++ rest) = some rest :=
  afterLead_eq_some_iff.2 rfl

theorem isSome_afterLead_iff {lead text : List Char} :
    (afterLead lead text).isSome = true ↔ lead <+: text := by
  rw [Option.isSome_iff_exists]
  exact exists_congr fun rest => afterLead_eq_some_iff.trans eq_comm

/-- A beginning does not go beyond a character that it lacks. -/
theorem afterLead_append {lead : List Char} {c : Char} (h : c ∉ lead) (text rest : List Char) :
    afterLead lead (text ++ c :: rest) = (afterLead lead text).map (· ++ c :: rest) := by
  induction lead generalizing text with
  | nil => rfl
  | cons l lead ih =>
    rw [List.mem_cons, not_or] at h
    cases text with
    | nil => exact if_neg (Ne.symm h.1)
    | cons d text =>
      by_cases hd : l = d
      · rw [List.cons_append, afterLead, afterLead, if_pos hd, if_pos hd, ih h.2]
      · rw [List.cons_append, afterLead, afterLead, if_neg hd, if_neg hd, Option.map_none]

def startsWith (text lead : String) : Bool := (afterLead lead.toList text.toList).isSome

def dropLead? (text lead : String) : Option String :=
  (afterLead lead.toList text.toList).map String.ofList

def occursIn (part : List Char) : (text : List Char) → Bool
  | [] => part.isEmpty
  | c :: text => (afterLead part (c :: text)).isSome || occursIn part text

def contains (text part : String) : Bool := occursIn part.toList text.toList

/-- Cuts off a beginning of so many bytes in UTF-8. There is none if the text is shorter
or the cut would fall inside a character. -/
def takeBytes : (bytes : Nat) → List Char → Option (List Char × List Char)
  | 0, text => some ([], text)
  | _ + 1, [] => none
  | n + 1, c :: text =>
    if c.utf8Size ≤ n + 1 then
      (takeBytes (n + 1 - c.utf8Size) text).map fun (taken, rest) => (c :: taken, rest)
    else none

def decimal (digits : List Char) : Nat :=
  digits.foldl (fun n d => 10 * n + (d.toNat - '0'.toNat)) 0

/-- The texts one after another, with a separator between neighbours. -/
def joinWith (separator : String) : List String → String
  | [] => ""
  | [t] => t
  | t :: ts => t ++ separator ++ joinWith separator ts

end CallTargets.Text
