import CallTargets.Json.Token
import CallTargets.Json.Writer
import Mathlib.Data.Nat.Digits.Defs

/-!
# Tokens of written text

A string or a number that is written in front of a text is read back as one token. A string ends
with its quote. A number ends where no character follows that could go on with it, which holds
of all that is written behind a value (`Delimited`).
-/

namespace CallTargets

theorem Text.decimal_toDigits (n : Nat) : decimal (Nat.toDigits 10 n) = n := by
  have hread : Nat.ofDigitChars 10 (Nat.toDigits 10 n) 0 = n := Nat.ofDigitChars_ten_toDigits
  rwa [Nat.ofDigitChars_eq_foldl] at hread

namespace Json

/-! ## Strings -/

theorem hexDigit?_hexDigit (n : Nat) (h : n < 16) : Token.hexDigit? (hexDigit n) = some n := by
  revert n
  decide

theorem hex4?_hexDigit {n : Nat} (h : n < 256) :
    Token.hex4? '0' '0' (hexDigit (n / 16)) (hexDigit (n % 16)) = some n := by
  have hzero : Token.hexDigit? '0' = some 0 := rfl
  have hhigh := hexDigit?_hexDigit (n / 16) (by omega)
  have hlow := hexDigit?_hexDigit (n % 16) (by omega)
  simp only [Token.hex4?, hzero, hhigh, hlow, Option.bind_eq_bind, Option.bind_some,
    Option.pure_def, Option.some.injEq]
  omega

theorem stringUnits_cons {c : Char} (hquote : c ≠ '"') (hback : c ≠ '\\') (hc : ¬ c.toNat < 0x20)
    (rest : List Char) :
    Token.stringUnits (c :: rest) =
      (Token.stringUnits rest).map fun read => (c.toNat :: read.1, read.2) := by
  rw [Token.stringUnits.eq_def]
  split
  case h_1 heq => cases heq
  case h_2 heq => exact absurd (List.cons.inj heq).1 hquote
  case h_3 heq => exact absurd (List.cons.inj heq).1 hback
  case h_4 heq => exact absurd (List.cons.inj heq).1 hback
  case h_5 heq =>
    obtain ⟨rfl, rfl⟩ := List.cons.inj heq
    rw [if_neg (by simp [hc, hback]), Option.map_eq_bind]
    rfl

theorem stringUnits_charText (c : Char) (rest : List Char) :
    Token.stringUnits (charText c ++ rest) =
      (Token.stringUnits rest).map fun read => (c.toNat :: read.1, read.2) := by
  unfold charText
  split
  case h_8 hquote hback _ _ _ _ _ =>
    split
    · rename_i hcontrol
      change (Token.hex4? _ _ _ _).bind _ = _
      rw [hex4?_hexDigit (by omega), Option.map_eq_bind]
      rfl
    · exact stringUnits_cons hquote hback ‹_› rest
  all_goals
    rw [Option.map_eq_bind]
    rfl

theorem stringUnits_write (cs rest : List Char) :
    Token.stringUnits (cs.foldr (fun c rest => charText c ++ rest) ('"' :: rest)) =
      some (cs.map Char.toNat, rest) := by
  induction cs with
  | nil => rfl
  | cons c cs ih =>
    rw [List.foldr_cons, stringUnits_charText, ih]
    rfl

theorem not_surrogate (c : Char) : Token.isHigh c.toNat = false ∧ Token.isLow c.toNat = false := by
  have hvalid : c.toNat < 0xd800 ∨ 0xdfff < c.toNat ∧ c.toNat < 0x110000 := c.valid
  simp only [Token.isHigh, Token.isLow, Bool.and_eq_false_iff, decide_eq_false_iff_not]
  omega

theorem unitChars_map_toNat (cs : List Char) : Token.unitChars (cs.map Char.toNat) = some cs := by
  induction cs with
  | nil => rfl
  | cons c cs ih =>
    obtain ⟨hhigh, hlow⟩ := not_surrogate c
    cases cs with
    | nil => simp [Token.unitChars, hhigh, hlow]
    | cons d cs =>
      simp only [List.map_cons] at ih ⊢
      simp [Token.unitChars, hhigh, hlow, ih]

theorem next?_writeString (s : Option String) (rest : List Char) :
    Token.next? (writeString s rest) = some (.str s, rest) := by
  cases s with
  | none => rfl
  | some s =>
    change (Token.stringUnits _).map _ = _
    rw [stringUnits_write, Option.map_some]
    change some
      (Token.str ((Token.unitChars (s.toList.map Char.toNat)).map String.ofList), rest) = _
    rw [unitChars_map_toNat, Option.map_some, String.ofList_toList]

theorem length_lt_writeString (s : Option String) (rest : List Char) :
    rest.length < (writeString s rest).length := by
  cases s with
  | none =>
    change rest.length < (['"', '\\', 'u', 'd', '8', '0', '0', '"'] ++ rest).length
    rw [List.length_append, List.length_cons]
    omega
  | some s =>
    change rest.length < (List.foldr _ ('"' :: rest) s.toList).length + 1
    generalize s.toList = cs
    induction cs with
    | nil =>
      rw [List.foldr_nil, List.length_cons]
      omega
    | cons c cs ih =>
      rw [List.foldr_cons, List.length_append]
      omega

/-! ## Numbers -/

/-- No character follows that could go on with a number. -/
def Delimited (rest : List Char) : Prop :=
  ∀ c ∈ rest.head?, c = ',' ∨ c = ']' ∨ c = '\x7d'

theorem delimited_nil : Delimited [] := nofun

theorem delimited_comma (rest : List Char) : Delimited (',' :: rest) := by
  simp [Delimited]

theorem delimited_closeArr (rest : List Char) : Delimited (']' :: rest) := by
  simp [Delimited]

theorem delimited_closeObj (rest : List Char) : Delimited ('\x7d' :: rest) := by
  simp [Delimited]

theorem exists_toDigits_eq_cons (n : Nat) :
    ∃ d ds, Nat.toDigits 10 n = d :: ds ∧ d.isDigit = true ∧ (d = '0' → n = 0) := by
  induction n using Nat.strongRecOn with
  | ind n ih =>
    by_cases hn : n < 10
    · refine ⟨n.digitChar, [], Nat.toDigits_of_lt_base hn, ?_, Nat.digitChar_eq_zero.1⟩
      rw [Nat.isDigit_digitChar, decide_eq_true hn]
    · obtain ⟨d, ds, hds, hd, hzero⟩ := ih (n / 10) (by omega)
      refine ⟨d, ds ++ [(n % 10).digitChar], ?_, hd, fun h => ?_⟩
      · rw [Nat.toDigits_eq_if (by decide), if_neg hn, hds, List.cons_append]
      · have htens : n / 10 = 0 := hzero h
        omega

theorem next?_of_isDigit {c : Char} (hc : c.isDigit = true) (text : List Char) :
    Token.next? (c :: text) = Token.number? false (c :: text) := by
  unfold Token.next?
  split
  case h_12 => rfl
  all_goals
    rename_i heq
    rw [(List.cons.inj heq).1] at hc
    exact absurd hc (by decide)

section Number

variable {rest : List Char} (hrest : Delimited rest)
include hrest

theorem digits?_append {ds : List Char} (hds : ∀ d ∈ ds, d.isDigit = true) (hne : ds ≠ []) :
    Token.digits? (ds ++ rest) = some (ds, rest) := by
  have hstop : rest.takeWhile Char.isDigit = [] ∧ rest.dropWhile Char.isDigit = rest := by
    cases rest with
    | nil => exact ⟨rfl, rfl⟩
    | cons c rest =>
      have hc : c.isDigit = false := by
        rcases hrest c rfl with rfl | rfl | rfl <;> rfl
      simp [hc]
  unfold Token.digits?
  rw [List.takeWhile_append_of_pos hds, List.dropWhile_append_of_pos hds, hstop.1, hstop.2,
    List.append_nil]
  split
  · exact absurd rfl hne
  · rfl

theorem fraction?_of_delimited : Token.fraction? rest = some ([], rest) := by
  unfold Token.fraction?
  split
  · exact absurd (hrest '.' rfl) (by decide)
  · rfl

theorem exponent?_of_delimited : Token.exponent? rest = some ([], rest) := by
  unfold Token.exponent?
  split
  · exact absurd (hrest 'e' rfl) (by decide)
  · exact absurd (hrest 'E' rfl) (by decide)
  · rfl

theorem whole?_toDigits (n : Nat) :
    Token.whole? (Nat.toDigits 10 n ++ rest) = some (Nat.toDigits 10 n, rest) := by
  by_cases hn : n = 0
  · rw [hn]
    rfl
  · obtain ⟨d, ds, hds, -, hzero⟩ := exists_toDigits_eq_cons n
    have hdigits : Token.digits? (Nat.toDigits 10 n ++ rest) = some (Nat.toDigits 10 n, rest) :=
      digits?_append hrest (fun d hd => Nat.isDigit_of_mem_toDigits (by decide) (by decide) hd)
        Nat.toDigits_ne_nil
    rw [hds] at hdigits ⊢
    unfold Token.whole?
    split
    · rename_i heq
      exact absurd (hzero (List.cons.inj heq).1) hn
    · exact hdigits

theorem number?_toDigits (negative : Bool) (n : Nat) (hn : negative = false ∨ n ≠ 0) :
    Token.number? negative (Nat.toDigits 10 n ++ rest) =
      some (.int (if negative then -n else n), rest) := by
  simp only [Token.number?, whole?_toDigits hrest, fraction?_of_delimited hrest,
    exponent?_of_delimited hrest, Text.decimal_toDigits, Option.bind_eq_bind,
    Option.bind_some, Option.pure_def]
  rw [if_pos]
  simpa using hn

theorem next?_int (n : Int) : Token.next? ((toString n).toList ++ rest) = some (.int n, rest) := by
  rw [Int.toString_eq_repr, Int.repr_eq_if]
  by_cases hn : 0 ≤ n
  · have hnumber := number?_toDigits hrest false n.toNat (.inl rfl)
    rw [if_pos hn, Nat.repr_eq_ofList_toDigits, String.toList_ofList]
    obtain ⟨d, ds, hds, hd, -⟩ := exists_toDigits_eq_cons n.toNat
    rw [hds] at hnumber ⊢
    rw [List.cons_append, next?_of_isDigit hd, ← List.cons_append, hnumber,
      if_neg Bool.false_ne_true,
      Int.toNat_of_nonneg hn]
  · have hnumber := number?_toDigits hrest true (-n).toNat (.inr (by omega))
    rw [if_neg hn, Nat.repr_eq_ofList_toDigits]
    simp only [String.toList_append, String.toList_ofList]
    change Token.number? true (Nat.toDigits 10 (-n).toNat ++ rest) = _
    rw [hnumber, if_pos rfl, Int.toNat_of_nonneg (by omega), Int.neg_neg]

end Number

theorem length_toString_pos (n : Int) : 0 < (toString n).toList.length := by
  have hdigits (m : Nat) : 0 < m.repr.toList.length := by
    rw [Nat.repr_eq_ofList_toDigits, String.toList_ofList]
    exact Nat.length_toDigits_pos
  rw [Int.toString_eq_repr, Int.repr_eq_if]
  split
  · exact hdigits _
  · rw [String.toList_append, List.length_append]
    exact Nat.lt_of_lt_of_le (hdigits _) (Nat.le_add_left _ _)

end Json

end CallTargets
