import CallTargets.Proofs.Symbol.Constructs
import CallTargets.Proofs.Symbol.Yields

/-!
# Numbers in words of 64 bits

Places in a symbol, the numerals in it and what is computed from them are kept in words of 64 bits.
Numerals that are too large are rejected, which leaves room for their negative, for the index of a
template parameter and for the end of an identifier. Two sums have no such room and overflow: the
ordinal of an unnamed entity behind the largest two numerals, and the place of a back-reference
behind the largest one (`words_exact_iff`).
-/

namespace CallTargets.Symbol

open Scan

variable {cursor c : Cursor} {n : Int} {rest text : List Char}

def IsSigned (n : Int) : Prop := -2 ^ 63 ≤ n ∧ n < 2 ^ 63

/-- The number fits into a word without a sign. -/
def IsUnsigned (n : Nat) : Prop := n < 2 ^ 64

/-- The cursor stands in a text, so many bytes behind its beginning. -/
def Cursor.At (c : Cursor) (text : List Char) (position : Nat) : Prop :=
  ∃ passed, text = passed ++ c.rest ∧ position = (String.ofList passed).utf8ByteSize

/-! ## Places -/

namespace Cursor.At

variable {position : Nat}

theorem forward (h : cursor.At text position) (hsuffix : c.rest <:+ cursor.rest) :
    ∃ position', c.At text position' ∧ position ≤ position' := by
  obtain ⟨passed, rfl, rfl⟩ := h
  obtain ⟨read, hread⟩ := hsuffix
  refine ⟨(String.ofList (passed ++ read)).utf8ByteSize, ⟨passed ++ read, ?_, rfl⟩, ?_⟩
  · rw [← hread, List.append_assoc]
  · rw [String.ofList_append, String.utf8ByteSize_append]
    exact Nat.le_add_right _ _

theorem le_size (h : cursor.At text position) :
    position ≤ (String.ofList text).utf8ByteSize := by
  obtain ⟨passed, rfl, rfl⟩ := h
  rw [String.ofList_append, String.utf8ByteSize_append]
  exact Nat.le_add_right _ _

end Cursor.At

/-! ## Numerals -/

theorem numberOf_range {negative : Bool} {digits : List Char}
    (h : numberOf negative digits = some n) : -2 ^ 63 < n ∧ n < 2 ^ 63 := by
  unfold numberOf at h
  split at h
  · cases h
  · rename_i hfits
    rw [not_or, Nat.not_le] at hfits
    cases h
    split <;> omega

theorem number_range (h : number.run cursor = some (n, c)) : -2 ^ 63 < n ∧ n < 2 ^ 63 := by
  have hyields : Yields number cursor fun n _ => -2 ^ 63 < n ∧ n < 2 ^ 63 := by
    rw [number_eq]
    refine Yields.bind fun negative _ _ => Yields.bind fun digits _ _ => Yields.lift fun n hn => ?_
    exact numberOf_range hn
  exact hyields n c h

theorem head?_ne_of_number (h : number.run cursor = some (n, c)) :
    cursor.rest.head? ≠ some '_' := by
  intro hhead
  obtain ⟨tail, hrest⟩ := List.head?_eq_some_iff.1 hhead
  have hsign : cursor.rest.head? ≠ some 'n' := by simp [hhead]
  have hdigit : Char.isDigit '_' = false := by decide
  rw [number_eq, Scan.run_bind, run_accept_of_head?_ne hsign] at h
  simp [run_span, hrest, hdigit, numberOf] at h

/-! ## Sums -/

/-- From no place a sum of the reader overflows. -/
def Safe {α : Type} (x : Scan α) : Prop := ∀ c, x.overflows c = false

namespace Safe

variable {α β : Type} {x : Scan α} {f : α → Scan β}

theorem bind (hx : Safe x) (hf : ∀ a, Safe (f a)) : Safe (x >>= f) := by
  intro c
  rw [overflows_bind, hx c]
  cases x.run c with
  | none => rfl
  | some r => exact hf r.1 r.2

theorem accept (x : Char) : Safe (Scan.accept x) := by
  refine bind (fun _ => rfl) fun next => ?_
  split
  · exact bind (fun _ => rfl) fun _ _ => rfl
  · exact fun _ => rfl

theorem expect (x : Char) : Safe (Scan.expect x) := by
  refine bind (accept x) fun found => ?_
  cases found <;> exact fun _ => rfl

theorem number : Safe Scan.number := by
  rw [number_eq]
  exact bind (accept 'n') fun _ => bind (fun _ => rfl) fun _ _ => rfl

end Safe

theorem le_ordinal_iff : n + 2 ≥ Nat.pow 2 63 ↔ 2 ^ 63 - 2 ≤ n := by
  change (9223372036854775808 : Int) ≤ n + 2 ↔ _
  omega

theorem overflows_ordinal (h : number.run cursor = some (n, c)) :
    ordinal.overflows cursor = true ↔ 2 ^ 63 - 2 ≤ n := by
  rw [ordinal, overflows_bind, Safe.accept, run_accept_of_head?_ne (head?_ne_of_number h)]
  change (number >>= _).overflows cursor = true ↔ _
  rw [overflows_bind, Safe.number, h, ← le_ordinal_iff]
  change Scan.overflows (if n + 2 ≥ Nat.pow 2 63 then _ else _) c = true ↔ _
  split
  · rename_i hfull
    exact iff_of_true rfl hfull
  · rename_i hroom
    refine iff_of_false (fun hover => ?_) hroom
    rw [Safe.bind (Safe.expect '_') (fun _ _ => rfl) c] at hover
    cases hover

theorem run_ordinal (h : number.run cursor = some (n, c)) (hn : n < 2 ^ 63 - 2)
    (hrest : c.rest = '_' :: rest) : ordinal.run cursor = some (n + 2, c.facing rest) := by
  have hroom : ¬ n + 2 ≥ Nat.pow 2 63 := le_ordinal_iff.not.2 (by omega)
  have hexpect := run_expect_eq hrest
  simp only [ordinal, Scan.run_bind, run_accept_of_head?_ne (head?_ne_of_number h), h, hroom,
    hexpect, Option.bind_eq_bind, Option.bind_some, Bool.false_eq_true, if_false, Scan.run_pure]

section SeqId

variable {digits : List Char} (hne : digits ≠ [])
  (hdigits : ∀ d ∈ digits, (seqDigit? d).isSome = true)
  (hend : rest.head?.any (fun c => (seqDigit? c).isSome) = false)
  (hrest : cursor.rest = digits ++ rest)
include hne hdigits hrest

theorem head?_ne_of_digits : cursor.rest.head? ≠ some '_' := by
  obtain ⟨d, ds, rfl⟩ := List.exists_cons_of_ne_nil hne
  have hd := hdigits d List.mem_cons_self
  rw [hrest]
  rintro heq
  cases heq
  exact absurd hd (by decide)

include hend

omit hne in
theorem run_span_digits :
    (span fun c => (seqDigit? c).isSome).run cursor = some (digits, cursor.facing rest) := by
  cases rest with
  | nil =>
    rw [run_span, hrest, List.takeWhile_append_of_pos hdigits,
      List.dropWhile_append_of_pos hdigits]
    simp
  | cons d rest => exact run_span_append hdigits hend hrest

theorem overflows_seqId : seqId.overflows cursor = true ↔
    seqValue digits = 2 ^ 64 - 1 ∧ rest.head?.all (· = '_') = true := by
  have hsafe : Safe (do expect '_'; return seqValue digits + 1) :=
    Safe.bind (Safe.expect '_') fun _ _ => rfl
  rw [seqId, overflows_bind, Safe.accept,
    run_accept_of_head?_ne (head?_ne_of_digits hne hdigits hrest)]
  change (span _ >>= _).overflows cursor = true ↔ _
  rw [overflows_bind, run_span_digits hdigits hend hrest]
  change Scan.overflows (seqPlace digits) (cursor.facing rest) = true ↔ _
  have hmarked : rest.head?.any (· ≠ '_') = true ↔ ¬ rest.head?.all (· = '_') = true := by
    cases rest <;> simp
  have hpow : Nat.pow 2 64 = 2 ^ 64 := rfl
  unfold seqPlace
  dsimp only
  by_cases hwide : seqValue digits ≥ Nat.pow 2 64
  · rw [if_pos hwide]
    exact iff_of_false Bool.false_ne_true fun h => by omega
  rw [if_neg hwide, overflows_bind]
  change Scan.overflows (if rest.head?.any (· ≠ '_') then _ else _) (cursor.facing rest) = true ↔ _
  by_cases hnext : rest.head?.any (· ≠ '_') = true
  · rw [if_pos hnext]
    exact iff_of_false Bool.false_ne_true fun h => hmarked.1 hnext h.2
  rw [if_neg hnext]
  by_cases hfull : seqValue digits + 1 ≥ Nat.pow 2 64
  · rw [if_pos hfull]
    exact iff_of_true rfl ⟨by omega, not_not.1 (hmarked.not.1 hnext)⟩
  · rw [if_neg hfull, hsafe]
    exact iff_of_false Bool.false_ne_true fun h => by omega

theorem run_seqId_digits : seqId.run cursor = (placeOf digits).bind fun place =>
    ((expect '_').run (cursor.facing rest)).map fun r : Unit × Cursor => (place, r.2) := by
  rw [seqId, Scan.run_bind, run_accept_of_head?_ne (head?_ne_of_digits hne hdigits hrest)]
  change (span _ >>= _).run cursor = _
  rw [Scan.run_bind, run_span_digits hdigits hend hrest]
  refine (run_seqPlace digits _).trans ?_
  cases placeOf digits <;> simp

end SeqId

/-- Of all that is computed in words from the places and the numerals of a symbol, only the
ordinals behind the largest two numerals and the place behind the largest sequence of digits
overflow. All else is in range. -/
theorem words_exact_iff {symbol : String} (hsize : symbol.utf8ByteSize < 2 ^ 63)
    {mangled : List Char} (hsymbol : symbol.toList = '_' :: 'Z' :: mangled) {position : Nat}
    (hcursor : cursor.At mangled position) :
    (IsUnsigned (position + 2) ∧ ∀ m k a c, ((Level.of m).read k).run cursor = some (a, c) →
      ∃ position', c.At mangled position' ∧ position ≤ position') ∧
    (∀ n c, number.run cursor = some (n, c) → IsSigned n ∧ IsSigned (-n) ∧
      IsUnsigned (n.toNat + 1) ∧
      (∃ position', c.At mangled position' ∧ IsUnsigned (position' + n.toNat)) ∧
      (ordinal.overflows cursor = true ↔ 2 ^ 63 - 2 ≤ n) ∧
      (n < 2 ^ 63 - 2 → IsSigned (n + 2) ∧ ∀ rest, c.rest = '_' :: rest →
        ordinal.run cursor = some (n + 2, c.facing rest))) ∧
    ∀ digits rest, digits ≠ [] → (∀ d ∈ digits, (seqDigit? d).isSome = true) →
      rest.head?.any (fun c => (seqDigit? c).isSome) = false → cursor.rest = digits ++ rest →
      (seqId.overflows cursor = true ↔
        seqValue digits = 2 ^ 64 - 1 ∧ rest.head?.all (· = '_') = true) ∧
      (2 ^ 64 ≤ seqValue digits → seqId.run cursor = none) ∧
      (seqValue digits < 2 ^ 64 - 1 → IsUnsigned (seqValue digits + 1) ∧
        ∀ tail, rest = '_' :: tail →
          seqId.run cursor = some (seqValue digits + 1, cursor.facing tail)) := by
  have hplaces {c : Cursor} {p : Nat} (h : c.At mangled p) : p < 2 ^ 63 := by
    have hlong : symbol = String.ofList ['_', 'Z'] ++ String.ofList mangled := by
      rw [← String.ofList_append, ← String.ofList_toList (s := symbol), hsymbol]
      rfl
    have hle := h.le_size
    rw [hlong, String.utf8ByteSize_append] at hsize
    omega
  refine ⟨⟨?_, fun m k a c hrun => ?_⟩, fun n c hnumber => ?_,
    fun digits rest hne hdigits hend hrest => ?_⟩
  · have hplace := hplaces hcursor
    unfold IsUnsigned
    omega
  · exact hcursor.forward ((Level.all_progresses m).read k cursor a c hrun).1
  · have hmoved := progresses_of_gains Measured.Gains.number cursor n c hnumber
    obtain ⟨position', hat, -⟩ := hcursor.forward hmoved.1
    have hplace := hplaces hat
    have hrange := number_range hnumber
    unfold IsSigned IsUnsigned at *
    refine ⟨by omega, by omega, by omega, ⟨position', hat, by omega⟩, overflows_ordinal hnumber,
      fun hroom => ⟨by omega, fun rest hrest => run_ordinal hnumber hroom hrest⟩⟩
  · have hrun := run_seqId_digits hne hdigits hend hrest
    refine ⟨overflows_seqId hne hdigits hend hrest, fun hwide => ?_, fun hroom => ⟨?_, ?_⟩⟩
    · rw [hrun, placeOf, if_pos (Nat.le_succ_of_le hwide)]
      rfl
    · unfold IsUnsigned
      omega
    · rintro tail rfl
      rw [hrun, placeOf, if_neg (by omega), Option.bind_some, run_expect_eq rfl]
      rfl

/-- The numeral of the seventh unnamed type, which stands behind two characters. -/
theorem words_exact_iff_unnamed :
    "_ZUt5_".utf8ByteSize < 2 ^ 63 ∧ Cursor.At { rest := ['5', '_'] } ['U', 't', '5', '_'] 2 ∧
      number.run { rest := ['5', '_'] } = some (5, { rest := ['_'] }) ∧
      ordinal.run { rest := ['5', '_'] } = some (7, { rest := [] }) := by
  have hsize : "_ZUt5_".utf8ByteSize < 2 ^ 63 := by decide
  have hat : Cursor.At { rest := ['5', '_'] } ['U', 't', '5', '_'] 2 := ⟨['U', 't'], rfl, rfl⟩
  have hnumber : number.run { rest := ['5', '_'] } = some (5, { rest := ['_'] }) := rfl
  have hwords := (words_exact_iff hsize rfl hat).2.1 5 _ hnumber
  exact ⟨hsize, hat, hnumber, (hwords.2.2.2.2.2 (by decide)).2 [] rfl⟩

/-- Symbols with the largest numeral and with the largest sequence of digits. -/
theorem words_overflow : overflows "_ZUt9223372036854775807_" = true ∧
    overflows "_Z1fP1AS3W5E11264SGSF_" = true := by
  refine ⟨?_, ?_⟩ <;> decide +kernel

end CallTargets.Symbol
