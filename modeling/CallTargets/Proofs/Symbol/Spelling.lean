import CallTargets.Proofs.Json.Token
import CallTargets.Symbol.Grammar
import CallTargets.Symbol.Mangle
import Mathlib.Logic.Relation

/-!
# Reading what is spelled

The readers in front of the letters, numerals, identifiers and back-references that spelling
writes. A cursor can be moved to another text (`Cursor.facing`), and remembers the shapes of a
dictionary (`Dictionary.cursor`). A loop of readers ends as its last round does (`run_loop`), since
each round before it reads something.
-/

namespace CallTargets.Symbol

open Relation

@[simp]
theorem Cursor.rest_facing (c : Cursor) (rest : List Char) : (c.facing rest).rest = rest := rfl

@[simp]
theorem Cursor.facing_facing (c : Cursor) (rest rest' : List Char) :
    (c.facing rest).facing rest' = c.facing rest' := rfl

theorem Cursor.facing_eq {c : Cursor} {rest : List Char} (hrest : c.rest = rest) :
    c.facing rest = c := by
  subst hrest
  rfl

/-- The cursor in front of a text, where back-references point into a dictionary. -/
def Dictionary.cursor (d : Dictionary) (rest : List Char) : Cursor :=
  { rest, named := (d.map SourceType.shape).toArray }

@[simp]
theorem Dictionary.rest_cursor (d : Dictionary) (rest : List Char) : (d.cursor rest).rest = rest :=
  rfl

@[simp]
theorem Dictionary.facing_cursor (d : Dictionary) (rest rest' : List Char) :
    (d.cursor rest).facing rest' = d.cursor rest' := rfl

namespace Scan

section Run

variable {α β : Type} (x : Scan α) (f : α → Scan β) (c : Cursor)

@[simp]
theorem run_pure (a : α) : (pure a : Scan α).run c = some (a, c) := rfl

@[simp]
theorem run_bind : (x >>= f).run c = x.run c >>= fun r => (f r.1).run r.2 := rfl

@[simp]
theorem run_map (g : α → β) : (g <$> x).run c = (x.run c).map fun r => (g r.1, r.2) := by
  cases h : x.run c <;> simp [Functor.map, h]

@[simp]
theorem overflows_pure (a : α) : (pure a : Scan α).overflows c = false := rfl

@[simp]
theorem overflows_bind : (x >>= f).overflows c =
    (x.overflows c || (x.run c).any fun r => (f r.1).overflows r.2) := rfl

instance : LawfulMonad Scan := LawfulMonad.mk' Scan
  (fun x => Scan.ext (funext fun c => by simp)
    (funext fun c => by cases x.run c <;> simp [Functor.map]))
  (fun a f => Scan.ext rfl (funext fun c => by simp))
  (fun x f g => Scan.ext (funext fun c => by simp [Option.bind_assoc])
    (funext fun c => by cases h : x.run c <;> simp [h, Bool.or_assoc]))

instance : MonadLift Option Scan := ⟨fun o => { run := fun c => o.map (·, c) }⟩

@[simp]
theorem run_liftM (o : Option α) : (liftM o : Scan α).run c = o.map (·, c) := rfl

end Run

variable {cursor : Cursor} {d : Dictionary} {rest tail : List Char} {c : Char}

@[simp]
theorem run_fail {α : Type} (c : Cursor) : (fail : Scan α).run c = none := rfl

@[simp]
theorem run_rest (c : Cursor) : Scan.rest.run c = some (c.rest, c) := rfl

@[simp]
theorem run_peek (c : Cursor) : peek.run c = some (c.rest.head?, c) := rfl

@[simp]
theorem run_skip (n : Nat) (c : Cursor) :
    (skip n).run c = some ((), c.facing (c.rest.drop n)) := rfl

@[simp]
theorem run_take (bytes : Nat) (c : Cursor) : (take bytes).run c =
    (Text.takeBytes bytes c.rest).map fun read => (read.1, c.facing read.2) := rfl

@[simp]
theorem run_named (place : Nat) (c : Cursor) :
    (note (.named place)).run c = c.named[place]?.map (·, c) := rfl

theorem run_arg (place : Nat) (c : Cursor) :
    (note (.arg place)).run c = c.args[place]?.map (·, c) := rfl

@[simp]
theorem run_note_remember (shape : Shape) (c : Cursor) :
    (note (.remember shape)).run c = some ((), { c with named := c.named.push shape }) := rfl

theorem run_accept_eq (hrest : cursor.rest = c :: tail) :
    (accept c).run cursor = some (true, cursor.facing tail) := by simp [accept, hrest]

theorem run_accept_of_head?_ne (hrest : cursor.rest.head? ≠ some c) :
    (accept c).run cursor = some (false, cursor) := by simp [accept, hrest]

theorem run_expect_eq (hrest : cursor.rest = c :: tail) :
    (expect c).run cursor = some ((), cursor.facing tail) := by simp [expect, run_accept_eq hrest]

@[simp]
theorem run_accept_cons (d : Dictionary) (c : Char) (tail : List Char) :
    (accept c).run (d.cursor (c :: tail)) = some (true, d.cursor tail) := run_accept_eq rfl

theorem run_accept_of_ne (h : rest.head? ≠ some c) :
    (accept c).run (d.cursor rest) = some (false, d.cursor rest) := run_accept_of_head?_ne h

@[simp]
theorem run_accept_cons_of_ne {c' : Char} (h : c' ≠ c) (d : Dictionary) (tail : List Char) :
    (accept c).run (d.cursor (c' :: tail)) = some (false, d.cursor (c' :: tail)) :=
  run_accept_of_ne (by simpa using h)

@[simp]
theorem run_expect_cons (d : Dictionary) (c : Char) (tail : List Char) :
    (expect c).run (d.cursor (c :: tail)) = some ((), d.cursor tail) := run_expect_eq rfl

theorem run_remember (d : Dictionary) (t : SourceType) (tail : List Char) :
    (remember t.shape).run (d.cursor tail) = some ((), Dictionary.cursor (d ++ [t]) tail) := by
  simp [remember, Dictionary.cursor]

/-! ## Loops -/

section Loop

variable {σ β : Type} {round : σ → Scan (Round σ β)}

/-- A round leads to another one and reads something. -/
def Goes (round : σ → Scan (Round σ β)) (x y : σ × Cursor) : Prop :=
  (round x.1).run x.2 = some (.again y.1, y.2) ∧ y.2.rest.length < x.2.rest.length

theorem run_loop {s s' : σ} {c c' c'' : Cursor} {b : β}
    (hrounds : ReflTransGen (Goes round) (s, c) (s', c'))
    (hfinish : (round s').run c' = some (.finish b, c'')) :
    (loop round s).run c = some (b, c'') := by
  have hrepeat : ∀ x, ReflTransGen (Goes round) x (s', c') →
      ∀ n, x.2.rest.length < n → (repeatUpTo round n x.1).run x.2 = some (b, c'') := by
    intro x hx
    induction hx using ReflTransGen.head_induction_on with
    | refl =>
      intro n hn
      obtain ⟨n, rfl⟩ : ∃ m, n = m + 1 := ⟨n - 1, by omega⟩
      simp [repeatUpTo, hfinish]
    | head hstep _ ih =>
      intro n hn
      obtain ⟨n, rfl⟩ : ∃ m, n = m + 1 := ⟨n - 1, by omega⟩
      have hrest := ih n (by have := hstep.2; omega)
      simp [repeatUpTo, hstep.1, hrest]
  have hrest := hrepeat (s, c) hrounds (c.rest.length + 1) (Nat.lt_succ_self _)
  simpa [loop] using hrest

end Loop

/-! ## Numerals and identifiers -/

theorem run_span (p : Char → Bool) (cursor : Cursor) :
    (span p).run cursor =
      some (cursor.rest.takeWhile p, cursor.facing (cursor.rest.dropWhile p)) := by
  have hdrop (rest : List Char) : rest.drop (rest.takeWhile p).length = rest.dropWhile p := by
    induction rest with
    | nil => rfl
    | cons d rest ih =>
      cases hd : p d with
      | true => simp [hd, ih]
      | false => simp [hd]
  simp [span, hdrop]

theorem run_span_append {p : Char → Bool} {taken : List Char} (htaken : ∀ d ∈ taken, p d = true)
    (hc : p c = false) (hrest : cursor.rest = taken ++ c :: rest) :
    (span p).run cursor = some (taken, cursor.facing (c :: rest)) := by
  have hneg : ¬ p c = true := by simp [hc]
  rw [run_span, hrest, List.takeWhile_append_of_pos htaken, List.dropWhile_append_of_pos htaken,
    List.takeWhile_cons_of_neg hneg, List.dropWhile_cons_of_neg hneg, List.append_nil]

theorem run_span_of_head {p : Char → Bool} (hc : p c = false) (hrest : cursor.rest = c :: tail) :
    (span p).run cursor = some ([], cursor) := by
  have hneg : ¬ p c = true := by simp [hc]
  rw [run_span, hrest, List.takeWhile_cons_of_neg hneg, List.dropWhile_cons_of_neg hneg,
    Cursor.facing_eq hrest]

theorem run_number {ds : List Char} (hds : ∀ c ∈ ds, c.isDigit = true) (hne : ds ≠ [])
    (htail : ∀ c, tail.head? = some c → c.isDigit = false) (hrest : cursor.rest = ds ++ tail) :
    number.run cursor =
      if Text.decimal ds < 2 ^ 63 then some ((Text.decimal ds : Int), cursor.facing tail)
      else none := by
  have htake : (ds ++ tail).takeWhile Char.isDigit = ds := by
    rw [List.takeWhile_append_of_pos hds]
    cases tail with
    | nil => simp
    | cons c tail => simp [htail c rfl]
  have hfirst : cursor.rest.head? ≠ some 'n' := by
    obtain ⟨c, ds, rfl⟩ := List.exists_cons_of_ne_nil hne
    rw [hrest]
    intro hc
    have hdigit := hds c List.mem_cons_self
    rw [Option.some.inj hc] at hdigit
    exact absurd hdigit (by decide)
  have hempty : ds.isEmpty = false := by simpa using hne
  simp only [number, span, Scan.run_bind, run_accept_of_head?_ne hfirst, run_rest, hrest, htake,
    run_skip, List.drop_left, Scan.run_pure, Option.bind_eq_bind,
    Option.bind_some, hempty, Bool.false_or, decide_eq_true_eq]
  by_cases hsize : Text.decimal ds < 2 ^ 63
  · have hfits : ¬ Text.decimal ds ≥ Nat.pow 2 63 := Nat.not_le.2 hsize
    rw [if_neg hfits, if_pos hsize]
    rfl
  · have hlarge : Text.decimal ds ≥ Nat.pow 2 63 := Nat.le_of_not_lt hsize
    rw [if_pos hlarge, if_neg hsize]
    rfl

/-! ### Identifiers -/

theorem isAlpha_iff_toNat {c : Char} :
    c.isAlpha = true ↔ 65 ≤ c.toNat ∧ c.toNat ≤ 90 ∨ 97 ≤ c.toNat ∧ c.toNat ≤ 122 := by
  have hupper : c.isUpper = decide (c.val ≥ 'A'.val ∧ c.val ≤ 'Z'.val) := rfl
  have hlower : c.isLower = (decide (c.val ≥ 'a'.val) && decide (c.val ≤ 'z'.val)) := rfl
  have halpha : c.isAlpha = (c.isUpper || c.isLower) := rfl
  simp only [halpha, hupper, hlower, Bool.or_eq_true, Bool.and_eq_true, decide_eq_true_eq,
    UInt32.le_iff_toNat_le, ge_iff_le]
  rfl

theorem isDigit_iff_toNat {c : Char} : c.isDigit = true ↔ 48 ≤ c.toNat ∧ c.toNat ≤ 57 :=
  Char.isDigit_iff_toNat

theorem isDigit_of_isAlpha {c : Char} (h : (c.isAlpha || c = '_') = true) : c.isDigit = false := by
  rw [Bool.or_eq_true, decide_eq_true_eq, isAlpha_iff_toNat] at h
  rw [Bool.eq_false_iff, ne_eq, isDigit_iff_toNat]
  rcases h with h | rfl
  · omega
  · decide

theorem utf8Size_of_isAlphanum {c : Char} (h : (c.isAlphanum || c = '_') = true) :
    c.utf8Size = 1 := by
  rw [Bool.or_eq_true, decide_eq_true_eq, Char.isAlphanum, Bool.or_eq_true, isAlpha_iff_toNat,
    isDigit_iff_toNat] at h
  rw [Char.utf8Size_eq_one_iff, UInt32.le_iff_toNat_le]
  change c.toNat ≤ 127
  rcases h with h | rfl
  · omega
  · decide

theorem takeBytes_append {cs : List Char} (h : ∀ c ∈ cs, c.utf8Size = 1) (tail : List Char) :
    Text.takeBytes cs.length (cs ++ tail) = some (cs, tail) := by
  induction cs with
  | nil => simp [Text.takeBytes]
  | cons c cs ih =>
    have hc : c.utf8Size = 1 := h c List.mem_cons_self
    have htail := ih fun c hc => h c (List.mem_cons_of_mem _ hc)
    simp [Text.takeBytes, hc, htail]

/-- An identifier is read whole behind its length, since it begins with no digit and has one
byte for each character. -/
theorem run_identifier (x : Identifier) (hrest : cursor.rest = x.code ++ tail) :
    identifier.run cursor =
      if x.chars.length < 2 ^ 63 then some (x.text, cursor.facing tail) else none := by
  obtain ⟨c, cs, hchars, hc, -⟩ := x.exists_chars_eq
  have hbytes : ∀ c ∈ x.chars, c.utf8Size = 1 := fun c hc =>
    utf8Size_of_isAlphanum (x.inIdentifier_of_mem hc)
  have hfirst : ∀ c', (x.chars ++ tail).head? = some c' → c'.isDigit = false := by
    intro c' hc'
    rw [hchars] at hc'
    cases hc'
    exact isDigit_of_isAlpha hc
  have hdigits : ∀ c ∈ Nat.toDigits 10 x.chars.length, c.isDigit = true := fun c hc =>
    Nat.isDigit_of_mem_toDigits (by decide) (by decide) hc
  rw [Identifier.code, List.append_assoc] at hrest
  have hnumber := run_number hdigits Nat.toDigits_ne_nil hfirst hrest
  rw [Text.decimal_toDigits] at hnumber
  have htake := takeBytes_append hbytes tail
  have hpositive : ¬ ((x.chars.length : Int) < 0) := by omega
  by_cases hsize : x.chars.length < 2 ^ 63
  · rw [if_pos hsize] at hnumber ⊢
    simp only [identifier, Scan.run_bind, hnumber, Option.bind_eq_bind, Option.bind_some,
      if_neg hpositive, run_take, Int.toNat_natCast, Scan.run_pure,
      Cursor.rest_facing, htake, Option.map_some, x.ordinary, Option.isSome_none]
    rfl
  · rw [if_neg hsize] at hnumber ⊢
    rw [identifier, Scan.run_bind, hnumber]
    rfl

/-! ## Back-references -/

theorem seqDigit?_seqDigit : ∀ n < 36, seqDigit? (seqDigit n) = some n := by decide

theorem isSome_of_mem_seqDigits {n : Nat} {c : Char} (hc : c ∈ seqDigits n) :
    (seqDigit? c).isSome = true := by
  fun_induction seqDigits n with
  | case1 n hn =>
    rw [List.mem_singleton.1 hc, seqDigit?_seqDigit n hn]
    rfl
  | case2 n hn ih =>
    rcases List.mem_append.1 hc with hc | hc
    · exact ih hc
    · rw [List.mem_singleton.1 hc, seqDigit?_seqDigit (n % 36) (by omega)]
      rfl

theorem foldl_seqDigits (n : Nat) :
    ((seqDigits n).filterMap seqDigit?).foldl (fun n d => 36 * n + d) 0 = n := by
  fun_induction seqDigits n with
  | case1 n hn => simp [seqDigit?_seqDigit n hn]
  | case2 n hn ih =>
    rw [List.filterMap_append, List.foldl_append, ih]
    simp only [List.filterMap_cons, seqDigit?_seqDigit (n % 36) (by omega), List.filterMap_nil,
      List.foldl_cons, List.foldl_nil]
    omega

theorem seqDigits_ne_nil (n : Nat) : seqDigits n ≠ [] := by
  rw [seqDigits]
  split
  · simp
  · simp

theorem exists_reference_eq (place : Nat) : ∃ c cs, reference place = 'S' :: c :: cs ∧
    (c = '_' ∨ (seqDigit? c).isSome = true) := by
  cases place with
  | zero => exact ⟨'_', [], rfl, .inl rfl⟩
  | succ n =>
    obtain ⟨c, cs, hcs⟩ := List.exists_cons_of_ne_nil (seqDigits_ne_nil n)
    refine ⟨c, cs ++ ['_'], ?_, .inr (isSome_of_mem_seqDigits (hcs ▸ List.mem_cons_self))⟩
    rw [reference, hcs]
    rfl

/-- The place that digits stand for, if it has 64 bits. -/
def placeOf (digits : List Char) : Option Nat :=
  if 2 ^ 64 ≤ seqValue digits + 1 then none else some (seqValue digits + 1)

theorem run_seqPlace (digits : List Char) (c : Cursor) : (seqPlace digits).run c = Scan.run (do
    let place ← placeOf digits
    expect '_'
    return place) c := by
  have hreject (hnext : c.rest.head?.any (· ≠ '_') = true) : (expect '_').run c = none := by
    have hhead : c.rest.head? ≠ some '_' := fun h => by simp [h] at hnext
    simp [expect, run_accept_of_head?_ne hhead]
  rw [seqPlace]
  dsimp only
  by_cases hfull : seqValue digits + 1 ≥ Nat.pow 2 64
  · rw [show placeOf digits = none from if_pos hfull, if_pos hfull]
    change _ = none
    split
    · rfl
    · change Scan.run (if c.rest.head?.any (· ≠ '_') then _ else _) c = none
      split <;> rfl
  · have hfits : ¬ seqValue digits ≥ Nat.pow 2 64 := fun h => hfull (Nat.le_succ_of_le h)
    rw [show placeOf digits = some _ from if_neg hfull, if_neg hfull, if_neg hfits, run_bind,
      run_peek]
    by_cases hnext : c.rest.head?.any (· ≠ '_') = true
    · refine (congrArg (Scan.run · c) (if_pos hnext)).trans ?_
      simp [hreject hnext]
    · exact congrArg (Scan.run · c) (if_neg hnext)

theorem run_seqId {place : Nat} (hplace : place < 2 ^ 63) (d : Dictionary) (tail : List Char) :
    seqId.run (d.cursor ((reference place).tail ++ tail)) = some (place, d.cursor tail) := by
  cases place with
  | zero => simp [reference, seqId]
  | succ n =>
    have htake : (seqDigits n ++ '_' :: tail).takeWhile (fun c => (seqDigit? c).isSome) =
        seqDigits n := by
      rw [List.takeWhile_append_of_pos fun c hc => isSome_of_mem_seqDigits hc]
      simp [show seqDigit? '_' = none by decide]
    have hfirst : (seqDigits n ++ '_' :: tail).head? ≠ some '_' := by
      obtain ⟨c, cs, hcs⟩ := List.exists_cons_of_ne_nil (seqDigits_ne_nil n)
      have hdigit : (seqDigit? c).isSome = true :=
        isSome_of_mem_seqDigits (hcs ▸ List.mem_cons_self)
      rw [hcs]
      intro hc
      rw [Option.some.inj hc] at hdigit
      exact absurd hdigit (by decide)
    have hvalue : placeOf (seqDigits n) = some (n + 1) := by
      rw [placeOf, seqValue, foldl_seqDigits, if_neg (by omega)]
    simp [reference, seqId, span, run_accept_of_ne hfirst, htake, run_seqPlace, hvalue]

theorem libraryClass?_of_reference {c : Char} (h : c = '_' ∨ (seqDigit? c).isSome = true) :
    libraryClass? c = none := by
  unfold libraryClass?
  split
  case h_7 => rfl
  all_goals exact absurd h (by decide)

theorem run_backReference {t : SourceType} {place : Nat} (ht : d.idxOf? t = some place)
    (hplace : place < 2 ^ 63) (tail : List Char) :
    backReference.run (d.cursor (reference place ++ tail)) = some (t.shape, d.cursor tail) := by
  obtain ⟨c, cs, hcs, hc⟩ := exists_reference_eq place
  have hseq := run_seqId hplace d tail
  have hnamed : (d.cursor tail).named[place]? = some t.shape := by
    obtain ⟨hlt, hget, -⟩ := List.findIdx?_eq_some_iff_getElem.1 ht
    simp [Dictionary.cursor, List.getElem?_eq_getElem hlt, eq_of_beq hget]
  rw [hcs] at hseq ⊢
  simp only [List.tail_cons, List.cons_append] at hseq
  simp [backReference, libraryClass?_of_reference hc, hseq, hnamed]

end Scan

end CallTargets.Symbol
