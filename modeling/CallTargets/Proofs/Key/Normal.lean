import CallTargets.Key.Normal
import Mathlib

/-!
# Numbers that end words

A number is a point with digits behind it up to the end of a word. Dropping the numbers of a text
leaves the characters that are in none of them (`dropNumbers_eq_bare`). A number does not go on
behind a character that is part of no word, so texts are normalised piece by piece wherever one
piece begins with such a character or the other one has no point (`dropNumbers_append`,
`dropNumbers_append_of_noPoint`).
-/

namespace CallTargets.Normal

open Text

variable {text a b : List Char} {c : Char}

/-! ## Word characters -/

theorem isWord_of_isDigit (h : c.isDigit = true) : isWord c = true := by
  simp only [Char.isDigit, Bool.and_eq_true, decide_eq_true_eq] at h
  have hlow : 48 ≤ c.toNat := h.1
  have hhigh : c.toNat ≤ 57 := h.2
  have hdigits (runs : List Nat) : inRuns false (48 :: 10 :: runs) c.toNat = true := by
    rw [inRuns, if_neg (by omega), inRuns, if_pos (by omega)]
    rfl
  exact hdigits _

theorem isWord_punctuation :
    [' ', '*', '(', ')', ',', ']', '>', '{', '}', '.'].any isWord = false := by
  decide +kernel

/-! ## Texts in pieces -/

def Apart (text : List Char) : Prop := text.head?.any isWord = false

theorem apart_cons (h : c ∈ [' ', '*', '(', ')', ',', ']', '>', '{', '}', '.']) (text : List Char) :
    Apart (c :: text) := by
  have := List.any_eq_false.1 isWord_punctuation c h
  simpa [Apart] using this

theorem Apart.isDigit (h : Apart b) : ∀ c, b.head? = some c → c.isDigit = false := by
  intro c hc
  rw [Apart, hc] at h
  by_contra hdigit
  simp [isWord_of_isDigit (by simpa using hdigit)] at h

theorem takeWhile_append_apart (h : Apart b) (a : List Char) :
    (a ++ b).takeWhile Char.isDigit = a.takeWhile Char.isDigit ∧
      (a ++ b).dropWhile Char.isDigit = a.dropWhile Char.isDigit ++ b := by
  induction a with
  | nil =>
    cases b with
    | nil => exact ⟨rfl, rfl⟩
    | cons c b => simp [h.isDigit c rfl]
  | cons c a ih =>
    cases hc : c.isDigit with
    | true => simp [hc, ih]
    | false => simp [hc]

theorem dropNumbers_cons (h : c ≠ '.') (text : List Char) :
    dropNumbers (c :: text) = c :: dropNumbers text := by
  rw [dropNumbers]
  exact fun hc => h hc

theorem dropNumbers_point {text : List Char} (h : text.head?.any Char.isDigit = false) :
    dropNumbers ('.' :: text) = '.' :: dropNumbers text := by
  have hnone : text.takeWhile Char.isDigit = [] := by
    cases text with
    | nil => rfl
    | cons c text => exact List.takeWhile_cons_of_neg (by simpa using h)
  rw [dropNumbers, hnone]
  rfl

theorem Apart.any_head?_append (h : Apart b) (a : List Char) :
    (a ++ b).head?.any isWord = a.head?.any isWord := by
  cases a with
  | nil => exact h
  | cons c a => rfl

theorem dropNumbers_append (h : Apart b) (a : List Char) :
    dropNumbers (a ++ b) = dropNumbers a ++ dropNumbers b := by
  fun_induction dropNumbers a with
  | case1 => rfl
  | case2 rest hnumber ih =>
    obtain ⟨htake, hdrop⟩ := takeWhile_append_apart h rest
    rw [List.cons_append, dropNumbers, htake, hdrop, h.any_head?_append, if_pos hnumber, ih]
  | case3 rest hnumber ih =>
    obtain ⟨htake, hdrop⟩ := takeWhile_append_apart h rest
    rw [List.cons_append, dropNumbers, htake, hdrop, h.any_head?_append, if_neg hnumber, ih,
      List.cons_append]
  | case4 c rest hc ih =>
    rw [List.cons_append, dropNumbers_cons (fun h => hc h), ih, List.cons_append]

theorem dropNumbers_append_of_noPoint (h : '.' ∉ a) (b : List Char) :
    dropNumbers (a ++ b) = a ++ dropNumbers b := by
  induction a with
  | nil => rfl
  | cons c a ih =>
    rw [List.mem_cons, not_or] at h
    rw [List.cons_append, dropNumbers_cons (Ne.symm h.1), ih h.2, List.cons_append]

theorem dropNumbers_of_noPoint (h : '.' ∉ a) : dropNumbers a = a := by
  have := dropNumbers_append_of_noPoint h []
  rwa [List.append_nil, dropNumbers, List.append_nil] at this

theorem mem_of_mem_dropNumbers (h : c ∈ dropNumbers text) : c ∈ text := by
  fun_induction dropNumbers text with
  | case1 => exact h
  | case2 rest _ ih => exact List.mem_cons_of_mem _ ((List.dropWhile_suffix _).mem (ih h))
  | case3 rest _ ih => exact (List.mem_cons.1 h).elim (· ▸ List.mem_cons_self) fun h =>
      List.mem_cons_of_mem _ (ih h)
  | case4 c' rest _ ih => exact (List.mem_cons.1 h).elim (· ▸ List.mem_cons_self) fun h =>
      List.mem_cons_of_mem _ (ih h)

/-! ## Places in numbers -/

/-- From one place up to another one there is a number: a point, digits, and the end of a word. -/
def IsNumber (text : List Char) (start stop : Nat) : Prop :=
  start + 1 < stop ∧ text[start]? = some '.' ∧
    (∀ j < stop, start < j → text[j]?.any Char.isDigit = true) ∧ text[stop]?.any isWord = false

instance (text : List Char) (start stop : Nat) : Decidable (IsNumber text start stop) :=
  inferInstanceAs (Decidable (_ ∧ _ ∧ _ ∧ _))

def InNumber (text : List Char) (i : Nat) : Prop :=
  ∃ start ≤ i, ∃ stop ≤ text.length, i < stop ∧ IsNumber text start stop

instance (text : List Char) : DecidablePred (InNumber text) := fun i =>
  inferInstanceAs (Decidable (∃ start ≤ i, ∃ stop ≤ text.length, i < stop ∧ _))

def bare (text : List Char) : List Char :=
  (List.range text.length).filterMap fun i => if InNumber text i then none else text[i]?

theorem isNumber_append {start stop : Nat} :
    IsNumber (a ++ b) (start + a.length) (stop + a.length) ↔ IsNumber b start stop := by
  have hget : ∀ i, (a ++ b)[i + a.length]? = b[i]? := fun i => by
    rw [List.getElem?_append_right (Nat.le_add_left _ _), Nat.add_sub_cancel]
  unfold IsNumber
  rw [hget, hget]
  refine and_congr (by omega) (and_congr_right fun _ => and_congr_left fun _ => ?_)
  constructor
  · intro h j hj hstart
    rw [← hget]
    exact h (j + a.length) (by omega) (by omega)
  · intro h j hj hstart
    obtain ⟨i, rfl⟩ : ∃ i, j = i + a.length := ⟨j - a.length, by omega⟩
    rw [hget]
    exact h i (by omega) (by omega)

theorem bare_append
    (h : ∀ start stop, start < a.length → IsNumber (a ++ b) start stop → stop ≤ a.length) :
    bare (a ++ b) = (List.range a.length).filterMap
      (fun i => if InNumber (a ++ b) i then none else a[i]?) ++ bare b := by
  have hplace : ∀ i, InNumber (a ++ b) (i + a.length) ↔ InNumber b i := by
    intro i
    constructor
    · rintro ⟨start, hstart, stop, hstop, hi, hnumber⟩
      have hlater : a.length ≤ start := by
        by_contra hlt
        have := h start stop (by omega) hnumber
        omega
      obtain ⟨start, rfl⟩ : ∃ s, start = s + a.length := ⟨start - a.length, by omega⟩
      obtain ⟨stop, rfl⟩ : ∃ s, stop = s + a.length := ⟨stop - a.length, by omega⟩
      rw [List.length_append] at hstop
      exact ⟨start, by omega, stop, by omega, by omega, isNumber_append.1 hnumber⟩
    · rintro ⟨start, hstart, stop, hstop, hi, hnumber⟩
      refine ⟨start + a.length, by omega, stop + a.length, ?_, by omega, isNumber_append.2 hnumber⟩
      rw [List.length_append]
      omega
  rw [bare, List.length_append, List.range_add, List.filterMap_append, List.filterMap_map]
  congr 1
  · refine List.filterMap_congr fun i hi => ?_
    rw [List.getElem?_append_left (List.mem_range.1 hi)]
  · refine List.filterMap_congr fun i _ => ?_
    simp only [Function.comp, Nat.add_comm a.length i, hplace]
    rw [List.getElem?_append_right (Nat.le_add_left _ _), Nat.add_sub_cancel]

theorem isNumber_zero {digits rest : List Char} (hdigits : ∀ d ∈ digits, d.isDigit = true)
    (hrest : ∀ c, rest.head? = some c → c.isDigit = false) {stop : Nat} :
    IsNumber ('.' :: (digits ++ rest)) 0 stop ↔
      stop = digits.length + 1 ∧ digits ≠ [] ∧ rest.head?.any isWord = false := by
  have hdigit : ∀ j < digits.length, ∃ d, (digits ++ rest)[j]? = some d ∧ d.isDigit = true :=
    fun j hj => ⟨digits[j], by rw [List.getElem?_append_left hj, List.getElem?_eq_getElem hj],
      hdigits _ (List.getElem_mem hj)⟩
  have hnext : (digits ++ rest)[digits.length]? = rest.head? := by
    rw [List.getElem?_append_right (Nat.le_refl _), Nat.sub_self, List.head?_eq_getElem?]
  constructor
  · rintro ⟨hlong, -, hall, hend⟩
    obtain ⟨stop, rfl⟩ : ∃ s, stop = s + 1 := ⟨stop - 1, by omega⟩
    rw [List.getElem?_cons_succ] at hend
    have hstop : stop = digits.length := by
      rcases Nat.lt_trichotomy stop digits.length with hlt | heq | hgt
      · obtain ⟨d, hd, hisDigit⟩ := hdigit stop hlt
        simp [hd, isWord_of_isDigit hisDigit] at hend
      · exact heq
      · have hover := hall (digits.length + 1) (by omega) (by omega)
        rw [List.getElem?_cons_succ, hnext, Option.any_eq_true] at hover
        obtain ⟨c, hc, hisDigit⟩ := hover
        exact absurd hisDigit (by simp [hrest c hc])
    subst hstop
    refine ⟨rfl, ?_, by rwa [hnext] at hend⟩
    rintro rfl
    simp at hlong
  · rintro ⟨rfl, hne, hend⟩
    refine ⟨by have := List.length_pos_iff.2 hne; omega, rfl, fun j hj hpos => ?_, ?_⟩
    · obtain ⟨j, rfl⟩ : ∃ i, j = i + 1 := ⟨j - 1, by omega⟩
      obtain ⟨d, hd, hisDigit⟩ := hdigit j (by omega)
      rw [List.getElem?_cons_succ, hd]
      exact hisDigit
    · rwa [List.getElem?_cons_succ, hnext]

theorem bare_ofNumber {digits rest : List Char} (hdigits : ∀ d ∈ digits, d.isDigit = true)
    (hrest : ∀ c, rest.head? = some c → c.isDigit = false) (hne : digits ≠ [])
    (hend : rest.head?.any isWord = false) : bare ('.' :: (digits ++ rest)) = bare rest := by
  have hnumber : IsNumber ('.' :: (digits ++ rest)) 0 (digits.length + 1) :=
    (isNumber_zero hdigits hrest).2 ⟨rfl, hne, hend⟩
  have hstops : ∀ start stop, start < ('.' :: digits).length →
      IsNumber ('.' :: digits ++ rest) start stop → stop ≤ ('.' :: digits).length := by
    intro start stop hstart hstop
    cases start with
    | zero => exact ((isNumber_zero hdigits hrest).1 hstop).1.le
    | succ start =>
      -- the digits are no points
      have hlt : start < digits.length := by simpa using hstart
      have hpoint := hstop.2.1
      rw [List.cons_append, List.getElem?_cons_succ, List.getElem?_append_left hlt] at hpoint
      exact absurd (hdigits '.' (List.mem_of_getElem? hpoint)) (by decide)
  rw [← List.cons_append, bare_append hstops, List.append_left_eq_self,
    List.filterMap_eq_nil_iff]
  intro i hi
  refine if_pos ⟨0, Nat.zero_le i, digits.length + 1, ?_, by simpa using hi, hnumber⟩
  simp

theorem dropNumbers_eq_bare (text : List Char) : dropNumbers text = bare text := by
  have hone : ∀ (c : Char) (rest : List Char), (∀ stop, ¬ IsNumber (c :: rest) 0 stop) →
      bare (c :: rest) = c :: bare rest := by
    intro c rest hnone
    have hstart : ¬ InNumber (c :: rest) 0 := by
      rintro ⟨start, hstart, stop, -, -, hnumber⟩
      obtain rfl : start = 0 := by omega
      exact hnone stop hnumber
    have := bare_append (a := [c]) (b := rest) fun start stop hstart hnumber => by
      obtain rfl : start = 0 := by simpa using hstart
      exact absurd hnumber (hnone stop)
    simpa [hstart] using this
  have hsplit : ∀ rest : List Char, (∀ d ∈ rest.takeWhile Char.isDigit, d.isDigit = true) ∧
      (∀ c, (rest.dropWhile Char.isDigit).head? = some c → c.isDigit = false) ∧
      rest.takeWhile Char.isDigit ++ rest.dropWhile Char.isDigit = rest := fun rest =>
    ⟨fun d hd => List.mem_takeWhile_imp hd, fun c hc => by
      have := List.head?_dropWhile_not Char.isDigit rest
      rwa [hc] at this, List.takeWhile_append_dropWhile⟩
  fun_induction dropNumbers text with
  | case1 => rfl
  | case2 rest hnumber ih =>
    obtain ⟨hdigits, hrest, happend⟩ := hsplit rest
    have hnumber' : rest.takeWhile Char.isDigit ≠ [] ∧
        (rest.dropWhile Char.isDigit).head?.any isWord = false := by
      simpa [List.isEmpty_eq_false_iff] using hnumber
    rw [ih]
    nth_rewrite 2 [← happend]
    rw [bare_ofNumber hdigits hrest hnumber'.1 hnumber'.2]
  | case3 rest hnumber ih =>
    obtain ⟨hdigits, hrest, happend⟩ := hsplit rest
    rw [ih, hone]
    intro stop hstop
    rw [← happend, isNumber_zero hdigits hrest] at hstop
    exact hnumber (by simpa [List.isEmpty_eq_false_iff] using hstop.2)
  | case4 c rest hc ih =>
    rw [ih, hone]
    rintro stop ⟨-, hpoint, -⟩
    exact hc (by simpa using hpoint)

theorem bare_append_number (name digits : List Char)
    (hdigits : ∀ d ∈ digits, d.isDigit = true) (hne : digits ≠ []) :
    bare (name ++ '.' :: digits) = bare name := by
  have hnumber : bare ('.' :: (digits ++ [])) = bare [] := bare_ofNumber hdigits (by simp) hne rfl
  rw [← dropNumbers_eq_bare, dropNumbers_append (apart_cons (by simp) _), dropNumbers_eq_bare,
    dropNumbers_eq_bare, ← List.append_nil digits, hnumber]
  exact List.append_nil _

end CallTargets.Normal
