import CallTargets.Proofs.Key.Normal
import CallTargets.Proofs.Ty.Print

/-!
# Printed types in normal form

Types are compared by their printed form without blanks and numbers. Where the names of structs are
made of the usual characters, that form is put together from those of a type's parts (`normal_eq`):
nothing that is dropped reaches from one part into the next.
-/

namespace CallTargets

open Text CallTargets.Normal

/-! ## Characters of names -/

/-- Letters, digits and the marks that names of structs are made of. -/
def isNameChar (c : Char) : Bool :=
  c.isAlphanum || c = '_' || c = '.' || c = ':' || c = '$'

theorem toNat_of_isNameChar {c : Char} (h : isNameChar c = true) :
    0x24 ≤ c.toNat ∧ c.toNat ≤ 0x7a := by
  simp only [isNameChar, Char.isAlphanum, Char.isAlpha, Char.isUpper, Char.isLower, Char.isDigit,
    Bool.or_eq_true, Bool.and_eq_true, decide_eq_true_eq] at h
  rcases h with (((((⟨hlow, hhigh⟩ | ⟨hlow, hhigh⟩) | ⟨hlow, hhigh⟩) | rfl) | rfl) | rfl) | rfl
  · exact ⟨Nat.le_trans (by decide) hlow, Nat.le_trans hhigh (by decide)⟩
  · exact ⟨Nat.le_trans (by decide) hlow, Nat.le_trans hhigh (by decide)⟩
  · exact ⟨Nat.le_trans (by decide) hlow, Nat.le_trans hhigh (by decide)⟩
  · decide
  · decide
  · decide
  · decide

theorem isBlank_of_isNameChar {c : Char} (h : isNameChar c = true) : isBlank c = false := by
  have hrange := toNat_of_isNameChar h
  simp only [isBlank, Bool.or_eq_false_iff, Bool.and_eq_false_iff, decide_eq_false_iff_not]
  omega

theorem isNameChar_of_isDigit {c : Char} (h : c.isDigit = true) : isNameChar c = true := by
  simp [isNameChar, Char.isAlphanum, h]

theorem dropBlanks_of_nameChars {text : List Char} (h : ∀ c ∈ text, isNameChar c = true) :
    dropBlanks text = text :=
  List.filter_eq_self.2 fun c hc => by simp [isBlank_of_isNameChar (h c hc)]

theorem isDigit_of_mem_toDigits {n : Nat} {c : Char} (h : c ∈ Nat.toDigits 10 n) :
    c.isDigit = true := Nat.isDigit_of_mem_toDigits (by decide) (by decide) h

theorem dropBlanks_toDigits (n : Nat) : dropBlanks (Nat.toDigits 10 n) = Nat.toDigits 10 n :=
  dropBlanks_of_nameChars fun _ hc => isNameChar_of_isDigit (isDigit_of_mem_toDigits hc)

theorem noPoint_toDigits (n : Nat) : '.' ∉ Nat.toDigits 10 n := fun h =>
  absurd (isDigit_of_mem_toDigits h) (by decide)

/-! ## Normal forms by parts -/

def Normal.chars (text : List Char) : List Char := dropBlanks (dropNumbers text)

theorem Normal.chars_append {b : List Char} (h : Apart b) (a : List Char) :
    chars (a ++ b) = chars a ++ chars b := by
  rw [chars, dropNumbers_append h, dropBlanks, List.filter_append]
  rfl

theorem Normal.chars_append_of_noPoint {a : List Char} (h : '.' ∉ a) (b : List Char) :
    chars (a ++ b) = dropBlanks a ++ chars b := by
  rw [chars, dropNumbers_append_of_noPoint h, dropBlanks, List.filter_append]
  rfl

theorem Normal.chars_of_noPoint {a : List Char} (h : '.' ∉ a) : chars a = dropBlanks a := by
  rw [chars, dropNumbers_of_noPoint h]

theorem Normal.chars_word {word : List Char} (h : ∀ c ∈ word, isNameChar c = true)
    (hpoint : '.' ∉ word) : chars word = word := by
  rw [chars_of_noPoint hpoint, dropBlanks_of_nameChars h]

/-- Items with commas between them. -/
def listed : List (List Char) → List Char
  | [] => []
  | [item] => item
  | item :: items => item ++ ',' :: listed items

theorem chars_joinWith (items : List String) {rest : List Char} (hrest : Apart rest) :
    chars ((joinWith ", " items).toList ++ rest) =
      listed (items.map fun item => chars item.toList) ++ chars rest := by
  induction items with
  | nil => rfl
  | cons item items ih =>
    cases items with
    | nil => exact chars_append hrest _
    | cons next items =>
      have hcomma : Apart ([',', ' '] ++ ((joinWith ", " (next :: items)).toList ++ rest)) :=
        apart_cons (by simp) _
      have hblank : dropBlanks [',', ' '] = [','] := by decide
      have hjoin : (joinWith ", " (item :: next :: items)).toList =
          item.toList ++ ([',', ' '] ++ (joinWith ", " (next :: items)).toList) := by
        simp [joinWith]
      rw [hjoin, List.append_assoc, List.append_assoc, chars_append hcomma,
        chars_append_of_noPoint (by decide), ih, hblank]
      simp [listed]

namespace Ty

/-- The word that a type without parts is printed as. -/
def word? : Ty → Option (List Char)
  | void => some "void".toList
  | label => some "label".toList
  | integer bits => some ('i' :: Nat.toDigits 10 bits)
  | float bits => some (TypeTable.floatText bits).toList
  | _ => none

theorem word?_chars {ty : Ty} {word : List Char} (h : ty.word? = some word) :
    (∀ c ∈ word, isNameChar c = true) ∧ '.' ∉ word := by
  have hword : word.all (fun c => isNameChar c && c ≠ '.') = true := by
    cases ty with
    | void =>
      cases h
      decide +kernel
    | label =>
      cases h
      decide +kernel
    | integer bits =>
      cases h
      rw [List.all_cons, Bool.and_eq_true, List.all_eq_true]
      refine ⟨by decide, fun c hc => ?_⟩
      have hpoint : c ≠ '.' := fun hpoint => noPoint_toDigits bits (hpoint ▸ hc)
      simp [isNameChar_of_isDigit (isDigit_of_mem_toDigits hc), hpoint]
    | float bits =>
      cases h
      unfold TypeTable.floatText
      split <;> decide +kernel
    | _ => cases h
  simp only [List.all_eq_true, Bool.and_eq_true, decide_eq_true_eq] at hword
  exact ⟨fun c hc => (hword c hc).1, fun hpoint => (hword '.' hpoint).2 rfl⟩

theorem chars_of_word? (ty : Ty) {word : List Char} (h : ty.word? = some word) :
    chars word = word := chars_word (word?_chars h).1 (word?_chars h).2

/-- The normal form of a printed type, given that of its parts. -/
def normalOf (ty : Ty) (parts : List (List Char)) : List Char :=
  match ty, parts with
  | void, _ => "void".toList
  | label, _ => "label".toList
  | integer bits, _ => 'i' :: Nat.toDigits 10 bits
  | float bits, _ => (TypeTable.floatText bits).toList
  | pointer _, [pointee] => pointee ++ ['*']
  | function _ _ variadic, ret :: params =>
    ret ++ '(' :: listed (params ++ if variadic then ["...".toList] else []) ++ [')']
  | struct (some name) _ _, _ => '%' :: bare name.toList
  | struct none _ _, fields => '{' :: listed fields ++ ['}']
  | array _ length, [element] => '[' :: Nat.toDigits 10 length ++ 'x' :: element ++ [']']
  | vector _ length, [element] => '<' :: Nat.toDigits 10 length ++ 'x' :: element ++ ['>']
  | _, _ => []

end Ty

namespace TypeTable

variable {t : TypeTable} {id : TypeId} {ty : Ty}

/-- The names of structs are made of the usual characters. -/
def PlainNames (t : TypeTable) : Prop :=
  ∀ id name, t.structName? id = some name → ∀ c ∈ name.toList, isNameChar c = true

instance (t : TypeTable) : Decidable t.PlainNames :=
  decidable_of_iff
    (∀ id ∈ t.ids, ∀ name ∈ t.structName? id, name.toList.all isNameChar = true) <| by
    simp only [List.all_eq_true]
    refine ⟨fun h id name hname => ?_, fun h id _ name hname => h id name hname⟩
    obtain ⟨ty, hty, -⟩ := Option.bind_eq_some_iff.1 hname
    exact h id (mem_ids_of_get? hty) name hname

def normal (t : TypeTable) (id : TypeId) : List Char := chars (t.print id).toList

theorem typeText_print (t : TypeTable) (id : TypeId) :
    typeText (t.print id) = String.ofList (t.normal id) := rfl

theorem chars_sequence {o c : Char} (n : Nat) (element : List Char)
    (hopen : '.' ≠ o ∧ isBlank o = false) (hclose : Apart [c]) (hend : chars [c] = [c]) :
    chars (o :: (Nat.toDigits 10 n ++ ' ' :: 'x' :: ' ' :: (element ++ [c]))) =
      o :: Nat.toDigits 10 n ++ 'x' :: chars element ++ [c] := by
  have hlead : '.' ∉ o :: (Nat.toDigits 10 n ++ [' ', 'x', ' ']) := by
    simp [hopen.1, noPoint_toDigits]
  have hblank : dropBlanks (o :: (Nat.toDigits 10 n ++ [' ', 'x', ' '])) =
      o :: (Nat.toDigits 10 n ++ ['x']) := by
    have hcross : [' ', 'x', ' '].filter (fun c => !isBlank c) = ['x'] := by decide
    rw [dropBlanks, List.filter_cons_of_pos (by simp [hopen.2]), List.filter_append, hcross]
    exact congrArg (o :: · ++ ['x']) (dropBlanks_toDigits n)
  have := chars_append_of_noPoint hlead (element ++ [c])
  rw [hblank, chars_append hclose, hend] at this
  simpa using this

theorem chars_function (ret : List Char) (items : List String) :
    chars (ret ++ ' ' :: '(' :: ((joinWith ", " items).toList ++ [')'])) =
      chars ret ++ '(' :: listed (items.map fun item => chars item.toList) ++ [')'] := by
  have hspace : Apart ([' ', '('] ++ ((joinWith ", " items).toList ++ [')'])) :=
    apart_cons (by simp) _
  have hparams := chars_append_of_noPoint (a := [' ', '(']) (by decide)
    ((joinWith ", " items).toList ++ [')'])
  have hblank : dropBlanks [' ', '('] = ['('] := by decide
  have hend : chars [')'] = [')'] := chars_of_noPoint (by decide)
  rw [chars_joinWith items (apart_cons (by simp) _), hend, hblank] at hparams
  have := chars_append hspace ret
  rw [hparams] at this
  simpa using this

theorem chars_anonymous (items : List String) :
    chars ('{' :: ' ' :: ((joinWith ", " items).toList ++ [' ', '}'])) =
      '{' :: listed (items.map fun item => chars item.toList) ++ ['}'] := by
  have hblank : dropBlanks ['{', ' '] = ['{'] := by decide
  have hend : chars [' ', '}'] = ['}'] := chars_of_noPoint (by decide)
  have := chars_append_of_noPoint (a := ['{', ' ']) (by decide)
    ((joinWith ", " items).toList ++ [' ', '}'])
  rw [hblank, chars_joinWith items (apart_cons (by simp) _), hend] at this
  simpa using this

theorem chars_dots : chars ['.', '.', '.'] = ['.', '.', '.'] := by
  rw [chars, dropNumbers_point rfl, dropNumbers_point rfl, dropNumbers_point rfl, dropNumbers]
  decide

theorem PlainNames.isNameChar_bare {name : String} (h : t.PlainNames) (hty : t.get? id = some ty)
    (hname : ty.structName? = some name) : ∀ c ∈ bare name.toList, isNameChar c = true := by
  intro c hc
  rw [← dropNumbers_eq_bare] at hc
  exact h id name (by rw [structName?, hty, Option.bind_some, hname]) c (mem_of_mem_dropNumbers hc)

theorem chars_written
    (hname : ∀ name, ty.structName? = some name → ∀ c ∈ bare name.toList, isNameChar c = true) :
    chars (t.written ty).toList = ty.normalOf (ty.shown.map t.normal) := by
  have hnormal : t.normal = fun id => chars (t.print id).toList := rfl
  rw [written, hnormal]
  cases ty with
  | void => exact Ty.chars_of_word? .void rfl
  | label => exact Ty.chars_of_word? .label rfl
  | float bits => exact Ty.chars_of_word? (.float bits) rfl
  | integer bits =>
    have hword := Ty.chars_of_word? (.integer bits) rfl
    simpa [Ty.textOf, Ty.normalOf] using hword
  | pointer pointee =>
    have hstar := chars_append (b := ['*']) (apart_cons (by simp) _) (t.print pointee).toList
    have hend : chars ['*'] = ['*'] := chars_of_noPoint (by decide)
    simpa [Ty.textOf, Ty.normalOf, Ty.shown, Ty.parts, hend] using hstar
  | function ret params variadic =>
    have hfunction := chars_function (t.print ret).toList
      (params.map t.print ++ if variadic then ["..."] else [])
    cases variadic <;>
      simpa [Ty.textOf, Ty.normalOf, Ty.shown, Ty.parts, chars_dots, Function.comp_def]
        using hfunction
  | struct name fields bodiless =>
    cases name with
    | none =>
      have hanonymous := chars_anonymous (fields.map t.print)
      simpa [Ty.textOf, Ty.normalOf, Ty.shown, Ty.parts, Function.comp_def] using hanonymous
    | some name =>
      have hname : chars name.toList = bare name.toList := by
        rw [chars, dropNumbers_eq_bare, dropBlanks_of_nameChars (hname name rfl)]
      have hsign : dropBlanks ['%'] = ['%'] := by decide
      have hchars := chars_append_of_noPoint (a := ['%']) (by decide) name.toList
      rw [hname, hsign] at hchars
      simpa [Ty.textOf, Ty.normalOf] using hchars
  | array element length =>
    have hsequence := chars_sequence (o := '[') length (t.print element).toList (by decide)
      (apart_cons (c := ']') (by simp) _) (chars_of_noPoint (by decide))
    simpa [Ty.textOf, Ty.normalOf, Ty.shown, Ty.parts] using hsequence
  | vector element length =>
    have hsequence := chars_sequence (o := '<') length (t.print element).toList (by decide)
      (apart_cons (c := '>') (by simp) _) (chars_of_noPoint (by decide))
    simpa [Ty.textOf, Ty.normalOf, Ty.shown, Ty.parts] using hsequence

theorem normal_eq (ht : t.Valid) (hnames : t.PlainNames) (hty : t.get? id = some ty) :
    t.normal id = ty.normalOf (ty.shown.map t.normal) := by
  rw [normal, print_eq ht hty]
  exact chars_written fun name hname => hnames.isNameChar_bare hty hname

end TypeTable

end CallTargets
