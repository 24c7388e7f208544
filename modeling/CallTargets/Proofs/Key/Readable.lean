import CallTargets.Proofs.Json.Token
import CallTargets.Proofs.Key.Printed

/-!
# Printed types can be read back

If the names of structs are made of the usual characters, the normal form of a printed type tells
all there is to know of it except for the numbers in names and for the sizes of the largest floating
point types (`typeText_print_eq_iff`).

What is printed around a type may begin with that type, so printed types are read from their ends.
The last character tells pointers, functions, arrays, vectors and structs without a name apart, and
all others are words. Reading goes on before the type, and what can stand there (`Opens`) shows
where a word begins.
-/

namespace CallTargets

open Text CallTargets.Normal

/-! ## Alike types -/

/-- Types of the same make whose parts are related. Named structs are compared by their names
without numbers, and floating point types by their kinds. -/
inductive Ty.Like (R : TypeId → TypeId → Prop) : Ty → Ty → Prop
  | void : Like R .void .void
  | label : Like R .label .label
  | integer (bits : Nat) : Like R (.integer bits) (.integer bits)
  | float {bits bits' : Nat} (h : (Ty.float bits).kindCode = (Ty.float bits').kindCode) :
    Like R (.float bits) (.float bits')
  | pointer {a b : TypeId} (h : R a b) : Like R (.pointer a) (.pointer b)
  | function {ret ret' : TypeId} {params params' : List TypeId} (hret : R ret ret')
    (hparams : List.Forall₂ R params params') (variadic : Bool) :
    Like R (.function ret params variadic) (.function ret' params' variadic)
  | named {name name' : String} (h : bare name.toList = bare name'.toList)
    (fields fields' : List TypeId) (bodiless bodiless' : Bool) :
    Like R (.struct (some name) fields bodiless) (.struct (some name') fields' bodiless')
  | anonymous {fields fields' : List TypeId} (h : List.Forall₂ R fields fields')
    (bodiless bodiless' : Bool) :
    Like R (.struct none fields bodiless) (.struct none fields' bodiless')
  | array {a b : TypeId} (h : R a b) (length : Nat) : Like R (.array a length) (.array b length)
  | vector {a b : TypeId} (h : R a b) (length : Nat) : Like R (.vector a length) (.vector b length)

/-- Types of one structure, all the way down. -/
inductive TypeTable.Alike (t : TypeTable) : TypeId → TypeId → Prop
  | intro {a b : TypeId} {ty ty' : Ty} (ha : t.get? a = some ty) (hb : t.get? b = some ty')
    (h : ty.Like (Alike t) ty') : Alike t a b

/-! ## Words -/

theorem toDigits_injective {m n : Nat} (h : Nat.toDigits 10 m = Nat.toDigits 10 n) : m = n := by
  rw [← decimal_toDigits m, h, decimal_toDigits]

namespace Ty

theorem floatText_eq (bits : Nat) :
    TypeTable.floatText bits = match (float bits).kindCode with
      | 0 => "half"
      | 2 => "float"
      | 3 => "double"
      | 4 => "x86_fp80"
      | _ => "fp128" := by
  unfold TypeTable.floatText
  split
  · rfl
  · rfl
  · rfl
  · rfl
  · have hkind : (float bits).kindCode = 5 := by rw [kindCode] <;> assumption
    rw [hkind]
    rfl

theorem kindCode_of_floatText {bits bits' : Nat}
    (h : TypeTable.floatText bits = TypeTable.floatText bits') :
    (float bits).kindCode = (float bits').kindCode := by
  unfold TypeTable.floatText at h
  unfold kindCode
  split at h <;> split at h <;> simp_all

/-- The characters that the words of a type may begin with. -/
def initials : Ty → List Char
  | void => ['v']
  | label => ['l']
  | integer _ => ['i']
  | float _ => ['h', 'f', 'd', 'x']
  | _ => []

theorem word?_head {ty : Ty} {word : List Char} (h : ty.word? = some word) :
    ∃ c rest, word = c :: rest ∧ c ∈ ty.initials := by
  cases ty with
  | void | label | integer =>
    cases h
    exact ⟨_, _, rfl, .head _⟩
  | float bits =>
    cases h
    change ∃ c rest, (TypeTable.floatText bits).toList = c :: rest ∧ c ∈ ['h', 'f', 'd', 'x']
    unfold TypeTable.floatText
    split <;> exact ⟨_, _, rfl, by decide⟩
  | _ => cases h

theorem like_of_word? {R : TypeId → TypeId → Prop} {ty ty' : Ty} {word : List Char}
    (h : ty.word? = some word) (h' : ty'.word? = some word) : ty.Like R ty' := by
  obtain ⟨c, rest, rfl, hc⟩ := word?_head h
  obtain ⟨c', rest', hword, hc'⟩ := word?_head h'
  obtain ⟨rfl, rfl⟩ := List.cons.inj hword
  cases ty <;> cases ty'
  case void.void => exact .void
  case label.label => exact .label
  case integer.integer bits bits' =>
    have hdigits := Option.some.inj (h.trans h'.symm)
    obtain rfl := toDigits_injective (List.cons.inj hdigits).2
    exact .integer bits
  case float.float bits bits' =>
    have htext := Option.some.inj (h.trans h'.symm)
    exact .float (kindCode_of_floatText (String.toList_injective htext))
  all_goals simp_all [initials]

end Ty

theorem map_eq_of_forall₂ {R : TypeId → TypeId → Prop} {f : TypeId → List Char}
    {ids ids' : List TypeId} (h : List.Forall₂ R ids ids')
    (hf : ∀ id ∈ ids, ∀ id', R id id' → f id = f id') : ids.map f = ids'.map f := by
  induction h with
  | nil => rfl
  | cons hfirst _ ih =>
    rw [List.map_cons, List.map_cons, hf _ (.head _) _ hfirst,
      ih fun id hid => hf id (.tail _ hid)]

namespace Ty.Like

variable {R : TypeId → TypeId → Prop} {ty ty' : Ty}

theorem shown (h : ty.Like R ty') : List.Forall₂ R ty.shown ty'.shown := by
  cases h with
  | void | label | integer | float | named => exact .nil
  | pointer h | array h | vector h => exact .cons h .nil
  | function hret hparams => exact .cons hret hparams
  | anonymous h => exact h

theorem normalOf_eq (h : ty.Like R ty') (parts : List (List Char)) :
    ty.normalOf parts = ty'.normalOf parts := by
  cases h with
  | float hkind => simp only [normalOf, floatText_eq, hkind]
  | named hname => simp only [normalOf, hname]
  | pointer | function | array | vector => rcases parts with _ | ⟨_, _ | _⟩ <;> rfl
  | _ => rfl

end Ty.Like

/-! ## Reading from the end -/

theorem eq_of_append_eq {p : Char → Bool} {x x' y y' : List Char} (hx : ∀ c ∈ x, p c = true)
    (hx' : ∀ c ∈ x', p c = true) (hy : y.head?.any p = false) (hy' : y'.head?.any p = false)
    (h : x ++ y = x' ++ y') : x = x' ∧ y = y' := by
  have hrun : ∀ {x y : List Char}, (∀ c ∈ x, p c = true) → y.head?.any p = false →
      (x ++ y).takeWhile p = x := by
    intro x y hx hy
    rw [List.takeWhile_append_of_pos hx]
    cases y with
    | nil => exact List.append_nil _
    | cons c y => rw [List.takeWhile_cons_of_neg (by simpa using hy), List.append_nil]
  have hruns : x = x' := by rw [← hrun hx hy, h, hrun hx' hy']
  subst hruns
  exact ⟨rfl, List.append_cancel_left h⟩

/-- What a type may stand behind, read from its end: nothing, the beginning of a list, a comma, or
the number of its copies. -/
inductive Opens : List Char → Prop
  | nothing : Opens []
  | item {c : Char} (h : c ∈ ['(', ',', '{']) (rest : List Char) : Opens (c :: rest)
  | count (n : Nat) {c : Char} (h : c ∈ ['[', '<']) (rest : List Char) :
    Opens ('x' :: (Nat.toDigits 10 n).reverse ++ c :: rest)

theorem isNameChar_opening {c : Char} (h : c ∈ ['(', ',', '{', '[', '<']) :
    isNameChar c = false := by
  have hall : ['(', ',', '{', '[', '<'].all (fun c => !isNameChar c) = true := by decide
  simpa using List.all_eq_true.1 hall c h

theorem isNameChar_item {c : Char} (h : c ∈ ['(', ',', '{']) : isNameChar c = false :=
  isNameChar_opening (List.mem_append_left ['[', '<'] h)

theorem listed_cons_append (item : List Char) (items : List (List Char)) (rest : List Char) :
    listed (item :: items) ++ rest =
      item ++ if items = [] then rest else ',' :: (listed items ++ rest) := by
  cases items with
  | nil => rfl
  | cons next items => simp [listed]

theorem listed_concat (items : List (List Char)) (item : List Char) :
    listed (items ++ [item]) = if items = [] then item else listed items ++ ',' :: item := by
  induction items with
  | nil => rfl
  | cons first items ih =>
    cases items with
    | nil => rfl
    | cons next items => simpa [listed] using ih

theorem reverse_listed (items : List (List Char)) :
    (listed items).reverse = listed (items.reverse.map List.reverse) := by
  induction items with
  | nil => rfl
  | cons item items ih =>
    cases items with
    | nil => rfl
    | cons next items =>
      rw [List.reverse_cons, List.map_append, List.map_singleton, listed_concat, ← ih,
        if_neg (by simp)]
      simp [listed]

theorem eq_of_count_eq {m n : Nat} {c : Char} {r s : List Char} (hc : c.isDigit = false)
    (h : 'x' :: (Nat.toDigits 10 m).reverse ++ c :: r =
      'x' :: (Nat.toDigits 10 n).reverse ++ c :: s) :
    m = n ∧ r = s := by
  have hdigits : ∀ n, ∀ d ∈ (Nat.toDigits 10 n).reverse, d.isDigit = true := fun n d hd =>
    isDigit_of_mem_toDigits (List.mem_reverse.1 hd)
  obtain ⟨hmn, hrs⟩ := eq_of_append_eq (hdigits m) (hdigits n) (by simpa using hc)
    (by simpa using hc) (List.cons.inj h).2
  exact ⟨toDigits_injective (List.reverse_injective hmn), (List.cons.inj hrs).2⟩

/-- The last character of types that are not printed as words. -/
def Ty.last? : Ty → Option Char
  | pointer _ => some '*'
  | function .. => some ')'
  | struct none .. => some '}'
  | array .. => some ']'
  | vector .. => some '>'
  | _ => none

theorem Ty.last?_eq_none_iff {ty : Ty} : ty.last? = none ↔
    (∃ word, ty.word? = some word) ∨
      ∃ name fields bodiless, ty = .struct (some name) fields bodiless := by
  cases ty with
  | struct name fields bodiless => cases name <;> simp [last?, word?]
  | _ => simp [last?, word?]

theorem Ty.isNameChar_of_last? {ty : Ty} {c : Char} (h : ty.last? = some c) :
    isNameChar c = false ∧ c ≠ '%' ∧ c ∉ ['(', ',', '{'] := by
  cases ty with
  | struct name fields bodiless =>
    cases name with
    | none =>
      cases h
      decide
    | some name => cases h
  | pointer | function | array | vector =>
    cases h
    decide
  | _ => cases h

inductive Ty.SameEnd : Ty → Ty → Prop
  | words {ty ty' : Ty} (h : ty.last? = none) (h' : ty'.last? = none) : SameEnd ty ty'
  | pointer (a b : TypeId) : SameEnd (.pointer a) (.pointer b)
  | function (ret ret' : TypeId) (params params' : List TypeId) (variadic variadic' : Bool) :
    SameEnd (.function ret params variadic) (.function ret' params' variadic')
  | anonymous (fields fields' : List TypeId) (bodiless bodiless' : Bool) :
    SameEnd (.struct none fields bodiless) (.struct none fields' bodiless')
  | array (a b : TypeId) (length length' : Nat) : SameEnd (.array a length) (.array b length')
  | vector (a b : TypeId) (length length' : Nat) : SameEnd (.vector a length) (.vector b length')

theorem Ty.sameEnd_of_last?_eq {ty ty' : Ty} (h : ty.last? = ty'.last?) : ty.SameEnd ty' := by
  cases hlast : ty.last? with
  | none => exact .words hlast (h ▸ hlast)
  | some c =>
    rw [hlast] at h
    unfold last? at hlast h
    split at hlast
    · cases hlast
      split at h
      case h_1 => exact .pointer ..
      all_goals cases h
    · cases hlast
      split at h
      case h_2 => exact .function ..
      all_goals cases h
    · cases hlast
      split at h
      case h_3 => exact .anonymous ..
      all_goals cases h
    · cases hlast
      split at h
      case h_4 => exact .array ..
      all_goals cases h
    · cases hlast
      split at h
      case h_5 => exact .vector ..
      all_goals cases h
    · cases hlast

/-- How far a word goes if read from its end: up to a character of no name, which is the sign of a
named struct or stands before the word. -/
inductive Wordy (r : List Char) : Ty → (run rest : List Char) → Prop
  | named (name : String) (fields : List TypeId) (bodiless : Bool) :
    Wordy r (.struct (some name) fields bodiless) (bare name.toList).reverse ('%' :: r)
  | plain {ty : Ty} {word : List Char} (hword : ty.word? = some word)
    (hr : ∀ c, r.head? = some c → c ∈ ['(', ',', '{']) : Wordy r ty word.reverse r
  | counted {ty : Ty} {word : List Char} (hword : ty.word? = some word) (n : Nat) {c : Char}
    (hc : c ∈ ['[', '<']) {rest : List Char}
    (hr : r = 'x' :: (Nat.toDigits 10 n).reverse ++ c :: rest) :
    Wordy r ty (word.reverse ++ 'x' :: (Nat.toDigits 10 n).reverse) (c :: rest)

namespace Wordy

variable {r s run run' rest rest' : List Char} {ty ty' : Ty}

theorem isNameChar_rest (h : Wordy r ty run rest) : rest.head?.any isNameChar = false := by
  cases h with
  | named name fields bodiless => rfl
  | plain hword hr =>
    cases r with
    | nil => rfl
    | cons c r => exact isNameChar_item (hr c rfl)
  | counted hword n hc hr => exact isNameChar_opening (List.mem_append_right ['(', ',', '{'] hc)

theorem unique {R : TypeId → TypeId → Prop} (h : Wordy r ty run rest) (h' : Wordy s ty' run' rest')
    (hrun : run = run') (hrest : rest = rest') : ty.Like R ty' ∧ r = s := by
  have hsign : '%' ∉ ['(', ',', '{'] := by decide
  have hcount : ∀ c ∈ ['[', '<'], c ≠ '%' ∧ c ∉ ['(', ',', '{'] := by
    intro c hc
    simp only [List.mem_cons, List.not_mem_nil, or_false] at hc
    rcases hc with rfl | rfl <;> decide
  cases h with
  | named name fields bodiless =>
    cases h' with
    | named name' fields' bodiless' =>
      exact ⟨.named (List.reverse_injective hrun) .., (List.cons.inj hrest).2⟩
    | plain hword hs =>
      subst hrest
      exact absurd (hs '%' rfl) hsign
    | counted hword n hc hs => exact absurd (List.cons.inj hrest).1.symm (hcount _ hc).1
  | plain hword hr =>
    cases h' with
    | named name' fields' bodiless' =>
      subst hrest
      exact absurd (hr '%' rfl) hsign
    | plain hword' hs =>
      obtain rfl := List.reverse_injective hrun
      exact ⟨Ty.like_of_word? hword hword', hrest⟩
    | counted hword' n hc hs =>
      subst hrest
      exact absurd (hr _ rfl) (hcount _ hc).2
  | counted hword n hc hr =>
    cases h' with
    | named name' fields' bodiless' => exact absurd (List.cons.inj hrest).1 (hcount _ hc).1
    | plain hword' hs =>
      subst hrest
      exact absurd (hs _ rfl) (hcount _ hc).2
    | counted hword' n' hc' hs =>
      have hforward := congrArg List.reverse hrun
      simp only [List.reverse_append, List.reverse_cons, List.reverse_reverse, List.append_assoc,
        List.singleton_append] at hforward
      -- the digits end at the `x`
      obtain ⟨hdigits, hwords⟩ := eq_of_append_eq (fun _ hd => isDigit_of_mem_toDigits hd)
        (fun _ hd => isDigit_of_mem_toDigits hd) rfl rfl hforward
      obtain rfl := toDigits_injective hdigits
      obtain rfl := (List.cons.inj hwords).2
      exact ⟨Ty.like_of_word? hword hword', by rw [hr, hs, hrest]⟩

theorem ne_dots {c : Char} (h : Wordy r ty run rest) (hc : c ∈ ['(', ',', '{'])
    (hrest : rest.head? = some c) : run ≠ ['.', '.', '.'] := by
  intro hrun
  cases h with
  | named name fields bodiless =>
    cases hrest
    exact absurd hc (by decide)
  | plain hword hr =>
    refine (Ty.word?_chars hword).2 (List.mem_reverse.1 ?_)
    rw [hrun]
    exact .head _
  | counted hword n hc' hr =>
    cases hrest
    simp only [List.mem_cons, List.not_mem_nil, or_false] at hc'
    rcases hc' with rfl | rfl <;> exact absurd hc (by decide)

end Wordy

namespace TypeTable

variable {t : TypeTable} {id : TypeId} {ty : Ty}

def back (t : TypeTable) (id : TypeId) : List Char := (t.normal id).reverse

/-- The parameters of a function from the last one on, with the dots of a variadic one. -/
def itemsBack (params : List TypeId) (variadic : Bool) : List (Option TypeId) :=
  (if variadic then [none] else []) ++ params.reverse.map some

theorem of_itemsBack {R : TypeId → TypeId → Prop} {params params' : List TypeId}
    {variadic variadic' : Bool}
    (h : List.Forall₂ (Option.Rel R) (itemsBack params variadic) (itemsBack params' variadic')) :
    variadic = variadic' ∧ List.Forall₂ R params params' := by
  have hparams : List.Forall₂ (Option.Rel R) (params.reverse.map some) (params'.reverse.map some) →
      List.Forall₂ R params params' := by
    intro h
    rw [List.forall₂_map_left_iff, List.forall₂_map_right_iff] at h
    refine List.forall₂_reverse_iff.1 (h.imp ?_)
    rintro a b ⟨⟩
    assumption
  cases variadic with
  | false =>
    cases variadic' with
    | false => exact ⟨rfl, hparams h⟩
    | true =>
      obtain ⟨_, _, ⟨⟩, -, hnone⟩ := List.forall₂_cons_right_iff.1 h
      simpa [itemsBack] using congrArg (none ∈ ·) hnone
  | true =>
    cases variadic' with
    | false =>
      obtain ⟨_, _, ⟨⟩, -, hnone⟩ := List.forall₂_cons_left_iff.1 h
      simpa [itemsBack] using congrArg (none ∈ ·) hnone
    | true =>
      obtain ⟨-, hrest⟩ := List.forall₂_cons.1 h
      exact ⟨rfl, hparams hrest⟩

theorem mem_of_mem_itemsBack {params : List TypeId} {variadic : Bool} {a : TypeId}
    (h : some a ∈ itemsBack params variadic) : a ∈ params := by
  cases variadic <;> simpa [itemsBack] using h

def itemBack (t : TypeTable) : Option TypeId → List Char
  | some id => t.back id
  | none => ['.', '.', '.']

section

variable (ht : t.Valid) (hnames : t.PlainNames)

include ht hnames

theorem back_of_word? {word : List Char} (hty : t.get? id = some ty) (h : ty.word? = some word) :
    t.back id = word.reverse := by
  rw [back, normal_eq ht hnames hty]
  cases ty <;> cases h <;> rfl

theorem back_named {name : String} {fields : List TypeId} {bodiless : Bool}
    (hty : t.get? id = some (.struct (some name) fields bodiless)) :
    t.back id = (bare name.toList).reverse ++ ['%'] := by
  rw [back, normal_eq ht hnames hty]
  simp [Ty.normalOf]

theorem back_pointer {pointee : TypeId} (hty : t.get? id = some (.pointer pointee)) :
    t.back id = '*' :: t.back pointee := by
  rw [back, normal_eq ht hnames hty]
  simp [Ty.normalOf, Ty.shown, Ty.parts, back]

theorem back_function {ret : TypeId} {params : List TypeId} {variadic : Bool}
    (hty : t.get? id = some (.function ret params variadic)) :
    t.back id =
      ')' :: (listed ((itemsBack params variadic).map t.itemBack) ++ '(' :: t.back ret) := by
  rw [back, normal_eq ht hnames hty]
  cases variadic <;>
    simp [Ty.normalOf, Ty.shown, Ty.parts, back, itemsBack, itemBack, reverse_listed,
      Function.comp_def]

theorem back_anonymous {fields : List TypeId} {bodiless : Bool}
    (hty : t.get? id = some (.struct none fields bodiless)) :
    t.back id = '}' :: (listed ((itemsBack fields false).map t.itemBack) ++ ['{']) := by
  rw [back, normal_eq ht hnames hty]
  simp [Ty.normalOf, Ty.shown, Ty.parts, back, itemsBack, itemBack, reverse_listed,
    Function.comp_def]

theorem back_array {element : TypeId} {length : Nat}
    (hty : t.get? id = some (.array element length)) :
    t.back id = ']' :: (t.back element ++ 'x' :: (Nat.toDigits 10 length).reverse ++ ['[']) := by
  rw [back, normal_eq ht hnames hty]
  simp [Ty.normalOf, Ty.shown, Ty.parts, back]

theorem back_vector {element : TypeId} {length : Nat}
    (hty : t.get? id = some (.vector element length)) :
    t.back id = '>' :: (t.back element ++ 'x' :: (Nat.toDigits 10 length).reverse ++ ['<']) := by
  rw [back, normal_eq ht hnames hty]
  simp [Ty.normalOf, Ty.shown, Ty.parts, back]

theorem exists_back_eq_cons (hty : t.get? id = some ty) :
    ∃ c rest, t.back id = c :: rest ∧
      (ty.last? = some c ∨ ty.last? = none ∧ (isNameChar c = true ∨ c = '%')) := by
  cases hlast : ty.last? with
  | none =>
    rcases Ty.last?_eq_none_iff.1 hlast with ⟨word, hword⟩ | ⟨name, fields, bodiless, rfl⟩
    · obtain ⟨first, others, rfl, -⟩ := Ty.word?_head hword
      rw [back_of_word? ht hnames hty hword]
      obtain ⟨c, rest, hback⟩ :=
        List.exists_cons_of_ne_nil (l := (first :: others).reverse) (by simp)
      have hc : c ∈ first :: others := List.mem_reverse.1 (hback ▸ .head _)
      exact ⟨c, rest, hback, .inr ⟨rfl, .inl ((Ty.word?_chars hword).1 c hc)⟩⟩
    · rw [back_named ht hnames hty]
      cases hback : (bare name.toList).reverse with
      | nil => exact ⟨'%', [], rfl, .inr ⟨rfl, .inr rfl⟩⟩
      | cons c rest =>
        have hc : c ∈ bare name.toList := List.mem_reverse.1 (hback ▸ .head _)
        exact ⟨c, _, rfl, .inr ⟨rfl, .inl (hnames.isNameChar_bare hty rfl c hc)⟩⟩
  | some c =>
    refine ⟨c, ?_⟩
    have hback : ∃ rest, t.back id = c :: rest := by
      cases ty with
      | pointer pointee =>
        cases hlast
        exact ⟨_, back_pointer ht hnames hty⟩
      | function ret params variadic =>
        cases hlast
        exact ⟨_, back_function ht hnames hty⟩
      | struct name fields bodiless =>
        cases name with
        | none =>
          cases hlast
          exact ⟨_, back_anonymous ht hnames hty⟩
        | some name => cases hlast
      | array element length =>
        cases hlast
        exact ⟨_, back_array ht hnames hty⟩
      | vector element length =>
        cases hlast
        exact ⟨_, back_vector ht hnames hty⟩
      | _ => cases hlast
    obtain ⟨rest, hback⟩ := hback
    exact ⟨rest, hback, .inl rfl⟩

theorem last?_eq {a b : TypeId} {ty ty' : Ty} {r s : List Char} (hty : t.get? a = some ty)
    (hty' : t.get? b = some ty') (h : t.back a ++ r = t.back b ++ s) : ty.last? = ty'.last? := by
  obtain ⟨c, rest, hback, hlast⟩ := exists_back_eq_cons ht hnames hty
  obtain ⟨c', rest', hback', hlast'⟩ := exists_back_eq_cons ht hnames hty'
  rw [hback, hback'] at h
  obtain rfl : c = c' := (List.cons.inj h).1
  have hword : ∀ {ty : Ty}, ty.last? = some c → ¬ (isNameChar c = true ∨ c = '%') := by
    intro ty hc
    have hno := Ty.isNameChar_of_last? hc
    simp [hno.1, hno.2.1]
  rcases hlast with hlast | ⟨hlast, hc⟩
  · rcases hlast' with hlast' | ⟨-, hc'⟩
    · rw [hlast, hlast']
    · exact absurd hc' (hword hlast)
  · rcases hlast' with hlast' | ⟨hlast', -⟩
    · exact absurd hc (hword hlast')
    · rw [hlast, hlast']

theorem exists_wordy {r : List Char} (hty : t.get? id = some ty) (hlast : ty.last? = none)
    (hr : Opens r) : ∃ run rest, t.back id ++ r = run ++ rest ∧ (∀ c ∈ run, isNameChar c = true) ∧
      Wordy r ty run rest := by
  rcases Ty.last?_eq_none_iff.1 hlast with ⟨word, hword⟩ | ⟨name, fields, bodiless, rfl⟩
  · have hchars : ∀ c ∈ word.reverse, isNameChar c = true := fun c hc =>
      (Ty.word?_chars hword).1 c (List.mem_reverse.1 hc)
    rw [back_of_word? ht hnames hty hword]
    cases hr with
    | nothing => exact ⟨_, _, rfl, hchars, .plain hword (by simp)⟩
    | item hc rest =>
      refine ⟨_, _, rfl, hchars, .plain hword ?_⟩
      rintro _ ⟨⟩
      exact hc
    | count n hc rest =>
      refine ⟨_, _, (List.append_assoc word.reverse ('x' :: (Nat.toDigits 10 n).reverse) _).symm,
        ?_, .counted hword n hc rfl⟩
      have hdigits : ∀ c ∈ 'x' :: (Nat.toDigits 10 n).reverse, isNameChar c = true := by
        intro c hc
        rcases List.mem_cons.1 hc with rfl | hc
        · decide
        · exact isNameChar_of_isDigit (isDigit_of_mem_toDigits (List.mem_reverse.1 hc))
      exact List.forall_mem_append.2 ⟨hchars, hdigits⟩
  · rw [back_named ht hnames hty, List.append_assoc]
    exact ⟨_, _, rfl, fun c hc => hnames.isNameChar_bare hty rfl c (List.mem_reverse.1 hc),
      .named name fields bodiless⟩

theorem back_ne_dots {r s : List Char} {c c' : Char} (hid : id.index < t.size)
    (hc : c ∈ ['(', ',', '{']) (hc' : c' ∈ ['(', ',', '{']) :
    t.back id ++ c :: r ≠ ['.', '.', '.'] ++ c' :: s := by
  intro h
  obtain ⟨ty, hty⟩ := exists_get? hid
  have hlast : ty.last? = none := by
    obtain ⟨first, rest, hback, hlast | ⟨hlast, -⟩⟩ := exists_back_eq_cons ht hnames hty
    · rw [hback] at h
      obtain rfl : first = '.' := (List.cons.inj h).1
      exact absurd (Ty.isNameChar_of_last? hlast).1 (by decide)
    · exact hlast
  obtain ⟨run, rest, hback, hrun, hwordy⟩ := exists_wordy ht hnames hty hlast (.item hc r)
  have hdots : ∀ c ∈ ['.', '.', '.'], isNameChar c = true := by
    simp only [List.mem_cons, List.not_mem_nil, or_false, or_self]
    rintro c rfl
    decide
  have hnext : (c' :: s).head?.any isNameChar = false := isNameChar_item hc'
  obtain ⟨hrun, hrest⟩ := eq_of_append_eq hrun hdots hwordy.isNameChar_rest hnext
    (hback.symm.trans h)
  exact hwordy.ne_dots hc' (by rw [hrest]; rfl) hrun

/-- Whatever ends like the type can be split like it. -/
def Reads (t : TypeTable) (a : TypeId) : Prop :=
  ∀ b r s, b.index < t.size → Opens r → Opens s → t.back a ++ r = t.back b ++ s →
    t.Alike a b ∧ r = s

theorem read_item {item item' : Option TypeId} {r s : List Char} {c c' : Char}
    (hread : ∀ a, item = some a → a.index < t.size ∧ t.Reads a)
    (hitem' : ∀ b, item' = some b → b.index < t.size) (hc : c ∈ ['(', ',', '{'])
    (hc' : c' ∈ ['(', ',', '{']) (h : t.itemBack item ++ c :: r = t.itemBack item' ++ c' :: s) :
    Option.Rel t.Alike item item' ∧ c :: r = c' :: s := by
  cases item with
  | none =>
    cases item' with
    | none => exact ⟨.none, List.append_cancel_left h⟩
    | some b => exact absurd h.symm (back_ne_dots ht hnames (hitem' b rfl) hc' hc)
  | some a =>
    obtain ⟨ha, hreads⟩ := hread a rfl
    cases item' with
    | none => exact absurd h (back_ne_dots ht hnames ha hc hc')
    | some b =>
      obtain ⟨halike, hrest⟩ := hreads b _ _ (hitem' b rfl) (.item hc r) (.item hc' s) h
      exact ⟨.some halike, hrest⟩

theorem exists_itemBack_eq_cons {item : Option TypeId}
    (hitem : ∀ id, item = some id → id.index < t.size) :
    ∃ c rest, t.itemBack item = c :: rest ∧ c ∉ ['(', ',', '{'] := by
  cases item with
  | none => exact ⟨_, _, rfl, by decide⟩
  | some id =>
    obtain ⟨ty, hty⟩ := exists_get? (hitem id rfl)
    obtain ⟨c, rest, hback, hlast | ⟨-, hc | rfl⟩⟩ := exists_back_eq_cons ht hnames hty
    · exact ⟨c, rest, hback, (Ty.isNameChar_of_last? hlast).2.2⟩
    · refine ⟨c, rest, hback, fun hopening => ?_⟩
      rw [isNameChar_item hopening] at hc
      cases hc
    · exact ⟨_, rest, hback, by decide⟩

theorem read_items {items items' : List (Option TypeId)} {r s : List Char} {o : Char}
    (hread : ∀ a, some a ∈ items → a.index < t.size ∧ t.Reads a)
    (hitems' : ∀ b, some b ∈ items' → b.index < t.size) (ho : o ∈ ['(', '{'])
    (h : listed (items.map t.itemBack) ++ o :: r = listed (items'.map t.itemBack) ++ o :: s) :
    List.Forall₂ (Option.Rel t.Alike) items items' ∧ r = s := by
  have hitem : o ∈ ['(', ',', '{'] := by
    simp only [List.mem_cons, List.not_mem_nil, or_false] at ho ⊢
    tauto
  have hcomma : o ≠ ',' := by
    rintro rfl
    exact absurd ho (by decide)
  induction items generalizing items' with
  | nil =>
    cases items' with
    | nil => exact ⟨.nil, (List.cons.inj h).2⟩
    | cons item' items' =>
      have hfirst' : ∀ b, item' = some b → b.index < t.size := fun b hb => hitems' b (hb ▸ .head _)
      obtain ⟨c, rest, hback, hc⟩ := exists_itemBack_eq_cons ht hnames hfirst'
      rw [List.map_cons, listed_cons_append, hback] at h
      exact absurd hitem ((List.cons.inj h).1 ▸ hc)
  | cons item items ih =>
    have hfirst : ∀ a, item = some a → a.index < t.size ∧ t.Reads a := fun a ha =>
      hread a (ha ▸ .head _)
    rw [List.map_cons, listed_cons_append] at h
    cases items' with
    | nil =>
      obtain ⟨c, rest, hback, hc⟩ := exists_itemBack_eq_cons ht hnames fun a ha => (hfirst a ha).1
      rw [hback] at h
      exact absurd hitem ((List.cons.inj h).1 ▸ hc)
    | cons item' items' =>
      have hfirst' : ∀ b, item' = some b → b.index < t.size := fun b hb => hitems' b (hb ▸ .head _)
      rw [List.map_cons, listed_cons_append] at h
      cases items with
      | nil =>
        cases items' with
        | nil =>
          obtain ⟨hrel, hrest⟩ := read_item ht hnames hfirst hfirst' hitem hitem h
          exact ⟨.cons hrel .nil, (List.cons.inj hrest).2⟩
        | cons next' items' =>
          obtain ⟨-, hrest⟩ := read_item ht hnames hfirst hfirst' hitem (by decide) h
          exact absurd (List.cons.inj hrest).1 hcomma
      | cons next items =>
        cases items' with
        | nil =>
          obtain ⟨-, hrest⟩ := read_item ht hnames hfirst hfirst' (by decide) hitem h
          exact absurd (List.cons.inj hrest).1.symm hcomma
        | cons next' items' =>
          obtain ⟨hrel, hrest⟩ := read_item ht hnames hfirst hfirst' (by decide) (by decide) h
          obtain ⟨hrels, hrs⟩ := ih (fun a ha => hread a (.tail _ ha))
            (fun b hb => hitems' b (.tail _ hb)) (List.cons.inj hrest).2
          exact ⟨.cons hrel hrels, hrs⟩

omit ht hnames in
theorem Reads.counted {p q : TypeId} {m n : Nat} {c last : Char} {r s : List Char}
    (hread : t.Reads p) (hq : q.index < t.size) (hc : c ∈ ['[', '<'])
    (h : last :: (t.back p ++ 'x' :: (Nat.toDigits 10 m).reverse ++ [c]) ++ r =
      last :: (t.back q ++ 'x' :: (Nat.toDigits 10 n).reverse ++ [c]) ++ s) :
    t.Alike p q ∧ m = n ∧ r = s := by
  have hdigit : c.isDigit = false := by
    rcases List.mem_pair.1 hc with rfl | rfl <;> decide
  simp only [List.cons_append, List.append_assoc, List.cons.injEq, true_and, List.nil_append] at h
  obtain ⟨halike, hcount⟩ := hread q _ _ hq (.count m hc r) (.count n hc s) h
  exact ⟨halike, eq_of_count_eq hdigit hcount⟩

theorem reads {a : TypeId} (ha : a.index < t.size) : t.Reads a := by
  refine ht.induct ?_ a ha
  intro a ty hty ih b r s hb hr hs h
  obtain ⟨ty', hty'⟩ := exists_get? hb
  have hpart : ∀ part ∈ ty.shown, part.index < t.size := fun _ => ht.exists_shown hty
  have hpart' : ∀ part ∈ ty'.shown, part.index < t.size := fun _ => ht.exists_shown hty'
  suffices hlike : ty.Like t.Alike ty' ∧ r = s from ⟨.intro hty hty' hlike.1, hlike.2⟩
  have hends : ty.SameEnd ty' := Ty.sameEnd_of_last?_eq (last?_eq ht hnames hty hty' h)
  cases hends with
  | words hlast hlast' =>
    obtain ⟨run, rest, hback, hrun, hwordy⟩ := exists_wordy ht hnames hty hlast hr
    obtain ⟨run', rest', hback', hrun', hwordy'⟩ := exists_wordy ht hnames hty' hlast' hs
    obtain ⟨rfl, rfl⟩ := eq_of_append_eq hrun hrun' hwordy.isNameChar_rest hwordy'.isNameChar_rest
      (by rw [← hback, ← hback', h])
    exact hwordy.unique hwordy' rfl rfl
  | pointer p q =>
    rw [back_pointer ht hnames hty, back_pointer ht hnames hty'] at h
    obtain ⟨halike, hrs⟩ := ih p (.head _) q r s (hpart' q (.head _)) hr hs (List.cons.inj h).2
    exact ⟨.pointer halike, hrs⟩
  | function ret ret' params params' variadic variadic' =>
    rw [back_function ht hnames hty, back_function ht hnames hty'] at h
    simp only [List.cons_append, List.append_assoc, List.cons.injEq, true_and] at h
    obtain ⟨hitems, hret⟩ := read_items ht hnames
      (fun a ha => ⟨hpart a (.tail _ (mem_of_mem_itemsBack ha)),
        ih a (.tail _ (mem_of_mem_itemsBack ha))⟩)
      (fun b hb => hpart' b (.tail _ (mem_of_mem_itemsBack hb))) (by decide) h
    obtain ⟨rfl, hparams⟩ := of_itemsBack hitems
    obtain ⟨halike, hrs⟩ := ih ret (.head _) ret' r s (hpart' ret' (.head _)) hr hs hret
    exact ⟨.function halike hparams variadic, hrs⟩
  | anonymous fields fields' bodiless bodiless' =>
    rw [back_anonymous ht hnames hty, back_anonymous ht hnames hty'] at h
    simp only [List.cons_append, List.append_assoc, List.cons.injEq, true_and, List.nil_append] at h
    obtain ⟨hitems, hrs⟩ := read_items ht hnames
      (fun a ha => ⟨hpart a (mem_of_mem_itemsBack ha), ih a (mem_of_mem_itemsBack ha)⟩)
      (fun b hb => hpart' b (mem_of_mem_itemsBack hb)) (by decide) h
    exact ⟨.anonymous (of_itemsBack hitems).2 bodiless bodiless', hrs⟩
  | array p q length length' =>
    rw [back_array ht hnames hty, back_array ht hnames hty'] at h
    obtain ⟨halike, rfl, hrs⟩ := (ih p (.head _)).counted (hpart' q (.head _)) (by decide) h
    exact ⟨.array halike length, hrs⟩
  | vector p q length length' =>
    rw [back_vector ht hnames hty, back_vector ht hnames hty'] at h
    obtain ⟨halike, rfl, hrs⟩ := (ih p (.head _)).counted (hpart' q (.head _)) (by decide) h
    exact ⟨.vector halike length, hrs⟩

theorem normal_eq_of_alike {a b : TypeId} (h : t.Alike a b) : t.normal a = t.normal b := by
  have ha : a.index < t.size := by
    cases h with
    | intro ha hb h => exact lt_size_of_get? ha
  refine ht.induct (P := fun a => ∀ b, t.Alike a b → t.normal a = t.normal b) ?_ a ha b h
  intro a ty hty ih b h
  cases h with
  | @intro _ _ ty₁ ty' ha hb hlike =>
    obtain rfl : ty = ty₁ := Option.some.inj (hty.symm.trans ha)
    have hparts : ty.shown.map t.normal = ty'.shown.map t.normal :=
      map_eq_of_forall₂ hlike.shown ih
    rw [normal_eq ht hnames hty, normal_eq ht hnames hb, hlike.normalOf_eq, hparts]

end

/-- Two types have the same printed form, up to blanks and numbers, if and only if they have the
same structure up to the numbers in names. -/
theorem typeText_print_eq_iff {a b : TypeId} (ht : t.Valid) (hnames : t.PlainNames)
    (ha : a.index < t.size) (hb : b.index < t.size) :
    typeText (t.print a) = typeText (t.print b) ↔ t.Alike a b := by
  rw [typeText_print, typeText_print, String.ofList_inj]
  refine ⟨fun h => ?_, normal_eq_of_alike ht hnames⟩
  have hback : t.back a ++ [] = t.back b ++ [] := by rw [back, back, h]
  exact (reads ht hnames ha b [] [] hb .nothing .nothing hback).1

/-- Two structs with the same name but for a number, functions on pointers to them, and a function
that takes no further arguments. -/
def twins : TypeTable :=
  ⟨#[.struct (some "class.Node") [] true, .struct (some "class.Node.7") [] true, .void,
    .pointer 0, .pointer 1, .function 2 [3] true, .function 2 [4] true,
    .function 2 [4] false]⟩

theorem alike_twins : twins.Alike 5 6 := by
  have hname : bare "class.Node".toList = bare "class.Node.7".toList :=
    (bare_append_number "class.Node".toList ['7'] (by simp) (by simp)).symm
  have hclass : twins.Alike 0 1 := .intro rfl rfl (.named hname [] [] true true)
  have hpointer : twins.Alike 3 4 := .intro rfl rfl (.pointer hclass)
  have hvoid : twins.Alike 2 2 := .intro rfl rfl .void
  exact .intro rfl rfl (.function hvoid (.cons hpointer .nil) true)

theorem typeText_print_eq_iff_twins :
    (twins.Valid ∧ twins.PlainNames) ∧
      typeText (twins.print 5) = typeText (twins.print 6) ∧
      typeText (twins.print 6) ≠ typeText (twins.print 7) := by
  have hvalid : twins.Valid := by decide
  have hnames : twins.PlainNames := by decide +kernel
  refine ⟨⟨hvalid, hnames⟩, ?_, ?_⟩
  · exact (typeText_print_eq_iff hvalid hnames (by decide) (by decide)).2 alike_twins
  · intro h
    cases (typeText_print_eq_iff hvalid hnames (by decide) (by decide)).1 h with
    | intro ha hb hlike =>
      cases ha
      cases hb
      cases hlike

end TypeTable

end CallTargets
