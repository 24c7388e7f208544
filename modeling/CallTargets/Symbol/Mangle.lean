import CallTargets.Symbol.Shape
/-!
# Mangling

Functions of a program with their parameters, and the symbols that compilers give them. A
symbol spells a class by its path and any other type by letters for its parts. What it has spelled
once, it spells by a back-reference from then on: the paths and parts of paths of classes,
pointers, references, qualified types and function types, numbered in the order in which they
are completed.
-/

namespace CallTargets.Symbol

/-! ## Names -/

/-- The characters are those of an identifier: letters, digits and underscores, and no digit
at first. -/
def isIdentifier : List Char → Bool
  | [] => false
  | c :: cs => (c.isAlpha || c = '_') && cs.all fun c => c.isAlphanum || c = '_'

/-- An identifier that does not stand for an unnamed namespace. -/
structure Identifier where
  chars : List Char
  wellFormed : isIdentifier chars = true
  ordinary : Text.afterLead "_GLOBAL__N".toList chars = none
  deriving DecidableEq

def inIdentifier (c : Char) : Bool := c.isAlphanum || c = '_'

namespace Identifier

def text (x : Identifier) : String := String.ofList x.chars

def code (x : Identifier) : List Char := Nat.toDigits 10 x.chars.length ++ x.chars

theorem exists_chars_eq (x : Identifier) :
    ∃ c cs, x.chars = c :: cs ∧ (c.isAlpha || c = '_') = true ∧
      ∀ d ∈ cs, inIdentifier d = true := by
  have hwell := x.wellFormed
  cases hchars : x.chars with
  | nil =>
    rw [hchars] at hwell
    cases hwell
  | cons c cs =>
    rw [hchars, isIdentifier, Bool.and_eq_true, List.all_eq_true] at hwell
    exact ⟨c, cs, rfl, hwell.1, hwell.2⟩

theorem inIdentifier_of_mem (x : Identifier) {c : Char} (hc : c ∈ x.chars) :
    inIdentifier c = true := by
  obtain ⟨d, cs, hchars, hd, hcs⟩ := x.exists_chars_eq
  rw [hchars] at hc
  rcases List.mem_cons.1 hc with rfl | hc
  · simp only [inIdentifier, Char.isAlphanum, Bool.or_eq_true] at hd ⊢
    exact hd.imp_left .inl
  · exact hcs c hc

theorem notMem (x : Identifier) {c : Char} (hc : inIdentifier c = false) : c ∉ x.chars := by
  intro hmem
  rw [x.inIdentifier_of_mem hmem] at hc
  cases hc

end Identifier

inductive ScopedName where
  | top (x : Identifier)
  | within (scope : ScopedName) (x : Identifier)
  deriving DecidableEq

def ScopedName.text : ScopedName → String
  | top x => x.text
  | within scope x => scope.text ++ "::" ++ x.text

/-! ## Types -/

inductive Builtin where
  | void
  | wideChar
  | bool
  | char
  | signedChar
  | unsignedChar
  | short
  | unsignedShort
  | int
  | unsignedInt
  | long
  | unsignedLong
  | longLong
  | unsignedLongLong
  | int128
  | unsignedInt128
  | float
  | double
  | longDouble
  | float128
  | ellipsis
  | nullPointer
  | char32
  | char16
  | char8
  | auto
  | decltypeAuto
  | half
  | decimal32
  | decimal64
  | decimal128
  deriving DecidableEq

/-- The code of a type and the type in words. -/
def Builtin.spelling : Builtin → List Char × String
  | void => (['v'], "void")
  | wideChar => (['w'], "wchar_t")
  | bool => (['b'], "bool")
  | char => (['c'], "char")
  | signedChar => (['a'], "signed char")
  | unsignedChar => (['h'], "unsigned char")
  | short => (['s'], "short")
  | unsignedShort => (['t'], "unsigned short")
  | int => (['i'], "int")
  | unsignedInt => (['j'], "unsigned int")
  | long => (['l'], "long")
  | unsignedLong => (['m'], "unsigned long")
  | longLong => (['x'], "long long")
  | unsignedLongLong => (['y'], "unsigned long long")
  | int128 => (['n'], "__int128")
  | unsignedInt128 => (['o'], "unsigned __int128")
  | float => (['f'], "float")
  | double => (['d'], "double")
  | longDouble => (['e'], "long double")
  | float128 => (['g'], "__float128")
  | ellipsis => (['z'], "...")
  | nullPointer => (['D', 'n'], "std::nullptr_t")
  | char32 => (['D', 'i'], "char32_t")
  | char16 => (['D', 's'], "char16_t")
  | char8 => (['D', 'u'], "char8_t")
  | auto => (['D', 'a'], "auto")
  | decltypeAuto => (['D', 'c'], "decltype(auto)")
  | half => (['D', 'h'], "half")
  | decimal32 => (['D', 'f'], "decimal32")
  | decimal64 => (['D', 'd'], "decimal64")
  | decimal128 => (['D', 'e'], "decimal128")

structure Cv where
  restrict : Bool := false
  volatile : Bool := false
  const : Bool := false
  deriving DecidableEq

namespace Cv

def code (cv : Cv) : List Char :=
  (if cv.restrict then ['r'] else []) ++ (if cv.volatile then ['V'] else []) ++
    (if cv.const then ['K'] else [])

def qualifiers (cv : Cv) : List Qualifier :=
  (if cv.restrict then [.restrict] else []) ++ (if cv.volatile then [.volatile] else []) ++
    (if cv.const then [.const] else [])

end Cv

inductive Indirection where
  | pointer
  | lvalueRef
  | rvalueRef
  deriving DecidableEq

namespace Indirection

def letter : Indirection → Char
  | pointer => 'P'
  | lvalueRef => 'R'
  | rvalueRef => 'O'

def shape (inner : Shape) : Indirection → Shape
  | pointer => .pointer inner
  | lvalueRef => .lvalueRef inner
  | rvalueRef => .rvalueRef inner

end Indirection

inductive SourceType where
  | builtin (b : Builtin)
  | named (name : ScopedName)
  | indirect (kind : Indirection) (target : SourceType)
  | qualified (cv : Cv) (base : SourceType)
  | function (result : SourceType) (params : List SourceType)

namespace SourceType

/-- What holds of a type if it holds of its parts, holds of all types. -/
@[induction_eliminator]
theorem induct {P : SourceType → Prop} (builtin : ∀ b, P (builtin b))
    (named : ∀ name, P (named name))
    (indirect : ∀ kind target, P target → P (indirect kind target))
    (qualified : ∀ cv base, P base → P (qualified cv base))
    (function : ∀ result params, P result → (∀ t ∈ params, P t) → P (function result params))
    (t : SourceType) : P t :=
  @SourceType.rec P (fun ts => ∀ t ∈ ts, P t) builtin named indirect qualified function
    (fun _ h => absurd h List.not_mem_nil)
    (fun _ _ head tail _ h => (List.mem_cons.1 h).elim (fun h => h ▸ head) (tail _)) t

mutual

def same : SourceType → SourceType → Bool
  | builtin b, builtin b' => b = b'
  | named name, named name' => name = name'
  | indirect kind target, indirect kind' target' => kind = kind' && same target target'
  | qualified cv base, qualified cv' base' => cv = cv' && same base base'
  | function result params, function result' params' =>
    same result result' && sameAll params params'
  | _, _ => false

def sameAll : List SourceType → List SourceType → Bool
  | [], [] => true
  | t :: ts, t' :: ts' => same t t' && sameAll ts ts'
  | _, _ => false

end

theorem sameAll_iff {ts : List SourceType} (h : ∀ t ∈ ts, ∀ u, same t u = true ↔ t = u)
    (us : List SourceType) : sameAll ts us = true ↔ ts = us := by
  induction ts generalizing us with
  | nil => cases us <;> simp [sameAll]
  | cons t ts ih =>
    cases us with
    | nil => simp [sameAll]
    | cons u us =>
      have htail := ih (fun t ht => h t (List.mem_cons_of_mem _ ht)) us
      simp [sameAll, h t List.mem_cons_self u, htail]

theorem same_iff (t u : SourceType) : same t u = true ↔ t = u := by
  induction t generalizing u with
  | builtin b => cases u <;> simp [same]
  | named name => cases u <;> simp [same]
  | indirect kind target ih => cases u <;> simp [same, ih]
  | qualified cv base ih => cases u <;> simp [same, ih]
  | function result params ih ihs => cases u <;> simp [same, ih, sameAll_iff ihs]

instance : DecidableEq SourceType := fun t u => decidable_of_iff _ (same_iff t u)

def isPlain : SourceType → Bool
  | builtin _ | named _ | indirect _ _ => true
  | qualified _ _ | function _ _ => false

mutual

/-- Only plain types are qualified, each by one qualifier at least. -/
def isProper : SourceType → Bool
  | builtin _ | named _ => true
  | indirect _ target => target.isProper
  | qualified cv base => cv ≠ {} && base.isPlain && base.isProper
  | function result params => result.isProper && areProper params

def areProper : List SourceType → Bool
  | [] => true
  | t :: ts => t.isProper && areProper ts

end

mutual

/-- How many types stand around the innermost one. -/
def depth : SourceType → Nat
  | builtin _ | named _ => 0
  | indirect _ target => target.depth + 1
  | qualified _ base => base.depth + 1
  | function result params => max result.depth (depthAll params) + 1

def depthAll : List SourceType → Nat
  | [] => 0
  | t :: ts => max t.depth (depthAll ts)

end

mutual

/-- The type as symbols show it. A function without parameters has a lone `void` for them. -/
def shape : SourceType → Shape
  | builtin b => .name b.spelling.2
  | named name => .name name.text
  | indirect kind target => kind.shape target.shape
  | qualified cv base => .qualified base.shape cv.qualifiers
  | function result params =>
    .function result.shape (if params.isEmpty then [.name "void"] else shapes params) []

def shapes : List SourceType → List Shape
  | [] => []
  | t :: ts => t.shape :: shapes ts

end

end SourceType

/-! ## Back-references -/

def seqDigit (n : Nat) : Char :=
  if n < 10 then Char.ofNat ('0'.toNat + n) else Char.ofNat ('A'.toNat + (n - 10))

def seqDigits (n : Nat) : List Char :=
  if n < 36 then [seqDigit n] else seqDigits (n / 36) ++ [seqDigit (n % 36)]

def reference : Nat → List Char
  | 0 => ['S', '_']
  | n + 1 => 'S' :: seqDigits n ++ ['_']

/-- What back-references can point to, in the order of completion. -/
abbrev Dictionary := List SourceType

namespace Dictionary

/-- A type that has been completed before is spelled by a back-reference, any other one in full,
which completes it. -/
def orReference (d : Dictionary) (t : SourceType) (full : List Char × Dictionary) :
    List Char × Dictionary :=
  match d.idxOf? t with
  | some place => (reference place, d)
  | none => (full.1, full.2 ++ [t])

/-- Spells what stands before a component of a path. -/
def scope (d : Dictionary) : ScopedName → List Char × Dictionary
  | .top x => d.orReference (.named (.top x)) (x.code, d)
  | .within outer x =>
    let before := d.scope outer
    d.orReference (.named (.within outer x)) (before.1 ++ x.code, before.2)

def path (d : Dictionary) : ScopedName → List Char × Dictionary
  | .top x => (x.code, d)
  | .within outer x =>
    let before := d.scope outer
    ('N' :: before.1 ++ x.code ++ ['E'], before.2)

mutual

def type (d : Dictionary) : SourceType → List Char × Dictionary
  | .builtin b => (b.spelling.1, d)
  | .named name => d.orReference (.named name) (d.path name)
  | .indirect kind target =>
    let inner := d.type target
    d.orReference (.indirect kind target) (kind.letter :: inner.1, inner.2)
  | .qualified cv base =>
    let inner := d.type base
    d.orReference (.qualified cv base) (cv.code ++ inner.1, inner.2)
  | .function result params =>
    let first := d.type result
    let rest := if params.isEmpty then (['v'], first.2) else Dictionary.types first.2 params
    d.orReference (.function result params) ('F' :: first.1 ++ rest.1 ++ ['E'], rest.2)

def types (d : Dictionary) : List SourceType → List Char × Dictionary
  | [] => ([], d)
  | t :: ts =>
    let first := d.type t
    let rest := Dictionary.types first.2 ts
    (first.1 ++ rest.1, rest.2)

end

/-- Spells parameters; if there are none, a lone `void`. -/
def params (d : Dictionary) (ts : List SourceType) : List Char × Dictionary :=
  if ts.isEmpty then (['v'], d) else d.types ts

end Dictionary

/-! ## Functions -/

/-- A qualifier of the object that a method is called on. -/
inductive RefQualifier where
  | none
  | lvalue
  | rvalue
  deriving DecidableEq

namespace RefQualifier

def code : RefQualifier → List Char
  | none => []
  | lvalue => ['R']
  | rvalue => ['O']

def qualifiers : RefQualifier → List Qualifier
  | none => []
  | lvalue => [.lvalue]
  | rvalue => [.rvalue]

end RefQualifier

/-- The name of a function. Only a function inside a scope can be qualified. -/
inductive FunctionName where
  | free (x : Identifier)
  | member (scope : ScopedName) (x : Identifier) (cv : Cv) (ref : RefQualifier)

namespace FunctionName

def path : FunctionName → ScopedName
  | free x => .top x
  | member scope x _ _ => .within scope x

def qualifiers : FunctionName → List Qualifier
  | free _ => []
  | member _ _ cv ref => cv.qualifiers ++ ref.qualifiers

def code : FunctionName → List Char × Dictionary
  | free x => (x.code, [])
  | member scope x cv ref =>
    let before := Dictionary.scope [] scope
    ('N' :: cv.code ++ ref.code ++ before.1 ++ x.code ++ ['E'], before.2)

end FunctionName

structure Prototype where
  name : FunctionName
  params : List SourceType
  proper : SourceType.areProper params = true

namespace Prototype

def code (f : Prototype) : List Char := f.name.code.1 ++ (f.name.code.2.params f.params).1

def mangle (f : Prototype) : String := String.ofList ('_' :: 'Z' :: f.code)

def text (f : Prototype) : String :=
  f.name.path.text ++ "(" ++ Shape.renderParams (SourceType.shapes f.params) ++ ")" ++
    qualifierText f.name.qualifiers

end Prototype

end CallTargets.Symbol
