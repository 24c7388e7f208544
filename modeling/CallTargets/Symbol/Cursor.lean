import CallTargets.Symbol.Shape
/-!
# Reading a symbol from the left

A `Cursor` is a place in a mangled symbol together with what the symbol has named so
far: the components a back-reference may point to, and the template arguments that
template parameters stand for. A reader of type `Scan α` moves the cursor and yields
an `α`, or rejects the symbol; a sum that leaves its 64 bits ends it without either.
Readers are made of a few moves, and are defined for everything that has these
(`Reading`).
-/

namespace CallTargets.Symbol

/-- A place in a symbol and what has been named before it. -/
structure Cursor where
  rest : List Char
  /-- What the back-references `S_`, `S0_`, … stand for. -/
  named : Array Shape := #[]
  /-- What the template parameters `T_`, `T0_`, … stand for. -/
  args : List Shape := []
  /-- The cursor is inside a template argument list. -/
  inArgs : Bool := false

@[ext]
structure Scan (α : Type) where
  /-- What is read from a place, and the place behind it. -/
  run : Cursor → Option (α × Cursor)
  /-- From this place a sum overflows. Nothing is read then. -/
  overflows : Cursor → Bool := fun _ => false

instance : Monad Scan where
  pure a := { run := fun c => some (a, c) }
  bind x f :=
    { run := fun c => x.run c >>= fun r => (f r.1).run r.2
      overflows := fun c => x.overflows c || (x.run c).any fun r => (f r.1).overflows r.2 }

/-- What readers do with what has been named: they look at it, or change it. -/
inductive Note : Type → Type 1 where
  | named (place : Nat) : Note Shape
  | arg (place : Nat) : Note Shape
  | remember (shape : Shape) : Note Unit
  | inArgs : Note Bool
  | openArgs : Note Unit
  /-- The arguments of an outermost list are those that template parameters stand for. -/
  | closeArgs (outer : Bool) (args : List Shape) : Note Unit

class Reading (m : Type → Type) extends Monad m where
  fail {α : Type} : m α
  /-- A sum does not fit into its 64 bits. -/
  overflow {α : Type} : m α
  /-- A loop has run out of rounds. -/
  stuck {α : Type} : m α
  rest : m (List Char)
  skip (count : Nat) : m Unit
  take (bytes : Nat) : m (List Char)
  note {α : Type} : Note α → m α

namespace Cursor

/-- The cursor before a text. -/
def facing (c : Cursor) (rest : List Char) : Cursor := { c with rest }

def answer? (c : Cursor) {α : Type} : Note α → Option (α × Cursor)
  | .named place => c.named[place]?.map (·, c)
  | .arg place => c.args[place]?.map (·, c)
  | .remember shape => some ((), { c with named := c.named.push shape })
  | .inArgs => some (c.inArgs, c)
  | .openArgs => some ((), { c with inArgs := true })
  | .closeArgs outer args =>
    some ((), { c with inArgs := outer, args := if outer then c.args else args })

end Cursor

@[default_instance]
instance : Reading Scan where
  fail := { run := fun _ => none }
  overflow := { run := fun _ => none, overflows := fun _ => true }
  stuck := { run := fun _ => none }
  rest := { run := fun c => some (c.rest, c) }
  skip count := { run := fun c => some ((), { c with rest := c.rest.drop count }) }
  take bytes := { run := fun c => (Text.takeBytes bytes c.rest).map fun r => (r.1, c.facing r.2) }
  note n := { run := fun c => c.answer? n }

namespace Scan

export Reading (fail overflow stuck rest skip take note)

variable {m : Type → Type} [Reading m] {σ β α : Type}

def peek : m (Option Char) := return (← rest).head?

def accept (c : Char) : m Bool := do
  if (← peek) = some c then
    skip 1
    return true
  else return false

def expect (c : Char) : m Unit := do
  if ← accept c then return () else fail

inductive Round (σ β : Type) where
  | again (state : σ)
  | finish (result : β)

/-- Repeats a round until it finishes, so many times at most. -/
def repeatUpTo (round : σ → m (Round σ β)) : (rounds : Nat) → σ → m β
  | 0, _ => stuck
  | n + 1, s => do
    match ← round s with
    | .again s => repeatUpTo round n s
    | .finish b => return b

/-- Repeats a round until it finishes. Every round that goes on reads a character, so
there are no more rounds than characters, and one that finishes. -/
def loop (round : σ → m (Round σ β)) (s : σ) : m β := do
  repeatUpTo round ((← rest).length + 1) s

/-- A round of reading items up to the letter `E`. -/
def endRound (item : m α) (items : List α) : m (Round (List α) (List α)) := do
  if ← accept 'E' then return .finish items.reverse
  if (← peek) = none then fail
  return .again ((← item) :: items)

/-- Items up to the letter `E`, which is passed over. -/
def untilEnd (item : m α) : m (List α) := loop (endRound item) []

def remember (shape : Shape) : m Unit :=
  note (.remember shape)

def span (p : Char → Bool) : m (List Char) := do
  let taken := (← rest).takeWhile p
  skip taken.length
  return taken

/-- A decimal numeral, negative behind the letter `n`. It has to fit into 64 bits with
a sign. -/
def number : m Int := do
  let negative ← accept 'n'
  let digits ← span Char.isDigit
  let value := Text.decimal digits
  if digits.isEmpty || value ≥ Nat.pow 2 63 then fail
  return if negative then -value else value

def skipNumber : m Unit := do
  let _ ← accept 'n'
  let _ ← span Char.isDigit

/-- An identifier behind its length in bytes. Compilers name the unnamed namespace by
identifiers of their own. -/
def identifier : m String := do
  let length ← number
  if length < 0 then fail
  let name ← take length.toNat
  return if (Text.afterLead "_GLOBAL__N".toList name).isSome then "(anonymous namespace)"
    else String.ofList name

/-- The digits of a back-reference: base 36 with capital letters. -/
def seqDigit? (c : Char) : Option Nat :=
  if c.isDigit then some (c.toNat - '0'.toNat)
  else if c.isUpper then some (c.toNat - 'A'.toNat + 10)
  else none

def seqValue (digits : List Char) : Nat :=
  (digits.filterMap seqDigit?).foldl (fun n d => 36 * n + d) 0

/-- The place behind its digits, in 64 bits. It is computed before the end of the digits is
passed over. -/
def seqPlace (digits : List Char) : m Nat := do
  if seqValue digits ≥ Nat.pow 2 64 then fail
  if (← peek).any (· ≠ '_') then fail
  if seqValue digits + 1 ≥ Nat.pow 2 64 then overflow
  expect '_'
  return seqValue digits + 1

/-- The place a back-reference points to: `_` is the first, `0_` the second and so on. -/
def seqId : m Nat := do
  if ← accept '_' then return 0
  seqPlace (← span fun c => (seqDigit? c).isSome)

def libraryClass? : Char → Option String
  | 'a' => some "std::allocator"
  | 'b' => some "std::basic_string"
  | 's' => some "std::string"
  | 'i' => some "std::istream"
  | 'o' => some "std::ostream"
  | 'd' => some "std::iostream"
  | _ => none

def backReference : m Shape := do
  expect 'S'
  match (← peek) with
  | none => fail
  | some c =>
    match libraryClass? c with
    | some name =>
      skip 1
      return .name name
    | none => note (.named (← seqId))

/-- A template parameter, which stands for one of the arguments in force. -/
def templateParam : m Shape := do
  expect 'T'
  if ← accept '_' then note (.arg 0)
  else
    let n ← number
    if n < 0 then fail
    expect '_'
    note (.arg (n.toNat + 1))

/-- The type qualifiers, in the order in which symbols give them. -/
def qualifiers : m (List Qualifier) := do
  let restrict ← accept 'r'
  let volatile ← accept 'V'
  let const ← accept 'K'
  return (if restrict then [.restrict] else []) ++ (if volatile then [.volatile] else []) ++
    (if const then [.const] else [])

/-- The running number of an unnamed entity: `_` is the first, `0_` the second and so on,
in 64 bits with a sign. -/
def ordinal : m Int := do
  if ← accept '_' then return 1
  let n ← number
  if n + 2 ≥ Nat.pow 2 63 then overflow
  expect '_'
  return n + 2

/-- Passes over the number that tells entities of one name in one function apart. -/
def discriminator : m Unit := do
  if ← accept '_' then
    if ← accept '_' then
      skipNumber
      let _ ← accept '_'
    else skipNumber

def callOffset : m Unit := do
  if ← accept 'h' then
    let _ ← number
    expect '_'
  else
    expect 'v'
    let _ ← number
    expect '_'
    let _ ← number
    expect '_'

end Scan

end CallTargets.Symbol
