import CallTargets.Text.Basic
/-!
# The tokens of JSON text

`Token.scan` cuts a text into tokens. It is strict: only the four blanks of the
standard may stand between tokens, strings hold no raw control characters, and
numerals have no leading zeros.
-/

namespace CallTargets.Json

inductive Token where
  | openArr
  | closeArr
  | openObj
  | closeObj
  | comma
  | colon
  | null
  | bool (b : Bool)
  | int (n : Int)
  | real (literal : String)
  | str (text : Option String)
  deriving DecidableEq, Repr

namespace Token

def isBlank (c : Char) : Bool := c = ' ' || c = '\n' || c = '\t' || c = '\r'

/-! ## Strings -/

def hexDigit? (c : Char) : Option Nat :=
  if c.isDigit then some (c.toNat - '0'.toNat)
  else if 'a' ≤ c && c ≤ 'f' then some (c.toNat - 'a'.toNat + 10)
  else if 'A' ≤ c && c ≤ 'F' then some (c.toNat - 'A'.toNat + 10)
  else none

def hex4? (a b c d : Char) : Option Nat := do
  return (((← hexDigit? a) * 16 + (← hexDigit? b)) * 16 + (← hexDigit? c)) * 16 + (← hexDigit? d)

def escaped? : Char → Option Char
  | '"' => some '"'
  | '\\' => some '\\'
  | '/' => some '/'
  | 'b' => some '\x08'
  | 'f' => some '\x0c'
  | 'n' => some '\n'
  | 'r' => some '\r'
  | 't' => some '\t'
  | _ => none

/-- The code units of a string up to its closing quote, and what follows. -/
def stringUnits : List Char → Option (List Nat × List Char)
  | [] => none
  | '"' :: rest => some ([], rest)
  | '\\' :: 'u' :: a :: b :: c :: d :: rest => do
    let unit ← hex4? a b c d
    let (units, rest) ← stringUnits rest
    return (unit :: units, rest)
  | '\\' :: e :: rest => do
    let c ← escaped? e
    let (units, rest) ← stringUnits rest
    return (c.toNat :: units, rest)
  | c :: rest =>
    if c.toNat < 0x20 || c = '\\' then none
    else do
      let (units, rest) ← stringUnits rest
      return (c.toNat :: units, rest)

/-- The unit is the first half of a surrogate pair. -/
def isHigh (unit : Nat) : Bool := 0xd800 ≤ unit && unit < 0xdc00

/-- The unit is the second half of a surrogate pair. -/
def isLow (unit : Nat) : Bool := 0xdc00 ≤ unit && unit < 0xe000

/-- The characters of code units; none if a half of a surrogate pair stands alone. -/
def unitChars : List Nat → Option (List Char)
  | [] => some []
  | h :: l :: units =>
    if isHigh h then
      if isLow l then
        (unitChars units).map (Char.ofNat (0x10000 + (h - 0xd800) * 0x400 + (l - 0xdc00)) :: ·)
      else none
    else if isLow h then none
    else (unitChars (l :: units)).map (Char.ofNat h :: ·)
  | [u] => if isHigh u || isLow u then none else some [Char.ofNat u]

/-! ## Numbers -/

def digits? (text : List Char) : Option (List Char × List Char) :=
  match text.takeWhile Char.isDigit with
  | [] => none
  | ds => some (ds, text.dropWhile Char.isDigit)

/-- The whole part of a numeral: no zero in front of other digits. -/
def whole? : List Char → Option (List Char × List Char)
  | '0' :: rest => some (['0'], rest)
  | text => digits? text

def fraction? : List Char → Option (List Char × List Char)
  | '.' :: rest => (digits? rest).map fun (ds, rest) => ('.' :: ds, rest)
  | text => some ([], text)

def exponentAfter (mark : Char) : List Char → Option (List Char × List Char)
  | '+' :: rest => (digits? rest).map fun (ds, rest) => (mark :: '+' :: ds, rest)
  | '-' :: rest => (digits? rest).map fun (ds, rest) => (mark :: '-' :: ds, rest)
  | rest => (digits? rest).map fun (ds, rest) => (mark :: ds, rest)

def exponent? : List Char → Option (List Char × List Char)
  | 'e' :: rest => exponentAfter 'e' rest
  | 'E' :: rest => exponentAfter 'E' rest
  | text => some ([], text)

def number? (negative : Bool) (text : List Char) : Option (Token × List Char) := do
  let (whole, rest) ← whole? text
  let (fraction, rest) ← fraction? rest
  let (exponent, rest) ← exponent? rest
  let value := Text.decimal whole
  let token :=
    if fraction.isEmpty && exponent.isEmpty && !(negative && value = 0) then
      .int (if negative then -value else value)
    else
      .real (String.ofList ((if negative then ['-'] else []) ++ whole ++ fraction ++ exponent))
  return (token, rest)

/-! ## Tokens -/

/-- One token at the front of a text that does not start with a blank, and what follows. -/
def next? : List Char → Option (Token × List Char)
  | '[' :: rest => some (.openArr, rest)
  | ']' :: rest => some (.closeArr, rest)
  | '\x7b' :: rest => some (.openObj, rest)
  | '\x7d' :: rest => some (.closeObj, rest)
  | ',' :: rest => some (.comma, rest)
  | ':' :: rest => some (.colon, rest)
  | 'n' :: 'u' :: 'l' :: 'l' :: rest => some (.null, rest)
  | 't' :: 'r' :: 'u' :: 'e' :: rest => some (.bool true, rest)
  | 'f' :: 'a' :: 'l' :: 's' :: 'e' :: rest => some (.bool false, rest)
  | '"' :: rest => (stringUnits rest).map fun (units, rest) =>
      (.str ((unitChars units).map String.ofList), rest)
  | '-' :: rest => number? true rest
  | text => number? false text

def scanUpTo : (count : Nat) → List Char → Option (List Token)
  | count, text =>
    match text.dropWhile isBlank with
    | [] => some []
    | c :: rest =>
      match count with
      | 0 => none
      | count + 1 => do
        let (token, rest) ← next? (c :: rest)
        let tokens ← scanUpTo count rest
        return token :: tokens

def scan (text : List Char) : Option (List Token) := scanUpTo text.length text

end Token

end CallTargets.Json
