import CallTargets.Json.Basic
/-!
# Writing JSON text

The text of a value has no blanks. Strings escape the quote, the backslash and control
characters, and nothing else.
-/

namespace CallTargets.Json

def hexDigit (n : Nat) : Char := if n < 10 then Char.ofNat (48 + n) else Char.ofNat (87 + n)

def charText (c : Char) : List Char :=
  match c with
  | '"' => ['\\', '"']
  | '\\' => ['\\', '\\']
  | '\n' => ['\\', 'n']
  | '\r' => ['\\', 'r']
  | '\t' => ['\\', 't']
  | '\x08' => ['\\', 'b']
  | '\x0c' => ['\\', 'f']
  | c =>
    if c.toNat < 0x20 then ['\\', 'u', '0', '0', hexDigit (c.toNat / 16), hexDigit (c.toNat % 16)]
    else [c]

/-- A string in front of a text. What stands for no text is written as an unpaired
surrogate. -/
def writeString : Option String → List Char → List Char
  | some s, rest => '"' :: s.toList.foldr (fun c rest => charText c ++ rest) ('"' :: rest)
  | none, rest => "\"\\ud800\"".toList ++ rest

mutual

def write : Json → List Char → List Char
  | .null, rest => "null".toList ++ rest
  | .bool b, rest => (if b then "true" else "false").toList ++ rest
  | .int n, rest => (toString n).toList ++ rest
  | .real literal, rest => literal.toList ++ rest
  | .str s, rest => writeString s rest
  | .arr items, rest => '[' :: writeItems items (']' :: rest)
  | .obj fields, rest => '\x7b' :: writeFields fields ('\x7d' :: rest)

def writeItems : List Json → List Char → List Char
  | [], rest => rest
  | [v], rest => write v rest
  | v :: vs, rest => write v (',' :: writeItems vs rest)

def writeFields : List (Option String × Json) → List Char → List Char
  | [], rest => rest
  | [(k, v)], rest => writeString k (':' :: write v rest)
  | (k, v) :: fs, rest => writeString k (':' :: write v (',' :: writeFields fs rest))

end

def render (value : Json) : String := String.ofList (write value [])

end CallTargets.Json
