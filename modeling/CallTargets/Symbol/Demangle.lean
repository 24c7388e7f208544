import CallTargets.Symbol.Grammar
/-!
# Demangling

`demangle` gives the printed form of a mangled symbol. A suffix that compilers put
behind the symbol of a clone is kept in brackets. Reading a symbol may also end in a sum
that overflows (`overflows`); there is no printed form then, and analyses take the symbol
for one that is not mangled.
-/

namespace CallTargets.Symbol

def isMangled (symbol : String) : Bool := Text.startsWith symbol "_Z"

/-- A sum overflows before the symbol is rejected or read. -/
def overflows (symbol : String) : Bool :=
  (Text.afterLead "_Z".toList symbol.toList).any fun mangled =>
    (Level.of maxNesting).encoding.overflows { rest := mangled }

def demangle (symbol : String) : Option String := do
  let mangled ← Text.afterLead "_Z".toList symbol.toList
  let (text, cursor) ← (Level.of maxNesting).encoding.run { rest := mangled }
  match cursor.rest with
  | [] => return text
  | '.' :: suffix => return text ++ " [clone ." ++ String.ofList suffix ++ "]"
  | _ => none

/-- The printed form of a mangled symbol, or any other symbol itself. -/
def demangleOrSelf (symbol : String) : String := (demangle symbol).getD symbol

end CallTargets.Symbol
