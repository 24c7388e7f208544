import CallTargets.Symbol.Cursor
/-!
# The grammar of mangled symbols

The constructs of the grammar contain each other. A symbol may open at most
`maxNesting` of the nesting ones (types, names, encodings, template argument lists) at
a time, so the readers are defined level by level: `Level.next` reads one construct
with the readers of the level below for the constructs inside it, and on the ground
level nothing can be read.
-/

namespace CallTargets.Symbol

structure Name where
  text : String
  isTemplate : Bool := false
  /-- The last component is a constructor, a destructor or a conversion. Such a name
  has no return type. -/
  isSpecial : Bool := false
  quals : List Qualifier := []

structure Level (m : Type → Type := Scan) where
  type : m Shape
  name : m Name
  encoding : m String
  templateArgs : m (List Shape)

variable {m : Type → Type} [Reading m]

def Level.ground : Level m := ⟨Reading.fail, Reading.fail, Reading.fail, Reading.fail⟩

/-! ## Types -/

def builtin? : Char → Option String
  | 'v' => some "void"
  | 'w' => some "wchar_t"
  | 'b' => some "bool"
  | 'c' => some "char"
  | 'a' => some "signed char"
  | 'h' => some "unsigned char"
  | 's' => some "short"
  | 't' => some "unsigned short"
  | 'i' => some "int"
  | 'j' => some "unsigned int"
  | 'l' => some "long"
  | 'm' => some "unsigned long"
  | 'x' => some "long long"
  | 'y' => some "unsigned long long"
  | 'n' => some "__int128"
  | 'o' => some "unsigned __int128"
  | 'f' => some "float"
  | 'd' => some "double"
  | 'e' => some "long double"
  | 'g' => some "__float128"
  | 'z' => some "..."
  | _ => none

/-- The types of two letters, of which the first is `D`. -/
def builtinD? : Char → Option String
  | 'n' => some "std::nullptr_t"
  | 'i' => some "char32_t"
  | 's' => some "char16_t"
  | 'u' => some "char8_t"
  | 'a' => some "auto"
  | 'c' => some "decltype(auto)"
  | 'h' => some "half"
  | 'f' => some "decimal32"
  | 'd' => some "decimal64"
  | 'e' => some "decimal128"
  | _ => none

/-- A type with a code of its own and the length of that code. -/
def builtinAt? : List Char → Option (String × Nat)
  | 'D' :: c :: _ => (builtinD? c).map (·, 2)
  | c :: _ => (builtin? c).map (·, 1)
  | [] => none

open Scan

/-- A round of reading the parameters of a function type, with a reference qualifier before the
end. -/
def paramRound (l : Level m) (params : List Shape) :
    m (Round (List Shape) (List Shape × List Qualifier)) := do
  match ← rest with
  | 'E' :: _ =>
    skip 1
    return .finish (params.reverse, [])
  | 'R' :: 'E' :: _ =>
    skip 2
    return .finish (params.reverse, [.lvalue])
  | 'O' :: 'E' :: _ =>
    skip 2
    return .finish (params.reverse, [.rvalue])
  | _ => return .again ((← l.type) :: params)

def functionType (l : Level m) : m Shape := do
  expect 'F'
  let _ ← accept 'Y'
  let ret ← l.type
  let (params, quals) ← loop (paramRound l) []
  return .function ret params quals

/-- Puts qualifiers on a type. Those of a function type belong to the function. -/
def qualify (inner : Shape) (quals : List Qualifier) : Shape :=
  match inner with
  | .function ret params own => .function ret params (own ++ quals)
  | inner => .qualified inner quals

def memberPointer (member : Shape) (owner : String) : Shape :=
  match member with
  | .function ret params quals =>
    .name (ret.render ++ " (" ++ owner ++ "::*)(" ++ Shape.renderParams params ++ ")" ++
      qualifierText quals)
  | member => .name (member.render ++ " " ++ owner ++ "::*")

/-- A type that has no code of its own, and whether back-references can point to it. -/
def compoundType (l : Level m) : m (Shape × Bool) := do
  match ← rest with
  | 'P' :: _ =>
    skip 1
    return (.pointer (← l.type), true)
  | 'R' :: _ =>
    skip 1
    return (.lvalueRef (← l.type), true)
  | 'O' :: _ =>
    skip 1
    return (.rvalueRef (← l.type), true)
  | 'F' :: _ => return (← functionType l, true)
  | 'A' :: _ =>
    skip 1
    let length ← if (← peek) = some '_' then pure "" else toString <$> number
    expect '_'
    return (.array length (← l.type), true)
  | 'M' :: _ =>
    skip 1
    let owner ← l.type
    let member ← l.type
    return (memberPointer member owner.render, true)
  | 'T' :: _ => return (← templateParam, true)
  | 'D' :: 'p' :: _ =>
    skip 2
    return (.pack (← l.type), true)
  | 'S' :: 't' :: _ => return (.name (← l.name).text, true)
  | 'S' :: _ =>
    let shape ← backReference
    if (← peek) = some 'I' then
      let args ← l.templateArgs
      return (.name (shape.render ++ Shape.renderArgs args), true)
    else return (shape, false)
  | 'u' :: _ =>
    skip 1
    return (.name (← identifier), true)
  | c :: _ =>
    if c = 'r' || c = 'V' || c = 'K' then
      let quals ← qualifiers
      let inner ← l.type
      return (qualify inner quals, true)
    else if c = 'N' || c = 'Z' || c.isDigit then return (.name (← l.name).text, true)
    else fail
  | [] => fail

def readType (l : Level m) : m Shape := do
  match builtinAt? (← rest) with
  | some (name, length) =>
    skip length
    return .name name
  | none =>
    let (shape, isNamed) ← compoundType l
    if isNamed then remember shape
    return shape

/-! ## Template arguments -/

/-- A literal as it is printed: the common integer types by their suffix, any other type
by a cast. -/
def literalText (type : String) (value : Int) : String :=
  match type with
  | "bool" => if value = 0 then "false" else "true"
  | "int" => toString value
  | "unsigned int" => toString value ++ "u"
  | "long" => toString value ++ "l"
  | "unsigned long" => toString value ++ "ul"
  | type => "(" ++ type ++ ")" ++ toString value

/-- A literal: the address of an entity, or a number of some type. -/
def literal (l : Level m) : m Shape := do
  expect 'L'
  match ← rest with
  | '_' :: 'Z' :: _ =>
    skip 2
    let entity ← l.encoding
    expect 'E'
    return .name entity
  | _ =>
    let type ← l.type
    let value ← number
    expect 'E'
    return .name (literalText type.render value)

/-- A template argument. Packs of arguments may contain packs, `packs` deep at most. -/
def templateArg (l : Level m) : (packs : Nat) → m Shape
  | 0 => do if (← peek) = none then fail else stuck
  | packs + 1 => do
    match ← peek with
    | some 'L' => literal l
    | some 'J' =>
      skip 1
      let args ← untilEnd (templateArg l packs)
      return .name (Shape.renderAll args)
    | some 'X' => fail
    | some _ => l.type
    | none => fail

/-- A template argument list. The outermost one is what template parameters refer to from
then on. -/
def readTemplateArgs (l : Level m) : m (List Shape) := do
  expect 'I'
  let outer ← note .inArgs
  note .openArgs
  let args ← untilEnd (do templateArg l (← rest).length)
  note (.closeArgs outer args)
  return args

/-! ## Names -/

def operators : List (String × String) :=
  [("nw", "new"), ("na", "new[]"), ("dl", "delete"), ("da", "delete[]"), ("ps", "+"), ("pl", "+"),
    ("ng", "-"), ("mi", "-"), ("ad", "&"), ("an", "&"), ("de", "*"), ("ml", "*"), ("co", "~"),
    ("dv", "/"), ("rm", "%"), ("or", "|"), ("eo", "^"), ("aS", "="), ("pL", "+="), ("mI", "-="),
    ("mL", "*="), ("dV", "/="), ("rM", "%="), ("aN", "&="), ("oR", "|="), ("eO", "^="),
    ("ls", "<<"), ("rs", ">>"), ("lS", "<<="), ("rS", ">>="), ("eq", "=="), ("ne", "!="),
    ("lt", "<"), ("gt", ">"), ("le", "<="), ("ge", ">="), ("ss", "<=>"), ("nt", "!"), ("aa", "&&"),
    ("oo", "||"), ("pp", "++"), ("mm", "--"), ("cm", ","), ("pm", "->*"), ("pt", "->"),
    ("cl", "()"), ("ix", "[]"), ("qu", "?")]

def operator? (code : List Char) : Option String :=
  (operators.find? fun e => e.1.toList = code).map Prod.snd

/-- The name of an operator, set apart from the keyword if it is a word. -/
def operatorText (op : String) : String :=
  if op.toList.head?.any Char.isAlpha then "operator " ++ op else "operator" ++ op

/-- The name of an operator, a conversion or a literal suffix, and whether it is a
conversion. -/
def operatorName (l : Level m) : m (String × Bool) := do
  match ← rest with
  | 'c' :: 'v' :: _ =>
    skip 2
    return ("operator " ++ (← l.type).render, true)
  | 'l' :: 'i' :: _ =>
    skip 2
    return ("operator\"\" " ++ (← identifier), false)
  | c :: d :: _ =>
    match operator? [c, d] with
    | some op =>
      skip 2
      return (operatorText op, false)
    | none => fail
  | _ => fail

def withoutArgs (name : String) : String :=
  String.ofList (name.toList.takeWhile (· ≠ '<'))

/-- One component of a name, and whether it is a constructor, a destructor or a
conversion. Constructors and destructors repeat the component before them, `last`. A
mark of internal linkage before a component says nothing about its name. -/
def component (l : Level m) (last : String) : m (String × Bool) := do
  let _ ← span (· = 'L')
  match ← rest with
  | 'C' :: _ =>
    skip 1
    let inherits ← accept 'I'
    match ← peek with
    | some c => if '1' ≤ c && c ≤ '5' then skip 1 else fail
    | none => fail
    if inherits then
      let _ ← l.type
    return (withoutArgs last, true)
  | 'D' :: c :: _ =>
    if c = '0' || c = '1' || c = '2' || c = '4' || c = '5' then
      skip 2
      return ("~" ++ withoutArgs last, true)
    else fail
  | 'U' :: 't' :: _ =>
    skip 2
    let n ← ordinal
    return ("\x7bunnamed type#" ++ toString n ++ "\x7d", false)
  | 'U' :: 'l' :: _ =>
    skip 2
    let params ← untilEnd l.type
    let n ← ordinal
    return ("\x7blambda(" ++ Shape.renderParams params ++ ")#" ++ toString n ++ "\x7d", false)
  | c :: _ => if c.isDigit then return (← identifier, false) else operatorName l
  | [] => fail

def lastPart (text : String) : String :=
  String.ofList (go text.toList.reverse).reverse
where
  /-- The part before the first `::` of a reversed text. -/
  go : List Char → List Char
    | ':' :: ':' :: _ => []
    | c :: cs => c :: go cs
    | [] => []

/-- How far a nested name has been read. -/
structure Path where
  text : String := ""
  /-- The last component that is neither constructor, destructor nor conversion. -/
  last : String := ""
  isTemplate : Bool := false
  isSpecial : Bool := false

/-- One more component, template argument list or template parameter. -/
def pathStep (l : Level m) (path : Path) : m Path := do
  match ← peek with
  | some 'I' =>
    if path.text.isEmpty then fail
    let args ← l.templateArgs
    return { path with text := path.text ++ Shape.renderArgs args, isTemplate := true }
  | some 'T' => return { path with text := (← templateParam).render }
  | _ =>
    let (text, special) ← component l path.last
    return { text := if path.text.isEmpty then text else path.text ++ "::" ++ text
             last := if special then path.last else text
             isTemplate := false
             isSpecial := special }

/-- A round of reading a nested name. What each component completes can be referred to later,
unless it completes the whole name. -/
def nestedRound (l : Level m) (path : Path) : m (Round Path Path) := do
  if ← accept 'E' then return .finish path
  match ← rest with
  | 'S' :: 't' :: _ =>
    skip 2
    return .again { path with text := "std" }
  | 'S' :: _ =>
    let text := (← backReference).render
    return .again { path with text, last := lastPart text }
  | _ =>
    let path ← pathStep l path
    if (← peek) ≠ some 'E' then remember (.name path.text)
    return .again path

def nestedName (l : Level m) : m Name := do
  expect 'N'
  let quals ← qualifiers
  let isLvalue ← accept 'R'
  let isRvalue ← if isLvalue then pure false else accept 'O'
  let refs := if isLvalue then [.lvalue] else if isRvalue then [.rvalue] else []
  let path ← loop (nestedRound l) {}
  return { text := path.text, isTemplate := path.isTemplate, isSpecial := path.isSpecial,
           quals := quals ++ refs }

def localName (l : Level m) : m Name := do
  expect 'Z'
  let outer ← l.encoding
  expect 'E'
  if ← accept 's' then
    discriminator
    return { text := outer ++ "::string literal" }
  else
    let inner ← l.name
    discriminator
    return { inner with text := outer ++ "::" ++ inner.text }

/-- A name outside all classes, with its template arguments if it has any. -/
def unscopedName (l : Level m) (scope : String) : m Name := do
  let (text, isSpecial) ← component l ""
  let text := scope ++ text
  if (← peek) = some 'I' then
    remember (.name text)
    let args ← l.templateArgs
    return { text := text ++ Shape.renderArgs args, isTemplate := true, isSpecial }
  else return { text, isSpecial }

def readName (l : Level m) : m Name := do
  match ← rest with
  | 'N' :: _ => nestedName l
  | 'Z' :: _ => localName l
  | 'S' :: 't' :: _ =>
    skip 2
    unscopedName l "std::"
  | 'S' :: _ =>
    let shape ← backReference
    let args ← l.templateArgs
    return { text := shape.render ++ Shape.renderArgs args, isTemplate := true }
  | _ => unscopedName l ""

/-! ## Encodings -/

def typeEntity? : List Char → Option String
  | ['T', 'V'] => some "vtable for "
  | ['T', 'T'] => some "VTT for "
  | ['T', 'I'] => some "typeinfo for "
  | ['T', 'S'] => some "typeinfo name for "
  | _ => none

def nameEntity? : List Char → Option String
  | ['G', 'V'] => some "guard variable for "
  | ['T', 'W'] => some "TLS wrapper function for "
  | ['T', 'H'] => some "TLS init function for "
  | _ => none

/-- A special entity: the tables and descriptions of a type, the helpers of a variable, or
a thunk. -/
def specialEntity (l : Level m) : m String := do
  match ← rest with
  | 'T' :: 'h' :: _ =>
    skip 1
    callOffset
    return "non-virtual thunk to " ++ (← l.encoding)
  | 'T' :: 'v' :: _ =>
    skip 1
    callOffset
    return "virtual thunk to " ++ (← l.encoding)
  | 'T' :: 'c' :: _ =>
    skip 2
    callOffset
    callOffset
    return "covariant return thunk to " ++ (← l.encoding)
  | c :: d :: _ =>
    match typeEntity? [c, d], nameEntity? [c, d] with
    | some label, _ =>
      skip 2
      return label ++ (← l.type).render
    | none, some label =>
      skip 2
      return label ++ (← l.name).text
    | none, none => fail
  | _ => fail

/-- An encoding ends with the symbol, at the end of the construct around it, or at a
suffix. -/
def atEnd : List Char → Bool
  | [] => true
  | c :: _ => c = 'E' || c = '.'

def argumentRound (l : Level m) (params : List Shape) : m (Round (List Shape) (List Shape)) := do
  if atEnd (← rest) then return .finish params.reverse
  return .again ((← l.type) :: params)

/-- An encoding: a special entity, or a name with the types of a function behind it. -/
def readEncoding (l : Level m) : m String := do
  match ← peek with
  | none => fail
  | some c =>
    if c = 'T' || c = 'G' then specialEntity l
    else
      let name ← l.name
      if atEnd (← rest) then return name.text
      let ret ← if name.isTemplate && !name.isSpecial then (·.render ++ " ") <$> l.type else pure ""
      let params ← loop (argumentRound l) []
      return ret ++ name.text ++ "(" ++ Shape.renderParams params ++ ")" ++
        qualifierText name.quals

/-! ## Levels -/

/-- One level up: each construct is read with the readers of `l` inside. -/
def Level.next (l : Level m) : Level m where
  type := readType l
  name := readName l
  encoding := readEncoding l
  templateArgs := readTemplateArgs l

/-- The readers that allow so many open constructs. -/
def Level.of : (nesting : Nat) → Level m
  | 0 => ground
  | n + 1 => (Level.of n).next

/-- How many constructs a symbol may have open at a time. -/
def maxNesting : Nat := 256

end CallTargets.Symbol
