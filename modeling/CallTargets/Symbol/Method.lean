import CallTargets.Symbol.Demangle
/-!
# Class and method of a printed symbol

The class hierarchy is recovered from printed symbols: the class a method belongs to,
the name of the method, whether it is a constructor or a destructor, the target of a
thunk, and the class of a vtable.

A scope separator or a parameter list counts only outside angle brackets, which are
counted without regard to what they belong to.
-/

namespace CallTargets.Symbol

/-- The function that fills the slots of pure virtual methods. -/
def pureVirtual : String := "__cxa_pure_virtual"

/-- How a thunk finds the offset it adds to the object's address. -/
inductive ThunkKind where
  /-- From the vtable. -/
  | virtual
  /-- The offset is fixed. -/
  | nonVirtual
  deriving DecidableEq, Repr

def angleAfter (angle : Int) (c : Char) : Int :=
  if c = '<' then angle + 1 else if c = '>' then angle - 1 else angle

/-- The part of a printed function before its parameter list. The parentheses of the call
operator are part of its name. `before` holds what was read, reversed. -/
def beforeParams (before : List Char) (angle : Int) : List Char → List Char
  | [] => before.reverse
  | '(' :: rest =>
    if angle = 0 then
      match rest with
      | ')' :: rest =>
        if (Text.afterLead "operator".toList.reverse before).isSome then
          beforeParams (')' :: '(' :: before) angle rest
        else before.reverse
      | _ => before.reverse
    else beforeParams ('(' :: before) angle rest
  | c :: rest => beforeParams (c :: before) (angleAfter angle c) rest

/-- The parts before and after the last `::` outside angle brackets. `before` holds what
was read, reversed, and `found` the last such place so far. -/
def splitScope (before : List Char) (angle : Int) (found : Option (List Char × List Char)) :
    List Char → Option (List Char × List Char)
  | [] => found
  | ':' :: ':' :: rest =>
    if angle = 0 then
      splitScope (':' :: ':' :: before) angle (some (before.reverse, rest)) rest
    else splitScope (':' :: before) angle found (':' :: rest)
  | c :: rest => splitScope (c :: before) (angleAfter angle c) found rest

/-- The parts of a printed name before and after its last scope separator. -/
def scopeParts (name : String) : Option (String × String) :=
  (splitScope [] 0 none name.toList).map fun (outer, last) =>
    (String.ofList outer, String.ofList last)

def withoutScope (name : String) : String :=
  match scopeParts name with
  | some (_, last) => last
  | none => name

def hasArgs (name : String) : Bool := name.toList.contains '<'

structure Method where
  /-- The class or namespace, empty for a free function. -/
  owner : String
  /-- The name of the function, without parameters. -/
  name : String
  thunk : Option ThunkKind
  deriving DecidableEq, Repr

namespace Method

/-- The label that a printed function begins with, if it is a thunk, and the rest. -/
def labelled (text : String) : Option ThunkKind × String :=
  match Text.dropLead? text "non-virtual thunk to ", Text.dropLead? text "virtual thunk to " with
  | some target, _ => (some .nonVirtual, target)
  | none, some target => (some .virtual, target)
  | none, none => (none, text)

/-- A printed function without its label, taken apart. -/
def parts (thunk : Option ThunkKind) (text : String) : Method :=
  let qualified := String.ofList (beforeParams [] 0 text.toList)
  (scopeParts qualified).elim { owner := "", name := qualified, thunk }
    fun found => { owner := found.1, name := found.2, thunk }

def ofPrinted (text : String) : Method := parts (labelled text).1 (labelled text).2

def ofSymbol? (symbol : String) : Option Method := (demangle symbol).map ofPrinted

/-- The class without namespaces and template arguments. -/
def bareOwner (m : Method) : String := withoutScope (withoutArgs m.owner)

def isConstructor (m : Method) : Bool := !m.bareOwner.isEmpty && m.name == m.bareOwner

/-- The function bears the name of its class behind a tilde. -/
def isDestructor (m : Method) : Bool := !m.bareOwner.isEmpty && m.name == "~" ++ m.bareOwner

end Method

def vtableClass? (symbol : String) : Option String := do
  if Text.startsWith symbol "_ZTV" then
    Text.dropLead? (← demangle symbol) "vtable for "
  else none

def isConstructor (symbol : String) : Bool :=
  (Method.ofSymbol? symbol).any Method.isConstructor

def isDestructor (symbol : String) : Bool :=
  (Method.ofSymbol? symbol).any Method.isDestructor

def isStructor (symbol : String) : Bool := isConstructor symbol || isDestructor symbol

def thunkKind? (symbol : String) : Option ThunkKind := do
  if Text.startsWith symbol "_ZTh" || Text.startsWith symbol "_ZTv" then
    (← Method.ofSymbol? symbol).thunk
  else none

end CallTargets.Symbol
