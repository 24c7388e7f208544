import CallTargets.Program.Builder
import CallTargets.Program.Document
/-!
# Scripts

A script builds a program step by step. A step is a JSON array: the name of an
operation, a register for the name that the step yields, and the arguments. A step that
fails is skipped.

Where an argument names an entity it is a register, a plain number, or an object
`{"rel": n}`, which counts from the number of values there are. Numbers of entities have
32 bits, and counting goes round behind the last one. Entities are looked up before names
are read, and before it matters where instructions go.
-/

namespace CallTargets.Script

inductive StepFault where
  /-- The step is not of the form that its operation asks for. -/
  | badStep
  /-- An argument names no entity. -/
  | badRef
  /-- The program cannot be changed like that. -/
  | refused (fault : Fault)
  deriving DecidableEq, Repr

structure Session where
  builder : Builder := {}
  registers : OrdMap String Nat := ∅
  /-- Where instructions go, once a function was entered. -/
  site : Option Site := none

def Session.program (s : Session) : Program := s.builder.program

/-- A step yields the number of an entity, or nothing. -/
abbrev Step := ExceptT StepFault (StateM Session)

def request (r : Request) : Step (Option Nat) := do
  let result ← modifyGet fun s =>
    let (result, builder) := (Construct.perform r).run s.builder
    (result, { s with builder })
  match result with
  | .ok entities => return entities.head?.map Entity.index
  | .error fault => throw (.refused fault)

/-! ## Arguments -/

/-- The number that so many entities behind another one lead to. -/
def countFrom (n count : Nat) : Nat := (n + count) % Nat.pow 2 32

def resolve (arg : Json) : Step Nat := do
  let s ← get
  let number : Option Nat :=
    match arg with
    | .str (some register) => s.registers.get? register
    | .int n => (Json.int n).nat32?
    | arg => ((arg.field? "rel").bind Json.nat64?).map (countFrom s.program.values.size)
  match number with
  | some n => return n
  | none => throw .badRef

/-- The entity named by the argument at a place, which has to be there. -/
def idAt (args : List Json) (place : Nat) : Step Nat :=
  match args[place]? with
  | some arg => resolve arg
  | none => throw .badStep

def typeAt (args : List Json) (place : Nat) : Step TypeId := TypeId.mk <$> idAt args place

def valueAt (args : List Json) (place : Nat) : Step ValueId := ValueId.mk <$> idAt args place

def functionAt (args : List Json) (place : Nat) : Step FunctionId :=
  FunctionId.mk <$> idAt args place

def globalAt (args : List Json) (place : Nat) : Step GlobalId := GlobalId.mk <$> idAt args place

def moduleAt (args : List Json) (place : Nat) : Step ModuleId := ModuleId.mk <$> idAt args place

def plainAt {α : Type} (decode : Json → Option α) (args : List Json) (place : Nat) : Step α :=
  match args[place]?.bind decode with
  | some a => return a
  | none => throw .badStep

def idsAt (args : List Json) (place : Nat) : Step (List Nat) := do
  (← plainAt Json.items? args place).mapM resolve

def typesAt (args : List Json) (place : Nat) : Step (List TypeId) :=
  List.map TypeId.mk <$> idsAt args place

def valuesAt (args : List Json) (place : Nat) : Step (List ValueId) :=
  List.map ValueId.mk <$> idsAt args place

def optionalAt (args : List Json) (place : Nat) : Step (Option ValueId) :=
  match args[place]?.getD .null with
  | .null => return none
  | arg => (some ∘ ValueId.mk) <$> resolve arg

/-- An index of an address computation: a number, or `{"dyn": value}`. -/
def gepIndex (arg : Json) : Step GepIndex :=
  match arg.int64?, arg.field? "dyn" with
  | some n, _ => return .const n
  | none, some v => (GepIndex.dynamic ∘ ValueId.mk) <$> resolve v
  | none, none => throw .badStep

def indicesAt (args : List Json) (place : Nat) : Step (List GepIndex) := do
  (← plainAt Json.items? args place).mapM gepIndex

def site : Step Site := do
  match (← get).site with
  | some site => return site
  | none => throw .badStep

def setSite (site : Site) : Step Unit := modify fun s => { s with site := some site }

/-- Sets the place in the source that instructions come from. Without a site there is
nothing to set, as entering a function forgets the place. -/
def setLoc (loc : SourceLoc) : Step Unit :=
  modify fun s => { s with site := s.site.map fun site => { site with loc := some loc } }

/-! ## Operations -/

def typeRequest? (op : String) (args : List Json) : Option (Step Request) :=
  match op with
  | "void" => some (return .intern .void)
  | "label" => some (return .intern .label)
  | "int" => some do return .intern (.integer (← plainAt Json.nat32? args 0))
  | "i8" => some (return .intern (.integer 8))
  | "i32" => some (return .intern (.integer 32))
  | "i64" => some (return .intern (.integer 64))
  | "void_ptr" => some (return .bytePointer)
  | "float" => some do return .intern (.float (← plainAt Json.nat32? args 0))
  | "ptr" => some do return .intern (.pointer (← typeAt args 0))
  | "fn" => some do
    let ret ← typeAt args 0
    let params ← typesAt args 1
    return .intern (.function ret params ((args[2]?.bind Json.bool?).getD false))
  | "array" => some do
    let element ← typeAt args 0
    return .intern (.array element (← plainAt Json.nat64? args 1))
  | "vector" => some do
    let element ← typeAt args 0
    return .intern (.vector element (← plainAt Json.nat64? args 1))
  | "anon" => some do return .intern (.struct none (← typesAt args 0) false)
  | "named" => some do return .intern (.struct (some (← plainAt Json.string? args 0)) [] true)
  | "struct" => some do
    let fields ← typesAt args 1
    return .defineStruct (← plainAt Json.string? args 0) fields
  | "lookup" => some do return .lookup (← plainAt Json.string? args 0)
  | "intern" => some do return .intern (← plainAt Ty.ofJson? args 0)
  | "set_body" => some do
    let t ← typeAt args 0
    return .setBody t (← typesAt args 1)
  | "reindex" => some (return .reindex)
  | _ => none

def declarationRequest? (op : String) (args : List Json) : Option (Step Request) :=
  match op with
  | "module" => some do return .addModule (← plainAt Json.string? args 0)
  | "add_struct" => some do
    let m ← moduleAt args 0
    let fields ← typesAt args 2
    return .addStruct m (← plainAt Json.string? args 1) fields
  | "declare" => some do
    let m ← moduleAt args 0
    let type ← typeAt args 2
    return .declare m (← plainAt Json.string? args 1) type
  | "define" => some do
    let m ← moduleAt args 0
    let type ← typeAt args 2
    return .define m (← plainAt Json.string? args 1) type
  | "linkage" => some do
    let f ← functionAt args 0
    return .setLinkage f (← plainAt Linkage.ofJson? args 1)
  | "fval" => some do return .functionValue (← functionAt args 0)
  | "param" => some do
    let f ← functionAt args 0
    return .param f (← plainAt Json.nat64? args 1)
  | "global" => some do
    let m ← moduleAt args 0
    let type ← typeAt args 2
    let init ← optionalAt args 3
    return .addGlobal m (← plainAt Json.string? args 1) type init
  | "init" => some do
    let g ← globalAt args 0
    return .setInit g (← valueAt args 1)
  | "glinkage" => some do
    let g ← globalAt args 0
    return .setGlobalLinkage g (← plainAt Linkage.ofJson? args 1)
  | "gval" => some do return .globalValue (← globalAt args 0)
  | "name" => some do
    let v ← valueAt args 0
    return .nameValue v (← plainAt Json.string? args 1)
  | _ => none

def constantRequest? (op : String) (args : List Json) : Option (Step Request) :=
  match op with
  | "null" => some do return .null (← typeAt args 0)
  | "undef" => some do return .undef (← typeAt args 0)
  | "cint" => some do
    let type ← typeAt args 0
    return .int type (← plainAt Json.int64? args 1)
  | "agg" => some do
    let type ← typeAt args 0
    return .aggregate type (← valuesAt args 1)
  | "ccast" => some do
    let op ← plainAt CastOp.ofJson? args 0
    let operand ← valueAt args 1
    return .constCast op operand (← typeAt args 2)
  | "cgep" => some do
    let base ← valueAt args 0
    return .constGep base (← plainAt (Json.list? Json.int64?) args 1)
  | _ => none

def instrRequest? (op : String) (args : List Json) : Option (Step InstrRequest) :=
  match op with
  | "alloca" => some do return .alloca (← typeAt args 0)
  | "load" => some do return .load (← valueAt args 0)
  | "store" => some do
    let value ← valueAt args 0
    return .store value (← valueAt args 1)
  | "gep" => some do
    let base ← valueAt args 0
    return .gep base (← indicesAt args 1)
  | "field" => some do
    let base ← valueAt args 0
    let index ← plainAt Json.nat32? args 1
    return .gep base [.const 0, .const index]
  | "cast" => some do
    let op ← plainAt CastOp.ofJson? args 0
    let operand ← valueAt args 1
    return .cast op operand (← typeAt args 2)
  | "bitcast" => some do
    let operand ← valueAt args 0
    return .cast .bitCast operand (← typeAt args 1)
  | "phi" => some do
    let type ← typeAt args 0
    return .phi type (← valuesAt args 1)
  | "select" => some do
    let condition ← valueAt args 0
    let ifTrue ← valueAt args 1
    return .select condition ifTrue (← valueAt args 2)
  | "unary" => some do return .unary (← valueAt args 0)
  | "binary" => some do
    let lhs ← valueAt args 0
    return .binary lhs (← valueAt args 1)
  | "call" => some do
    let callee ← valueAt args 0
    return .call callee (← valuesAt args 1) false
  | "call_sret" => some do
    let callee ← valueAt args 0
    return .call callee (← valuesAt args 1) true
  | "ret" => some do return .ret (← optionalAt args 0)
  | "br" => some do
    let condition ← optionalAt args 0
    return .branch condition ((← idsAt args 1).map BlockId.mk)
  | "unreachable" => some (return .unreachable)
  | _ => none

/-- The name that an operation gives to its result: loads may have one. -/
def resultName? (op : String) (args : List Json) : Option String :=
  if op = "load" then args[1]?.bind Json.string? else none

/-- Operations that move the site or depend on it. -/
def siteStep? (op : String) (args : List Json) : Option (Step (Option Nat)) :=
  match op with
  | "enter" => some do
    let function ← functionAt args 0
    let number ← request (.enter function)
    setSite { function }
    return number
  | "block" => some do
    let here ← site
    let number ← request (.addBlock here.function)
    setSite { here with block := ⟨number.getD 0⟩ }
    return number
  | "switch" => some do
    let block := ⟨← idAt args 0⟩
    setSite { ← site with block }
    return none
  | "at" => some do
    let file ← plainAt Json.string? args 0
    let line ← plainAt Json.nat32? args 1
    let col ← plainAt Json.nat32? args 2
    setLoc { file, line, col }
    return none
  | "fparam" => some do
    let index ← plainAt Json.nat64? args 0
    request (.param (← site).function index)
  | _ => none

def operation? (op : String) (args : List Json) : Option (Step (Option Nat)) :=
  let plain := typeRequest? op args <|> declarationRequest? op args <|> constantRequest? op args
  (plain.map (· >>= request))
    <|> siteStep? op args
    <|> (instrRequest? op args).map fun i => do
      let i ← i
      request (.instr (← site) i (resultName? op args))

def store (dest : Option Json) (number : Option Nat) : Step Unit :=
  match dest.bind Json.string?, number with
  | some register, some n => modify fun s => { s with registers := s.registers.insert register n }
  | _, _ => return ()

def step : Json → Step (Option Nat)
  | .arr (.str (some op) :: rest) =>
    match operation? op rest.tail with
    | some action => do
      let number ← action
      store rest.head? number
      return number
    | none => throw .badStep
  | _ => throw .badStep

abbrev Yield := Except StepFault (Option Nat)

def run (script : List Json) : List Yield × Session :=
  let (yields, session) := script.foldl
    (fun (yields, session) s =>
      let (yielded, session) := (step s).run session
      (yielded :: yields, session))
    (([], {}) : List Yield × Session)
  (yields.reverse, session)

def program (script : List Json) : Program := (run script).2.program.withUses

end CallTargets.Script
