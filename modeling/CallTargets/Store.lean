import CallTargets.View
/-!
# Results

What has been found out about the calls of a program: who is called where, in four
relations that are kept in step, the functions that indirect calls may reach by their
signatures, and counts.
-/

namespace CallTargets

structure Stats where
  functions : Nat := 0
  virtualCalls : Nat := 0
  firstLayerCalls : Nat := 0
  secondLayerCalls : Nat := 0
  firstLayerTargets : Nat := 0
  secondLayerTargets : Nat := 0
  validCalls : Nat := 0
  callTargets : Nat := 0
  confinedFunctions : Nat := 0
  simpleCalls : Nat := 0
  deriving DecidableEq, Repr

structure Store where
  callees : OrdMap ValueId (OrdSet FunctionId) := ∅
  callers : OrdMap FunctionId (OrdSet ValueId) := ∅
  callMap : OrdMap FunctionId (OrdSet FunctionId) := ∅
  calledBy : OrdMap FunctionId (OrdSet FunctionId) := ∅
  /-- The functions that indirect calls may reach. -/
  addressTaken : OrdSet FunctionId := ∅
  buckets : OrdMap SignatureKey (OrdSet FunctionId) := ∅
  globals : OrdSet GlobalId := ∅
  indirectCalls : OrdSet ValueId := ∅
  virtualCalls : OrdSet ValueId := ∅
  stats : Stats := {}

namespace Store

def addEdge (call : ValueId) (caller : FunctionId) (s : Store) (target : FunctionId) : Store :=
  if target ∈ (s.callees.get? call).getD ∅ then s
  else
    { s with
      callees := s.callees.alter call fun fs => (fs.getD ∅).insert target
      callers := s.callers.alter target fun calls => (calls.getD ∅).insert call
      callMap := s.callMap.alter caller fun fs => (fs.getD ∅).insert target
      calledBy := s.calledBy.alter target fun fs => (fs.getD ∅).insert caller }

def addCall (s : Store) (call : ValueId) (caller : FunctionId) (targets : List FunctionId) :
    Store :=
  targets.foldl (addEdge call caller) { s with callees := s.callees.insertIfNew call ∅ }

def count (s : Store) (change : Stats → Stats) : Store := { s with stats := change s.stats }

/-- The functions that an indirect call of a signature may reach. -/
def withSignature (s : Store) (key : SignatureKey) : OrdSet FunctionId :=
  (s.buckets.get? key).getD ∅

/-! ## Filling -/

/-- The symbol is that of a method, which is called through a vtable. -/
def isMethodSymbol (name : String) : Bool := Text.startsWith name "_ZN"

def isCandidate (f : Function) : Bool :=
  f.addressTaken && !f.isIntrinsic && !isMethodSymbol f.name

/-- Adds a function that indirect calls of a signature may reach. -/
def addCandidate (s : Store) (key : SignatureKey) (f : FunctionId) : Store :=
  { s with
    addressTaken := s.addressTaken.insert f
    buckets := s.buckets.alter key fun fs => (fs.getD ∅).insert f }

def addCandidates (view : View) (s : Store) (m : Module) : Store :=
  (m.functions.filter fun f => (view.program.function? f).any isCandidate).foldl
    (fun s f => s.addCandidate (view.signatureOf f) f) s

/-- Puts definitions in the place of declarations. -/
def linkCandidates (view : View) (s : Store) : Store :=
  { s with
    addressTaken := s.addressTaken.image view.definitionOf
    buckets := s.buckets.mapValues fun _ fs => fs.image view.definitionOf }

def addDirectCall (view : View) (f : FunctionId) (s : Store) (site : CallSite) : Store :=
  match view.program.baseFunction? site.call.callee with
  | some callee => s.addCall site.id f [view.definitionOf callee]
  | none => s

def addDirectCalls (view : View) (s : Store) (f : FunctionId) : Store :=
  (view.program.callSites f).foldl (addDirectCall view f) s

/-- Counts a function and records its direct calls. -/
def addFunction (view : View) (s : Store) (f : FunctionId) : Store :=
  (s.count fun n => { n with functions := n.functions + 1 }).addDirectCalls view f

/-- Records the variables of a module that have an initial value. -/
def addGlobals (view : View) (s : Store) (m : Module) : Store :=
  let initialised := m.globals.filter fun g => (view.program.global? g).any (·.init.isSome)
  { s with globals := s.globals.insertMany initialised }

def addModule (view : View) (s : Store) (m : Module) : Store :=
  (m.functions.filter fun f => !view.program.isDeclaration f).foldl (addFunction view)
    (s.addGlobals view m)

end Store

end CallTargets
