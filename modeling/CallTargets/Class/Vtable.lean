import CallTargets.Class.Hierarchy
import CallTargets.Program.Basic
/-!
# Vtables

The initial value of a vtable holds one array for each table, or several tables in one
array, divided by integers. Its entries are addresses of methods and of the description
of the class, integers and nulls. A run of nulls behind the description marks a virtual
base; the slots of such a table are padded by as many copies of the first one. The entries
are read in one pass, which ends a table at each integer and at the end of an array.
-/

namespace CallTargets

namespace Vtable

inductive Entry where
  | null
  | offset
  | function (f : FunctionId)
  | typeinfo
  | other
  deriving DecidableEq, Repr

def plainEntry (p : Program) (v : ValueId) : Entry :=
  match (p.value? v).map Value.kind with
  | some (.function f) => .function f
  | some (.global g) => if (p.global? g).any Global.isTypeinfo then .typeinfo else .other
  | some (.const .null) => .null
  | some (.const (.int _)) => .offset
  | _ => .other

def entry (p : Program) (v : ValueId) : Entry :=
  match p.cast? v with
  | some (.intToPtr, _) => .offset
  | _ => plainEntry p (p.strip v)

/-- The elements of the vtable's initial value. If it is a struct followed by an array, the
elements are those of the struct. -/
def parts (p : Program) (elements : List ValueId) : List ValueId :=
  match elements with
  | [first, second] =>
    if (p.type? first).any p.types.isStruct && !(p.type? second).any p.types.isStruct
        && p.isComposite second then
      (p.elements? first).getD elements
    else elements
  | _ => elements

/-- The arrays of a vtable, each as its entries. An initial value without arrays is itself
the only one. -/
def arrays (p : Program) (init : ValueId) : List (List Entry) :=
  match p.elements? init with
  | some elements =>
    let arrays := match (parts p elements).filterMap p.elements? with
      | [] => [elements]
      | arrays => arrays
    arrays.map fun entries => entries.map (entry p)
  | none => []

def thunkTarget? (p : Program) (f : FunctionId) : Option FunctionId :=
  ((p.callSites f).filterMap fun site => p.baseFunction? site.call.callee).getLast?

/-- The function that an entry puts into a slot; a thunk stands for its target. -/
def slot? (p : Program) : Entry → Option FunctionId
  | .function f =>
    if (Symbol.thunkKind? (p.functionName f)).isSome then thunkTarget? p f else some f
  | _ => none

/-- Records that a class inherits from the one that has the function as a method. -/
def recordOwner (p : Program) (c : String) (h : Hierarchy) (f : FunctionId) : Hierarchy :=
  match Symbol.Method.ofSymbol? (p.functionName f) with
  | some method => (h.inherit c method.owner).2
  | none => h

structure Reading where
  hierarchy : Hierarchy
  slots : List FunctionId := []
  /-- The length of the last run of nulls right behind a description in this table. -/
  nulls : Nat := 0
  hasFunction : Bool := false
  allPure : Bool := true

/-- Slots with as many in front of them as a run of nulls is long. They are copies of the slots at
the places 0, 1, and so on; each is put in front of all others before the next one is looked at. -/
def pad (slots : List FunctionId) (nulls : Nat) : List FunctionId :=
  (List.range nulls).foldl (fun slots place => slots[place]?.toList ++ slots) slots

namespace Reading

def endTable (r : Reading) (c : String) : Reading :=
  { r with hierarchy := r.hierarchy.addTable c (pad r.slots r.nulls), slots := [], nulls := 0 }

/-- Reads a function: its slot, and what its name says about the class. -/
def function (p : Program) (c : String) (r : Reading) (f : FunctionId) : Reading where
  hierarchy := recordOwner p c r.hierarchy f
  slots := r.slots ++ (slot? p (.function f)).toList
  nulls := r.nulls
  hasFunction := true
  allPure := r.allPure && p.functionName f = Symbol.pureVirtual

/-- Reads an entry, given the one before it and those behind it. An integer ends a table, and the
class has several. -/
def entry (p : Program) (c : String) (before : Option Entry) (r : Reading) (e : Entry)
    (behind : List Entry) : Reading :=
  match e with
  | .null =>
    if before = some .typeinfo then
      { r with nulls := ((e :: behind).takeWhile (· = .null)).length }
    else r
  | .offset =>
    { r with hierarchy := r.hierarchy.addTrait c Traits.multipleInheritance }.endTable c
  | .function f => r.function p c f
  | .typeinfo | .other => r

/-- Reads the entries of an array, the end of which ends a table as well. -/
def entries (p : Program) (c : String) (before : Option Entry) (r : Reading) :
    List Entry → Reading
  | [] => r.endTable c
  | e :: behind => entries p c (some e) (r.entry p c before e behind) behind

end Reading

def record (p : Program) (h : Hierarchy) (c symbol : String) (init : ValueId) : Hierarchy :=
  let r := (arrays p init).foldl (Reading.entries p c none) { hierarchy := h.setVtable c symbol }
  if r.hasFunction && r.allPure then r.hierarchy.addTrait c Traits.pureAbstract
  else r.hierarchy

/-- The class and the initial value of a vtable. -/
def ofGlobal? (p : Program) (g : GlobalId) : Option (String × String × ValueId) := do
  let g ← p.global? g
  if g.isVtable then
    let init ← g.init
    return (← Symbol.vtableClass? g.name, g.name, init)
  else none

def scan (p : Program) (h : Hierarchy) (m : Module) : Nat × Hierarchy :=
  let found := m.globals.filterMap (ofGlobal? p)
  (found.length, found.foldl (fun h (c, symbol, init) => record p h c symbol init) h)

end Vtable

end CallTargets
