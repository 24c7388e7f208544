import CallTargets.Graph.Search
import CallTargets.Ordered.Map
import CallTargets.Ordered.Set
import CallTargets.Program.Id
import CallTargets.Symbol.Method
/-!
# Class hierarchies

The classes of a program, who inherits from whom, and the functions in the slots of their
vtables, as far as they can be recovered.
-/

namespace CallTargets

/-- Properties of a class, one bit each. -/
structure Traits where
  bits : UInt8 := 0
  deriving DecidableEq, Inhabited, Repr

namespace Traits

def pureAbstract : UInt8 := 1

/-- The vtable of the class has several tables. -/
def multipleInheritance : UInt8 := 2

def template : UInt8 := 4

def insert (t : Traits) (bit : UInt8) : Traits := ⟨t.bits ||| bit⟩

def contains (t : Traits) (bit : UInt8) : Bool := t.bits &&& bit != 0

end Traits

structure Hierarchy where
  /-- The names of the classes, none of them empty. -/
  classes : OrdSet String := ∅
  /-- The pairs of a class and one that it inherits from directly. -/
  edges : OrdSet (String × String) := ∅
  vtables : OrdMap String String := ∅
  /-- The functions in the slots of each table of a class's vtable. -/
  tables : OrdMap String (List (List FunctionId)) := ∅
  traits : OrdMap String Traits := ∅

namespace Hierarchy

/-! ## Recording -/

def addTrait (h : Hierarchy) (c : String) (bit : UInt8) : Hierarchy :=
  { h with traits := h.traits.alter c fun t => (t.getD {}).insert bit }

def addClass (h : Hierarchy) (c : String) : Hierarchy :=
  if c.isEmpty || c ∈ h.classes then h
  else
    let h := { h with classes := h.classes.insert c }
    if Symbol.hasArgs c then h.addTrait c Traits.template else h

/-- The classes may be in the relation: both have a name, and they differ. -/
def canInherit (derived base : String) : Bool :=
  !derived.isEmpty && !base.isEmpty && derived != base

/-- Adds that a class inherits from another one, and tells whether that is new. -/
def inherit (h : Hierarchy) (derived base : String) : Bool × Hierarchy :=
  if canInherit derived base then
    let h := (h.addClass derived).addClass base
    ((derived, base) ∉ h.edges, { h with edges := h.edges.insert (derived, base) })
  else (false, h)

def setVtable (h : Hierarchy) (c symbol : String) : Hierarchy :=
  { h.addClass c with vtables := h.vtables.insert c symbol }

def addTable (h : Hierarchy) (c : String) (slots : List FunctionId) : Hierarchy :=
  if slots.isEmpty then h
  else { h.addClass c with tables := h.tables.alter c fun tables => tables.getD [] ++ [slots] }

/-! ## Asking -/

def basesOf (h : Hierarchy) (c : String) : List String :=
  (h.edges.toList.filter (·.1 = c)).map Prod.snd

def derivedOf (h : Hierarchy) (c : String) : List String :=
  (h.edges.toList.filter (·.2 = c)).map Prod.fst

/-- The search for the classes that inherit from a class. -/
def descent (h : Hierarchy) : Search String (OrdSet String) Empty where
  turn := .newest
  visit := fun found c => .goOn (found.insert c) (h.derivedOf c).reverse

def classesWith (h : Hierarchy) (c : String) : List String :=
  (OrdSet.ofList (c :: h.classes.toList)).toList

/-- A class and all that inherit from it over any number of steps. -/
def descendants (h : Hierarchy) (c : String) : OrdSet String :=
  h.descent.explore (h.classesWith c) [c] ∅

/-- The tables of the vtable of a class, the primary one first. -/
def tablesOf (h : Hierarchy) (c : String) : List (List FunctionId) := (h.tables.get? c).getD []

def traitsOf (h : Hierarchy) (c : String) : Traits := (h.traits.get? c).getD {}

end Hierarchy

end CallTargets
