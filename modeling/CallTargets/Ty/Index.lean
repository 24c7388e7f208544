import CallTargets.Ordered.Map
import CallTargets.Ty.Table
/-!
# Type tables with an index

A `TypeTable` goes through its types to look one up. An `IndexedTable` keeps two maps beside
the types: structs are found by their names, and all other types by what they are made of.
Each addition is noted in the maps, and they can be made anew from the types.
-/

namespace CallTargets

/-- A type table with the maps by which its types are found. -/
structure IndexedTable where
  table : TypeTable := {}
  /-- The types without a name of their own, by what they are made of. -/
  unnamed : OrdMap Ty TypeId := ∅
  structs : OrdMap String TypeId := ∅

namespace IndexedTable

def get? (t : IndexedTable) (id : TypeId) : Option Ty := t.table.get? id

def lookupStruct? (t : IndexedTable) (name : String) : Option TypeId := t.structs.get? name

/-- The name a type already has: that of the struct called like it, or that of a type equal
to it. -/
def find? (t : IndexedTable) (ty : Ty) : Option TypeId :=
  (ty.structName?.bind t.lookupStruct?).or (t.unnamed.get? ty)

def note (t : IndexedTable) (ty : Ty) (id : TypeId) : IndexedTable :=
  match ty.structName? with
  | some name => { t with structs := t.structs.insertIfNew name id }
  | none => { t with unnamed := t.unnamed.insertIfNew ty id }

/-- The name of a type, which is added if it has none. -/
def intern (t : IndexedTable) (ty : Ty) : TypeId × IndexedTable :=
  match t.find? ty with
  | some id => (id, t)
  | none =>
    let id := ⟨t.table.size⟩
    (id, { t.note ty id with table := { types := t.table.types.push ty } })

/-- The struct called by a name, which is added without fields if there is none. -/
def declareStruct (t : IndexedTable) (name : String) : TypeId × IndexedTable :=
  match t.lookupStruct? name with
  | some id => (id, t)
  | none => t.intern (.struct (some name) [] true)

def setBody (t : IndexedTable) (id : TypeId) (fields : List TypeId) :
    Except Fault IndexedTable := do
  return { t with table := ← t.table.setBody id fields }

def defineStruct (t : IndexedTable) (name : String) (fields : List TypeId) :
    Except Fault (TypeId × IndexedTable) := do
  let (id, t) := t.declareStruct name
  return (id, ← t.setBody id fields)

/-- The same types with new maps. Of several structs with one name, and of several equal
types, the first one is found. -/
def reindex (t : IndexedTable) : IndexedTable :=
  t.table.types.toList.zipIdx.foldl (fun t entry => t.note entry.1 ⟨entry.2⟩) { table := t.table }

end IndexedTable

inductive TypeRequest where
  | intern (ty : Ty)
  | bytePointer
  | declareStruct (name : String)
  | setBody (t : TypeId) (fields : List TypeId)
  | defineStruct (name : String) (fields : List TypeId)
  | reindex
  deriving DecidableEq, Repr

namespace TypeRequest

/-- Does what a request asks for, and yields the type that was made or found. -/
def perform (t : IndexedTable) : TypeRequest → Except Fault (Option TypeId × IndexedTable)
  | intern ty =>
    let (id, t) := t.intern ty
    return (some id, t)
  | bytePointer =>
    let (byte, t) := t.intern (.integer 8)
    let (id, t) := t.intern (.pointer byte)
    return (some id, t)
  | declareStruct name =>
    let (id, t) := t.declareStruct name
    return (some id, t)
  | setBody id fields => return (none, ← t.setBody id fields)
  | defineStruct name fields => do
    let (id, t) ← t.defineStruct name fields
    return (some id, t)
  | reindex => return (none, t.reindex)

end TypeRequest

namespace IndexedTable

/-- The table after a request; one that is refused changes nothing. -/
def apply (t : IndexedTable) (r : TypeRequest) : IndexedTable :=
  match r.perform t with
  | .ok (_, t) => t
  | .error _ => t

def serve (t : IndexedTable) (rs : List TypeRequest) : IndexedTable := rs.foldl apply t

def yields? (t : IndexedTable) (r : TypeRequest) : Option TypeId :=
  match r.perform t with
  | .ok (id, _) => id
  | .error _ => none

end IndexedTable

end CallTargets
