/-!
# Names of entities

Every entity of a program is named by its place in a list of its kind. Names of
different kinds are different types, so that none can stand for another. A program is
assumed to have fewer than 2^32 entities of a kind, so that places need no bound.
-/

namespace CallTargets

structure TypeId where
  index : Nat
  deriving DecidableEq, Inhabited, Repr

/-- Names a value: an argument, a constant, an address or the result of an instruction. -/
structure ValueId where
  index : Nat
  deriving DecidableEq, Inhabited, Repr

structure FunctionId where
  index : Nat
  deriving DecidableEq, Inhabited, Repr

structure GlobalId where
  index : Nat
  deriving DecidableEq, Inhabited, Repr

structure ModuleId where
  index : Nat
  deriving DecidableEq, Inhabited, Repr

structure BlockId where
  index : Nat
  deriving DecidableEq, Inhabited, Repr

instance (n : Nat) : OfNat TypeId n := ⟨⟨n⟩⟩

instance (n : Nat) : OfNat ValueId n := ⟨⟨n⟩⟩

instance (n : Nat) : OfNat FunctionId n := ⟨⟨n⟩⟩

instance (n : Nat) : OfNat GlobalId n := ⟨⟨n⟩⟩

instance (n : Nat) : OfNat ModuleId n := ⟨⟨n⟩⟩

instance (n : Nat) : OfNat BlockId n := ⟨⟨n⟩⟩

namespace TypeId

def label (t : TypeId) : String := "ty" ++ toString t.index

end TypeId

namespace ValueId

def label (v : ValueId) : String := "%v" ++ toString v.index

end ValueId

namespace FunctionId

def label (f : FunctionId) : String := "fn" ++ toString f.index

end FunctionId

namespace GlobalId

def label (g : GlobalId) : String := "gv" ++ toString g.index

end GlobalId

namespace ModuleId

def label (m : ModuleId) : String := "mod" ++ toString m.index

end ModuleId

namespace BlockId

def entry : BlockId := ⟨0⟩

def label (b : BlockId) : String := "bb" ++ toString b.index

end BlockId

end CallTargets
