import CallTargets.Proofs.Class.Range

/-!
# What constructors show

A class inherits from another one if an instruction of one of its constructors or destructors shows
it: a call of a constructor or destructor of the other class on the own object, or a store of the
address of its vtable. `Structor.mem_edges_scan` says that these are exactly the inheritances that a
module adds. The pointer of a store is not looked at. So a vtable that is stored into another
object, as the constructor of a member or of a local variable does where it has been inlined, makes
the class of that object a base (`Structor.mem_edges_outsider`).
-/

namespace CallTargets

open Hierarchy (canInherit)

theorem Hierarchy.mem_edges_inherit {h : Hierarchy} {derived base : String} {e : String × String} :
    e ∈ (h.inherit derived base).2.edges ↔
      e ∈ h.edges ∨ canInherit derived base = true ∧ e = (derived, base) := by
  unfold inherit
  split
  · rename_i hcan
    rw [OrdSet.mem_insert, edges_addClass, edges_addClass, and_iff_right hcan]
  · rename_i hcannot
    exact (or_iff_left fun h => hcannot h.1).symm

namespace Structor

/-! ## Evidence -/

section Evidence

variable {p : Program} {this v value ptr : ValueId} {base derived : String}

/-- The pointer is the object's, or computed from it, or loaded from a variable into which it was
stored. -/
inductive Derived (p : Program) (this : ValueId) : ValueId → Prop where
  | this : Derived p this this
  | cast {v operand : ValueId} {op : CastOp} (hcast : p.cast? v = some (op, operand))
      (hoperand : Derived p this operand) : Derived p this v
  | gep {v : ValueId} {g : Gep} (hgep : p.gep? v = some g) (hbase : Derived p this g.base) :
      Derived p this v
  | reload {store slot load : ValueId} (hstore : p.store? store = some (this, slot))
      (hload : p.load? load = some slot) : Derived p this load

theorem not_derived (hv : v ≠ this) (hcast : p.cast? v = none) (hgep : p.gep? v = none)
    (hload : p.load? v = none) : ¬ Derived p this v := by
  intro h
  cases h with
  | this => exact hv rfl
  | cast hcast' _ =>
    rw [hcast] at hcast'
    cases hcast'
  | gep hgep' _ =>
    rw [hgep] at hgep'
    cases hgep'
  | reload _ hload' =>
    rw [hload] at hload'
    cases hload'

def IsVtableOf (p : Program) (base : String) (value : ValueId) : Prop :=
  ∃ g id global, p.const? (p.strip value) = some (.gep g) ∧
    (p.value? (p.strip g.base)).bind Value.global? = some id ∧ p.global? id = some global ∧
    Symbol.vtableClass? global.name = some base

/-- The instruction stores the address of the vtable of a class through a pointer. -/
def StoresVtable (p : Program) (base : String) (v ptr : ValueId) : Prop :=
  ∃ value, p.store? v = some (value, ptr) ∧ IsVtableOf p base value

/-- The function is a constructor or a destructor of a class. -/
def IsOf (symbol base : String) : Prop :=
  Symbol.isStructor symbol = true ∧
    (Symbol.Method.ofSymbol? symbol).map Symbol.Method.owner = some base

/-- The instruction calls a constructor or destructor of a class on the object. -/
def CallsOnObject (p : Program) (this : ValueId) (base : String) (v : ValueId) : Prop :=
  ∃ call callee arg, p.opcode? v = some (.call call) ∧ p.baseFunction? call.callee = some callee ∧
    IsOf (p.functionName callee) base ∧ call.args[call.sret.toNat]? = some arg ∧
    isSameObject p this arg = true

/-- The instruction belongs to a constructor or destructor of a class that the module defines, and
the object of that function is given. -/
def IsInside (p : Program) (m : Module) (derived : String) (this v : ValueId) : Prop :=
  ∃ id ∈ m.functions, ∃ f, p.function? id = some f ∧ f.isDeclaration = false ∧ IsOf f.name derived ∧
    f.params.head? = some this ∧ v ∈ f.instructions

/-! ## What an instruction shows -/

theorem strip_of_isArgument {id : FunctionId} {index : Nat}
    (h : (p.value? v).map Value.kind = some (.argument id index)) : p.strip v = v := by
  have hcast : p.cast? v = none := by
    rw [Program.cast?, h]
  rw [Program.strip, Program.stripUpTo, hcast]

theorem callSite?_of_isSameObject {id : FunctionId} {index : Nat}
    (hthis : (p.value? this).map Value.kind = some (.argument id index)) {arg : ValueId}
    (harg : isSameObject p this arg = true) : p.callSite? (p.strip arg) = none := by
  have hcall (w : ValueId) (hw : ∀ call, p.opcode? w ≠ some (.call call)) :
      p.callSite? w = none := by
    cases hsite : p.callSite? w with
    | none => rfl
    | some site => exact absurd (Program.opcode?_of_callSite? hsite) (hw site.call)
  have hobject : p.callSite? this = none := by
    refine hcall this fun call hopcode => ?_
    rw [Program.opcode?_eq_none hthis (by rintro i ⟨⟩)] at hopcode
    cases hopcode
  simp only [isSameObject, Bool.or_eq_true, decide_eq_true_eq, List.any_eq_true] at harg
  rcases harg with (rfl | htarget) | ⟨user, -, hreload⟩
  · rwa [strip_of_isArgument hthis]
  · rwa [htarget]
  · split at hreload
    · simp only [Bool.and_eq_true, List.any_eq_true, decide_eq_true_eq] at hreload
      obtain ⟨-, load, -, rfl, hload⟩ := hreload
      refine hcall _ fun call hopcode => ?_
      rw [Program.opcode?_of_load? hload] at hopcode
      cases hopcode
    · cases hreload

theorem vtable?_bind {value : ValueId} :
    (vtable? p value).bind Symbol.vtableClass? = some base ↔ IsVtableOf p base value := by
  unfold vtable? IsVtableOf
  constructor
  · intro h
    obtain ⟨name, hname, hclass⟩ := Option.bind_eq_some_iff.1 h
    obtain ⟨c, hconst, hname⟩ := Option.bind_eq_some_iff.1 hname
    split at hname
    · rename_i g
      obtain ⟨w, hw, hname⟩ := Option.bind_eq_some_iff.1 hname
      obtain ⟨id, hid, hname⟩ := Option.bind_eq_some_iff.1 hname
      obtain ⟨global, hglobal, hname⟩ := Option.bind_eq_some_iff.1 hname
      split at hname
      · cases hname
        exact ⟨g, id, global, hconst, Option.bind_eq_some_iff.2 ⟨w, hw, hid⟩, hglobal, hclass⟩
      · cases hname
    · cases hname
  · rintro ⟨g, id, global, hconst, hid, hglobal, hclass⟩
    obtain ⟨w, hw, hid⟩ := Option.bind_eq_some_iff.1 hid
    have hvtable : global.isVtable = true := by
      unfold Symbol.vtableClass? at hclass
      split at hclass
      · assumption
      · cases hclass
    simp [hconst, hw, hid, hglobal, hvtable, hclass]

theorem base?_eq_some_iff {id : FunctionId} {index : Nat}
    (hthis : (p.value? this).map Value.kind = some (.argument id index)) :
    base? p this v = some base ↔
      CallsOnObject p this base v ∨ ∃ ptr, StoresVtable p base v ptr := by
  unfold base?
  constructor
  · intro h
    obtain ⟨opcode, hopcode, h⟩ := Option.bind_eq_some_iff.1 h
    split at h
    · rename_i call
      obtain ⟨callee, hcallee, h⟩ := Option.bind_eq_some_iff.1 h
      obtain ⟨arg, harg, h⟩ := Option.bind_eq_some_iff.1 h
      split at h
      · rename_i hobject
        simp only [Bool.and_eq_true] at hobject
        exact .inl ⟨call, callee, arg, hopcode, hcallee, ⟨hobject.1.1, h⟩, harg, hobject.2⟩
      · cases h
    · rename_i value ptr
      refine .inr ⟨ptr, value, ?_, vtable?_bind.1 h⟩
      rw [Program.store?, hopcode]
    · cases h
  · rintro (hcall | ⟨ptr, value, hstore, hvtable⟩)
    · obtain ⟨call, callee, arg, hopcode, hcallee, hmember, harg, hobject⟩ := hcall
      have hsite := callSite?_of_isSameObject hthis hobject
      simpa [hopcode, hcallee, harg, hmember.1, hsite, hobject] using hmember.2
    · rw [Program.opcode?_of_store? hstore]
      exact vtable?_bind.2 hvtable

/-! ## What a module shows -/

theorem mem_edges_foldl {α : Type} {step : Nat × Hierarchy → α → Nat × Hierarchy}
    {e : String × String} {adds : α → Prop} {as : List α}
    (hstep : ∀ s, ∀ a ∈ as, e ∈ (step s a).2.edges ↔ e ∈ s.2.edges ∨ adds a) (s : Nat × Hierarchy) :
    e ∈ (as.foldl step s).2.edges ↔ e ∈ s.2.edges ∨ ∃ a ∈ as, adds a :=
  foldl_adds_iff (P := fun s : Nat × Hierarchy => e ∈ s.2.edges) hstep s

/-- An instruction of the function shows that its class inherits from another one. -/
def Shows (p : Program) (derived base : String) (f : Function) : Prop :=
  canInherit derived base = true ∧
    (Symbol.Method.ofSymbol? f.name).map Symbol.Method.owner = some derived ∧
    ∃ this, f.params.head? = some this ∧ ∃ v ∈ f.instructions,
      CallsOnObject p this base v ∨ ∃ ptr, StoresVtable p base v ptr

theorem mem_edges_record (hp : p.Valid) {id : FunctionId} {f : Function}
    (hf : p.function? id = some f) (state : Nat × Hierarchy) :
    (derived, base) ∈ (record p state f).2.edges ↔
      (derived, base) ∈ state.2.edges ∨ Shows p derived base f := by
  unfold Shows
  unfold record
  cases hmethod : Symbol.Method.ofSymbol? f.name with
  | none => simp
  | some method =>
    cases hparams : f.params with
    | nil => simp [Hierarchy.edges_addClass]
    | cons this params =>
      have hthis := ((hp.records.function hf).param 0 this (by simp [hparams])).2
      have hstep : ∀ s : Nat × Hierarchy, ∀ b ∈ f.instructions.filterMap (base? p this),
          (derived, base) ∈ (countInherit method.owner s b).2.edges ↔ (derived, base) ∈ s.2.edges ∨
            canInherit method.owner b = true ∧ (derived, base) = (method.owner, b) :=
        fun s b _ => Hierarchy.mem_edges_inherit
      refine (mem_edges_foldl hstep (state.1, state.2.addClass method.owner)).trans ?_
      rw [Hierarchy.edges_addClass]
      refine or_congr_right ⟨?_, ?_⟩
      · rintro ⟨b, hb, hcan, heq⟩
        cases heq
        obtain ⟨v, hv, hbase⟩ := List.mem_filterMap.1 hb
        exact ⟨hcan, rfl, this, rfl, v, hv, (base?_eq_some_iff hthis).1 hbase⟩
      · rintro ⟨hcan, howner, this', hhead, v, hv, hshows⟩
        cases hhead
        cases howner
        have hbase := (base?_eq_some_iff hthis).2 hshows
        exact ⟨base, List.mem_filterMap.2 ⟨v, hv, hbase⟩, hcan, rfl⟩

/-- The constructors and destructors that a module defines. -/
def structors (p : Program) (m : Module) : List Function :=
  (m.functions.filterMap p.function?).filter fun f =>
    !f.isDeclaration && Symbol.isStructor f.name

theorem mem_structors {m : Module} {f : Function} :
    f ∈ structors p m ↔ ∃ id ∈ m.functions, p.function? id = some f ∧ f.isDeclaration = false ∧
      Symbol.isStructor f.name = true := by
  rw [structors, List.mem_filter, List.mem_filterMap, Bool.and_eq_true, Bool.not_eq_true']
  constructor
  · rintro ⟨⟨id, hid, hf⟩, hdefined, hkind⟩
    exact ⟨id, hid, hf, hdefined, hkind⟩
  · rintro ⟨id, hid, hf, hdefined, hkind⟩
    exact ⟨⟨id, hid, hf⟩, hdefined, hkind⟩

theorem exists_shows_iff {m : Module} : (∃ f ∈ structors p m, Shows p derived base f) ↔
    canInherit derived base = true ∧ ∃ this v, IsInside p m derived this v ∧
      (CallsOnObject p this base v ∨ ∃ ptr, StoresVtable p base v ptr) := by
  constructor
  · rintro ⟨f, hf, hcan, howner, this, hthis, v, hv, hshows⟩
    obtain ⟨id, hid, hfunction, hdefined, hkind⟩ := mem_structors.1 hf
    exact ⟨hcan, this, v, ⟨id, hid, f, hfunction, hdefined, ⟨hkind, howner⟩, hthis, hv⟩, hshows⟩
  · rintro ⟨hcan, this, v, ⟨id, hid, f, hfunction, hdefined, hmember, hthis, hv⟩, hshows⟩
    exact ⟨f, mem_structors.2 ⟨id, hid, hfunction, hdefined, hmember.1⟩, hcan, hmember.2, this,
      hthis, v, hv, hshows⟩

/-- The inheritances that a module adds are those that an instruction of a constructor or destructor
shows: by a call of a constructor or destructor on the own object, or by a store of the address of a
vtable, either into the object or through a pointer that has nothing to do with it. -/
theorem mem_edges_scan (hp : p.Valid) (h : Hierarchy) (m : Module) (derived base : String) :
    (derived, base) ∈ (scan p h m).2.edges ↔ (derived, base) ∈ h.edges ∨
      canInherit derived base = true ∧
        ((∃ this v, IsInside p m derived this v ∧ (CallsOnObject p this base v ∨
            ∃ ptr, StoresVtable p base v ptr ∧ Derived p this ptr)) ∨
          ∃ this v ptr, IsInside p m derived this v ∧ StoresVtable p base v ptr ∧
            ¬ Derived p this ptr) := by
  have hstep : ∀ state, ∀ f ∈ structors p m, (derived, base) ∈ (record p state f).2.edges ↔
      (derived, base) ∈ state.2.edges ∨ Shows p derived base f := by
    intro state f hf
    obtain ⟨id, -, hid, -⟩ := mem_structors.1 hf
    exact mem_edges_record hp hid state
  refine (mem_edges_foldl hstep (0, h)).trans (or_congr_right ?_)
  refine exists_shows_iff.trans (and_congr_right' ⟨?_, ?_⟩)
  · rintro ⟨this, v, hinside, hcall | ⟨ptr, hstore⟩⟩
    · exact .inl ⟨this, v, hinside, .inl hcall⟩
    · by_cases hptr : Derived p this ptr
      · exact .inl ⟨this, v, hinside, .inr ⟨ptr, hstore, hptr⟩⟩
      · exact .inr ⟨this, v, ptr, hinside, hstore, hptr⟩
  · rintro (⟨this, v, hinside, hcall | ⟨ptr, hstore, -⟩⟩ | ⟨this, v, ptr, hinside, hstore, -⟩)
    · exact ⟨this, v, hinside, .inl hcall⟩
    · exact ⟨this, v, hinside, .inr ⟨ptr, hstore⟩⟩
    · exact ⟨this, v, hinside, .inr ⟨ptr, hstore⟩⟩

end Evidence

open Sample in
/-- The constructor of `Owner` calls the one of `Base` on its object. Then it makes a `Member` as a
local variable, whose constructor has been inlined. -/
def outsider : Program :=
  Program.withUses
    { types := ⟨#[.void, .integer 8, .pointer 1, .pointer 2, .array 2 3,
        .struct none [4] false, .struct (some "class.Base") [2] false,
        .struct (some "class.Owner") [6] false, .struct (some "class.Member") [2] false,
        .pointer 6, .pointer 7, .function 0 [9] false, .function 0 [10] false,
        .pointer 11, .pointer 12, .pointer 5, .pointer 8]⟩
      values := #[value 13 (.function 0), value 9 (.argument 0 0), value 14 (.function 1),
        value 10 (.argument 1 0), value 15 (.global 0),
        value 3 (.const (.gep ⟨5, 4, [.const 0, .const 0, .const 2]⟩)),
        value 2 (.const (.cast .bitCast 5)), instr 9 1 (.cast .bitCast 3),
        instr 0 1 (.call ⟨0, [7], 11, false⟩), instr 16 1 (.alloca 8),
        instr 3 1 (.cast .bitCast 9), instr 0 1 (.store 6 10)]
      functions := #[⟨"_ZN4BaseC2Ev", 11, 0, .external, [1], [], 0, false⟩,
        ⟨"_ZN5OwnerC2Ev", 12, 0, .external, [3],
          [⟨0, [7, 8, 9, 10, 11]⟩], 2, false⟩]
      globals := #[⟨"_ZTV6Member", 0, 5, 4, none, .external, false⟩]
      modules := #[⟨0, "a.cpp", [0, 1], [0], [6, 7, 8]⟩] }

theorem valid_outsider : outsider.Valid := Program.valid_withUses rfl

def outsiderModule : Module := ⟨0, "a.cpp", [0, 1], [0], [6, 7, 8]⟩

theorem function?_outsider : (outsider.function? 0).all Function.isDeclaration = true ∧
    (outsider.function? 1).all (fun f => f.params = [3] &&
      f.instructions = [7, 8, 9, 10, 11]) = true := by
  decide +kernel

theorem isOf_outsider : (outsider.function? 1).any (fun f => !f.isDeclaration &&
    Symbol.isStructor f.name &&
    (Symbol.Method.ofSymbol? f.name).map Symbol.Method.owner = some "Owner") = true := by
  decide +kernel

theorem isInside_outsider {this v : ValueId} (h : IsInside outsider outsiderModule "Owner" this v) :
    this = 3 ∧ v ∈ [7, 8, 9, 10, 11] := by
  obtain ⟨id, hid, f, hf, hdefined, -, hthis, hv⟩ := h
  obtain ⟨hbase, howner⟩ := function?_outsider
  simp only [outsiderModule, List.mem_cons, List.not_mem_nil, or_false] at hid
  rcases hid with rfl | rfl
  · rw [hf, Option.all_some, hdefined] at hbase
    cases hbase
  · rw [hf, Option.all_some, Bool.and_eq_true, decide_eq_true_eq, decide_eq_true_eq] at howner
    rw [howner.1] at hthis
    rw [howner.2] at hv
    exact ⟨(Option.some.inj hthis).symm, hv⟩

/-- The constructor of `Base` is called on the object of the constructor of `Owner`. -/
theorem mem_edges_scan_outsider :
    outsider.Valid ∧ IsInside outsider outsiderModule "Owner" 3 8 ∧
      ("Owner", "Base") ∈ (scan outsider {} outsiderModule).2.edges := by
  have howner := isOf_outsider
  have hbody := function?_outsider.2
  rw [Option.any_eq_true] at howner
  obtain ⟨f, hf, hkind⟩ := howner
  simp only [hf, Option.all_some, Bool.and_eq_true, decide_eq_true_eq] at hbody
  simp only [Bool.and_eq_true, Bool.not_eq_true', decide_eq_true_eq] at hkind
  have hinside : IsInside outsider outsiderModule "Owner" 3 8 := by
    refine ⟨1, by decide, f, hf, hkind.1.1, ⟨hkind.1.2, hkind.2⟩, ?_, ?_⟩
    · rw [hbody.1]
      rfl
    · rw [hbody.2]
      decide
  have hcall : CallsOnObject outsider 3 "Base" 8 :=
    ⟨⟨0, [7], 11, false⟩, 0, 7, rfl, rfl,
      ⟨by decide +kernel, by decide +kernel⟩, rfl, rfl⟩
  refine ⟨valid_outsider, hinside, ?_⟩
  rw [mem_edges_scan valid_outsider]
  exact .inr ⟨by decide, .inl ⟨3, 8, hinside, .inl hcall⟩⟩

/-- The vtable of `Member` is stored into a local variable, and nothing else shows that `Owner`
would inherit from `Member`. -/
theorem mem_edges_outsider :
    ("Owner", "Member") ∈ (scan outsider {} outsiderModule).2.edges ∧
      ("Owner", "Member") ∉ ({} : Hierarchy).edges ∧
      ¬ ∃ this v, IsInside outsider outsiderModule "Owner" this v ∧
        (CallsOnObject outsider this "Member" v ∨
          ∃ ptr, StoresVtable outsider "Member" v ptr ∧ Derived outsider this ptr) := by
  have hthis : (outsider.value? 3).map Value.kind = some (.argument 1 0) := rfl
  have hstored : ∀ v ∈ [7, 8, 9, 10, 11], base? outsider 3 v = some "Member" →
      outsider.store? v = some (6, 10) := by decide +kernel
  refine ⟨by decide +kernel, by decide, ?_⟩
  rintro ⟨this, v, hinside, hshows⟩
  obtain ⟨rfl, hv⟩ := isInside_outsider hinside
  rcases hshows with hcall | ⟨ptr, hstore, hptr⟩
  · have hstore := hstored v hv ((base?_eq_some_iff hthis).2 (.inl hcall))
    obtain ⟨call, -, -, hopcode, -⟩ := hcall
    rw [Program.opcode?_of_store? hstore] at hopcode
    cases hopcode
  · have hvalue := hstored v hv ((base?_eq_some_iff hthis).2 (.inr ⟨ptr, hstore⟩))
    obtain ⟨value, hstore, -⟩ := hstore
    rw [hstore] at hvalue
    cases hvalue
    -- The pointer is that of the local variable behind a conversion.
    have hlocal : ¬ Derived outsider 3 9 :=
      not_derived (by decide) rfl rfl rfl
    have hcast : outsider.cast? 10 = some (.bitCast, 9) := rfl
    have hgep : outsider.gep? 10 = none := rfl
    have hload : outsider.load? 10 = none := rfl
    cases hptr with
    | cast hcast' hoperand =>
      rw [hcast] at hcast'
      cases hcast'
      exact hlocal hoperand
    | gep hgep' hbase =>
      rw [hgep] at hgep'
      cases hgep'
    | reload hstore' hload' =>
      rw [hload] at hload'
      cases hload'

end Structor

end CallTargets
