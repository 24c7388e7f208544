import CallTargets.Program.Validate
import Mathlib.Data.List.Nodup

/-!
# What validation tells

`Program.validate` accepts a program exactly if every record in it passes the check of its
kind (`validate_eq_ok_iff`): each check is opened once into the facts that it tests. The
look-ups of the analysis only need the consequence that all names stored in a valid
program are in range, and that functions, variables, arguments and instructions agree with
the values that stand for them.

A valid program also has its derived data up to date (`Program.Valid`), which is how
documents are read (`valid_withUses`).
-/

namespace CallTargets

/-! ## Checks in sequence -/

section Checks

variable {ε α β : Type}

theorem seq_eq_ok {x : Except ε Unit} {f : Unit → Except ε β} {b : β} :
    x >>= f = .ok b ↔ x = .ok () ∧ f () = .ok b := by
  cases x with
  | error e => simp [bind, Except.bind]
  | ok a => simp [bind, Except.bind]

theorem bind_eq_ok {x : Except ε α} {f : α → Except ε β} {b : β} :
    x >>= f = .ok b ↔ ∃ a, x = .ok a ∧ f a = .ok b := by
  cases x with
  | error e => simp [bind, Except.bind]
  | ok a => simp [bind, Except.bind]

theorem forM_eq_ok {f : α → Except ε Unit} {l : List α} :
    l.forM f = .ok () ↔ ∀ a ∈ l, f a = .ok () := by
  induction l with
  | nil => simp [pure, Except.pure]
  | cons a l ih =>
    change (f a >>= fun _ => l.forM f) = _ ↔ _
    rw [seq_eq_ok, ih, List.forall_mem_cons]

theorem forM_zipIdx_eq_ok {f : α × Nat → Except ε Unit} {l : List α} :
    l.zipIdx.forM f = .ok () ↔ ∀ (i : Nat) (a : α), l[i]? = some a → f (a, i) = .ok () := by
  rw [forM_eq_ok]
  constructor
  · intro h i a ha
    exact h (a, i) (List.mk_mem_zipIdx_iff_getElem?.2 ha)
  · rintro h ⟨a, i⟩ hmem
    exact h i a (List.mk_mem_zipIdx_iff_getElem?.1 hmem)

theorem guard_eq_ok {c : Prop} [Decidable c] {e : ε} :
    (if c then pure () else throw e : Except ε Unit) = .ok () ↔ c := by
  by_cases h : c <;> simp [h, throw, throwThe, MonadExceptOf.throw, pure, Except.pure]

theorem refuse_eq_ok {c : Prop} [Decidable c] {e : ε} :
    (if c then throw e else pure () : Except ε Unit) = .ok () ↔ ¬ c := by
  by_cases h : c <;> simp [h, throw, throwThe, MonadExceptOf.throw, pure, Except.pure]

theorem pure_eq_ok : (pure () : Except ε Unit) = .ok () ↔ True := iff_of_true rfl trivial

theorem refuse_seq_eq_ok {c : Prop} [Decidable c] {e : ε} {f : Unit → Except ε β}
    {x : Except ε β} {b : β} :
    (if c then throw e >>= f else x) = .ok b ↔ ¬ c ∧ x = .ok b := by
  by_cases h : c <;> simp [h, throw, throwThe, MonadExceptOf.throw, bind, Except.bind]

end Checks

namespace Program

variable {v w u : ValueId} {f : FunctionId} {i : Instr} {c : Const} {op : Opcode} {site : CallSite}

variable {p : Program}

/-! ## Look-ups by kind -/

theorem instr?_eq_some_iff :
    p.instr? v = some i ↔ (p.value? v).map Value.kind = some (.instr i) := by
  cases hv : p.value? v with
  | none => simp [instr?, hv]
  | some val => cases hk : val.kind <;> simp [instr?, hv, Value.instr?, hk]

theorem const?_eq_some_iff :
    p.const? v = some c ↔ (p.value? v).map Value.kind = some (.const c) := by
  cases hv : p.value? v with
  | none => simp [const?, hv]
  | some val => cases hk : val.kind <;> simp [const?, hv, Value.const?, hk]

theorem function?_bind_eq_some_iff :
    (p.value? v).bind Value.function? = some f ↔
      (p.value? v).map Value.kind = some (.function f) := by
  cases hv : p.value? v with
  | none => simp
  | some val => cases hk : val.kind <;> simp [Value.function?, hk]

theorem global?_bind_eq_some_iff {g : GlobalId} :
    (p.value? v).bind Value.global? = some g ↔
      (p.value? v).map Value.kind = some (.global g) := by
  cases hv : p.value? v with
  | none => simp
  | some val => cases hk : val.kind <;> simp [Value.global?, hk]

theorem opcode?_eq_some_iff :
    p.opcode? v = some op ↔
      ∃ i : Instr, (p.value? v).map Value.kind = some (.instr i) ∧ i.opcode = op := by
  simp only [opcode?, Option.map_eq_some_iff (f := Instr.opcode), instr?_eq_some_iff]

theorem operands_of_instr (h : (p.value? v).map Value.kind = some (.instr i)) :
    p.operands v = i.opcode.operands := by
  obtain ⟨val, hval, hkind⟩ := Option.map_eq_some_iff.1 h
  simp [operands, hval, Value.operands, hkind]

theorem operands_of_const (h : (p.value? v).map Value.kind = some (.const c)) :
    p.operands v = c.operands := by
  obtain ⟨val, hval, hkind⟩ := Option.map_eq_some_iff.1 h
  simp [operands, hval, Value.operands, hkind]

theorem operands_of_opcode (h : p.opcode? v = some op) : p.operands v = op.operands := by
  obtain ⟨i, hi, rfl⟩ := opcode?_eq_some_iff.1 h
  exact operands_of_instr hi

theorem opcode?_eq_none {k : ValueKind} (h : (p.value? v).map Value.kind = some k)
    (hk : ∀ i, k ≠ .instr i) : p.opcode? v = none := by
  cases hop : p.opcode? v with
  | none => rfl
  | some op =>
    obtain ⟨i, hi, -⟩ := opcode?_eq_some_iff.1 hop
    exact absurd (Option.some.inj (h.symm.trans hi)) (hk i)

theorem cast?_eq_some_iff {op : CastOp} :
    p.cast? v = some (op, w) ↔ (p.value? v).map Value.kind = some (.const (.cast op w)) ∨
      p.opcode? v = some (.cast op w) := by
  rw [opcode?_eq_some_iff, cast?]
  cases (p.value? v).map Value.kind with
  | none => simp
  | some k =>
    cases k with
    | const c => cases c <;> simp
    | instr i =>
      obtain ⟨function, block, opcode, loc⟩ := i
      cases opcode <;> simp
    | _ => simp

theorem gep?_eq_some_iff {g : Gep} :
    p.gep? v = some g ↔ (p.value? v).map Value.kind = some (.const (.gep g)) ∨
      p.opcode? v = some (.gep g) := by
  rw [opcode?_eq_some_iff, gep?]
  cases (p.value? v).map Value.kind with
  | none => simp
  | some k =>
    cases k with
    | const c => cases c <;> simp
    | instr i =>
      obtain ⟨function, block, opcode, loc⟩ := i
      cases opcode <;> simp
    | _ => simp

theorem const?_of_elements? {elements : List ValueId} (h : p.elements? v = some elements) :
    p.const? v = some (.aggregate elements) := by
  unfold elements? at h
  split at h
  · cases h
    assumption
  · cases h

theorem cast?_of_bitCast? (h : p.bitCast? v = some w) : p.cast? v = some (.bitCast, w) := by
  unfold bitCast? at h
  split at h
  · cases h
    assumption
  · cases h

theorem opcode?_of_load? {ptr : ValueId} (h : p.load? v = some ptr) :
    p.opcode? v = some (.load ptr) := by
  unfold load? at h
  split at h
  · cases h
    assumption
  · cases h

theorem opcode?_of_store? {value ptr : ValueId} (h : p.store? v = some (value, ptr)) :
    p.opcode? v = some (.store value ptr) := by
  unfold store? at h
  split at h
  · cases h
    assumption
  · cases h

theorem opcode?_of_callSite? (h : p.callSite? v = some site) :
    p.opcode? v = some (.call site.call) := by
  unfold callSite? at h
  split at h
  · rename_i hi
    cases h
    rw [opcode?, hi]
    rfl
  · cases h

theorem mem_operands_callee (h : p.callSite? v = some site) : site.call.callee ∈ p.operands v := by
  rw [operands_of_opcode (opcode?_of_callSite? h)]
  exact List.mem_append_right _ List.mem_cons_self

/-! ## Names in range -/

def HasType (p : Program) (t : TypeId) : Prop := t.index < p.types.size

def HasValue (p : Program) (v : ValueId) : Prop := v.index < p.values.size

def HasFunction (p : Program) (f : FunctionId) : Prop := f.index < p.functions.size

def HasGlobal (p : Program) (g : GlobalId) : Prop := g.index < p.globals.size

def HasModule (p : Program) (m : ModuleId) : Prop := m.index < p.modules.size

theorem checkType_eq_ok {t : TypeId} : p.checkType t = .ok () ↔ p.HasType t := guard_eq_ok

theorem checkValue_eq_ok : p.checkValue v = .ok () ↔ p.HasValue v := guard_eq_ok

theorem checkFunction_eq_ok : p.checkFunction f = .ok () ↔ p.HasFunction f :=
  guard_eq_ok

theorem checkGlobal_eq_ok {g : GlobalId} : p.checkGlobal g = .ok () ↔ p.HasGlobal g :=
  guard_eq_ok

theorem checkModule_eq_ok {m : ModuleId} : p.checkModule m = .ok () ↔ p.HasModule m :=
  guard_eq_ok

theorem checkRole_eq_ok {role : Role} {holds : Bool} :
    checkRole v role holds = .ok () ↔ holds = true := guard_eq_ok

/-! ## Records that pass their checks -/

/-- The parts of a type exist, and come before it unless it is a named struct. -/
def TypeOk (p : Program) (id : TypeId) (ty : Ty) : Prop :=
  ∀ part ∈ ty.parts, p.HasType part ∧ (ty.structName? = none → part.index < id.index)

structure ModuleOk (p : Program) (place : Nat) (m : Module) : Prop where
  id : m.id.index = place
  functions : ∀ f ∈ m.functions, p.HasFunction f
  globals : ∀ g ∈ m.globals, p.HasGlobal g
  structs : ∀ t ∈ m.structs, p.HasType t

/-- A block has the name of its place and lists instructions that belong to it. -/
structure BlockOk (p : Program) (f : FunctionId) (place : Nat) (b : Block) : Prop where
  id : b.id.index = place
  instr : ∀ v ∈ b.instructions, p.HasValue v ∧
    ∃ i, p.instr? v = some i ∧ i.function = f ∧ i.block = b.id

/-- A function's address and arguments are the values that say so. -/
structure FunctionOk (p : Program) (id : FunctionId) (f : Function) : Prop where
  type : p.HasType f.type
  module : p.HasModule f.module
  hasValue : p.HasValue f.value
  value : (p.value? f.value).bind Value.function? = some id
  param : ∀ (index : Nat) (v : ValueId), f.params[index]? = some v →
    p.HasValue v ∧ (p.value? v).map Value.kind = some (.argument id index)
  block : ∀ (place : Nat) (b : Block), f.blocks[place]? = some b → p.BlockOk id place b

/-- A variable's address is the value that says so. -/
structure GlobalOk (p : Program) (id : GlobalId) (g : Global) : Prop where
  module : p.HasModule g.module
  type : p.HasType g.type
  hasValue : p.HasValue g.value
  value : (p.value? g.value).bind Value.global? = some id
  init : ∀ v, g.init = some v → p.HasValue v

def HasBlock (p : Program) (f : FunctionId) (b : BlockId) : Prop :=
  b.index < ((p.function? f).map (·.blocks.length)).getD 0

/-- What an instruction names besides its operands. -/
def OpcodeOk (p : Program) (f : FunctionId) : Opcode → Prop
  | .alloca allocated => p.HasType allocated
  | .gep g => p.HasType g.source
  | .call call => p.HasType call.type
  | .branch _ targets => ∀ b ∈ targets, p.HasBlock f b
  | _ => True

def KindOk (p : Program) : ValueKind → Prop
  | .argument f _ => p.HasFunction f
  | .function f => p.HasFunction f
  | .global g => p.HasGlobal g
  | .const (.gep g) => p.HasType g.source
  | .const _ => True
  | .instr i => p.HasFunction i.function ∧ p.HasBlock i.function i.block ∧
      p.OpcodeOk i.function i.opcode

/-- A value's type and operands exist; a constant is built from earlier values. -/
structure ValueOk (p : Program) (id : ValueId) (v : Value) : Prop where
  type : p.HasType v.type
  kind : p.KindOk v.kind
  operand : ∀ operand ∈ v.operands,
    p.HasValue operand ∧ (v.const? = none ∨ operand.index < id.index)

theorem validateType_eq_ok {id : TypeId} {ty : Ty} :
    p.validateType id ty = .ok () ↔ p.TypeOk id ty := by
  simp only [validateType, TypeOk, forM_eq_ok, seq_eq_ok, checkType_eq_ok, refuse_eq_ok]
  simp

theorem validateModule_eq_ok {place : Nat} {m : Module} :
    p.validateModule place m = .ok () ↔ p.ModuleOk place m := by
  simp only [validateModule, refuse_seq_eq_ok, seq_eq_ok, forM_eq_ok, checkFunction_eq_ok,
    checkGlobal_eq_ok, checkType_eq_ok, not_not]
  exact ⟨fun ⟨h₁, h₂, h₃, h₄⟩ => ⟨h₁, h₂, h₃, h₄⟩,
    fun h => ⟨h.id, h.functions, h.globals, h.structs⟩⟩

theorem validateBlock_eq_ok {place : Nat} {b : Block} :
    p.validateBlock f place b = .ok () ↔ p.BlockOk f place b := by
  simp only [validateBlock, refuse_seq_eq_ok, seq_eq_ok, forM_eq_ok, checkValue_eq_ok,
    checkRole_eq_ok, not_not, Option.any_eq_true, Bool.and_eq_true, decide_eq_true_eq]
  exact ⟨fun ⟨h₁, h₂⟩ => ⟨h₁, h₂⟩, fun h => ⟨h.id, h.instr⟩⟩

theorem validateFunction_eq_ok {id : FunctionId} {f : Function} :
    p.validateFunction id f = .ok () ↔ p.FunctionOk id f := by
  simp only [validateFunction, seq_eq_ok, forM_zipIdx_eq_ok, checkType_eq_ok, checkModule_eq_ok,
    checkValue_eq_ok, checkRole_eq_ok, validateBlock_eq_ok, decide_eq_true_eq]
  exact ⟨fun ⟨h₁, h₂, h₃, h₄, h₅, h₆⟩ => ⟨h₁, h₂, h₃, h₄, h₅, h₆⟩,
    fun h => ⟨h.type, h.module, h.hasValue, h.value, h.param, h.block⟩⟩

theorem validateGlobal_eq_ok {id : GlobalId} {g : Global} :
    p.validateGlobal id g = .ok () ↔ p.GlobalOk id g := by
  have hinit : g.init.forM p.checkValue = .ok () ↔ ∀ v, g.init = some v → p.HasValue v := by
    cases h : g.init with
    | none => simp [Option.forM, pure, Except.pure]
    | some v => simp [Option.forM, checkValue_eq_ok]
  simp only [validateGlobal, seq_eq_ok, checkType_eq_ok, checkModule_eq_ok, checkValue_eq_ok,
    checkRole_eq_ok, decide_eq_true_eq, hinit]
  exact ⟨fun ⟨h₁, h₂, h₃, h₄, h₅⟩ => ⟨h₁, h₂, h₃, h₄, h₅⟩,
    fun h => ⟨h.module, h.type, h.hasValue, h.value, h.init⟩⟩

theorem checkBlock_eq_ok {b : BlockId} :
    validateInstr.checkBlock p i b = .ok () ↔ p.HasBlock i.function b := guard_eq_ok

theorem validateInstr_eq_ok : p.validateInstr i = .ok () ↔ p.KindOk (.instr i) := by
  simp only [validateInstr, KindOk, seq_eq_ok, checkFunction_eq_ok, checkBlock_eq_ok]
  refine and_congr_right fun _ => and_congr_right fun _ => ?_
  cases i.opcode <;>
    simp only [OpcodeOk, checkType_eq_ok, forM_eq_ok, checkBlock_eq_ok, pure_eq_ok]

theorem validateValue_eq_ok {id : ValueId} {v : Value} :
    p.validateValue id v = .ok () ↔ p.ValueOk id v := by
  have hok : p.ValueOk id v ↔ p.HasType v.type ∧ p.KindOk v.kind ∧ ∀ operand ∈ v.operands,
      p.HasValue operand ∧ (v.const? = none ∨ operand.index < id.index) :=
    ⟨fun h => ⟨h.type, h.kind, h.operand⟩, fun ⟨h₁, h₂, h₃⟩ => ⟨h₁, h₂, h₃⟩⟩
  rw [hok, validateValue, seq_eq_ok, checkType_eq_ok]
  refine and_congr_right fun _ => ?_
  split <;> rename_i hkind <;> rw [hkind] <;>
    simp only [KindOk, validateInstr_eq_ok, seq_eq_ok, forM_eq_ok, checkType_eq_ok,
      checkFunction_eq_ok, checkGlobal_eq_ok, checkValue_eq_ok, checkRole_eq_ok, Bool.or_eq_true,
      Option.isNone_iff_eq_none, decide_eq_true_eq, true_and]

/-! ## Valid programs -/

structure RecordsOk (p : Program) : Prop where
  type : ∀ {i : TypeId} {ty : Ty}, p.types.get? i = some ty → p.TypeOk i ty
  module : ∀ {i : ModuleId} {m : Module}, p.module? i = some m → p.ModuleOk i.index m
  function : ∀ {i : FunctionId} {f : Function}, p.function? i = some f → p.FunctionOk i f
  global : ∀ {i : GlobalId} {g : Global}, p.global? i = some g → p.GlobalOk i g
  value : ∀ {i : ValueId} {v : Value}, p.value? i = some v → p.ValueOk i v

theorem validate_eq_ok_iff : p.validate = .ok () ↔ p.RecordsOk := by
  simp only [validate, validateTypes, seq_eq_ok, forM_zipIdx_eq_ok, Array.getElem?_toList,
    validateType_eq_ok, validateModule_eq_ok, validateFunction_eq_ok, validateGlobal_eq_ok,
    validateValue_eq_ok]
  constructor
  · rintro ⟨ht, hm, hf, hg, hv⟩
    exact ⟨ht _ _, hm _ _, hf _ _, hg _ _, hv _ _⟩
  · intro h
    exact ⟨fun i _ hi => h.type (i := ⟨i⟩) hi, fun i _ hi => h.module (i := ⟨i⟩) hi,
      fun i _ hi => h.function (i := ⟨i⟩) hi, fun i _ hi => h.global (i := ⟨i⟩) hi,
      fun i _ hi => h.value (i := ⟨i⟩) hi⟩

/-! ### Derived data -/

structure Notes {α : Type} (step : Array (List ValueId) → α → Array (List ValueId))
    (Adds : α → Nat → ValueId → Prop) : Prop where
  size : ∀ users a, (step users a).size = users.size
  mem : ∀ users a i u, u ∈ (step users a)[i]?.getD [] ↔
    u ∈ users[i]?.getD [] ∨ i < users.size ∧ Adds a i u

theorem Notes.foldl {α : Type} {step : Array (List ValueId) → α → Array (List ValueId)}
    {Adds : α → Nat → ValueId → Prop} (h : Notes step Adds) :
    Notes (fun users as => List.foldl step users as) fun as i u => ∃ a ∈ as, Adds a i u where
  size users as := by
    induction as generalizing users with
    | nil => rfl
    | cons a as ih => rw [List.foldl_cons, ih, h.size]
  mem users as i u := by
    induction as generalizing users with
    | nil => simp
    | cons a as ih =>
      rw [List.foldl_cons, ih, h.mem, h.size, List.exists_mem_cons_iff]
      tauto

theorem notes_noteUser (user : ValueId) :
    Notes (fun users operand => noteUser users user operand)
      fun operand i u => i = operand.index ∧ u = user where
  size _ _ := Array.size_modify
  mem users operand i u := by
    rw [noteUser, Array.getElem?_modify]
    by_cases hi : operand.index = i
    · subst hi
      cases hnoted : users[operand.index]? with
      | none =>
        have : ¬ operand.index < users.size := fun h => by simp [h] at hnoted
        simp [this]
      | some noted =>
        have hlt : operand.index < users.size := (Array.getElem?_eq_some_iff.1 hnoted).1
        by_cases hhead : noted.head? = some user
        · have : user ∈ noted := List.mem_of_mem_head? hhead
          simp only [if_true, Option.map_some, Option.getD_some, hhead, hlt, true_and]
          exact ⟨.inl, fun h => h.elim id fun e => e ▸ this⟩
        · simp [hhead, hlt, or_comm]
    · have : ¬ i = operand.index := fun h => hi h.symm
      simp [hi, this]

theorem notes_noteInit :
    Notes noteInit fun g i u => ∃ init, g.init = some init ∧ i = init.index ∧ u = g.value where
  size users g := by cases hinit : g.init <;> simp [noteInit, hinit]
  mem users g i u := by
    rw [noteInit]
    cases hinit : g.init with
    | none => simp
    | some init =>
      simp only [Option.elim_some, Array.getElem?_modify, Option.some.injEq, exists_eq_left']
      by_cases hi : init.index = i
      · subst hi
        by_cases hlt : init.index < users.size
        · simp [hlt, or_comm]
        · simp [hlt]
      · have : ¬ i = init.index := fun h => hi h.symm
        simp [hi, this]

theorem mem_valueIds : v ∈ p.valueIds ↔ p.HasValue v := by
  simp only [valueIds, List.mem_map, List.mem_range, HasValue]
  constructor
  · rintro ⟨i, hi, rfl⟩
    exact hi
  · exact fun h => ⟨v.index, h, rfl⟩

theorem nodup_valueIds (p : Program) : p.valueIds.Nodup :=
  List.nodup_range.map fun _ _ h => congrArg ValueId.index h

theorem exists_value (h : p.HasValue v) : ∃ val, p.value? v = some val :=
  ⟨p.values[v.index], Array.getElem?_eq_getElem h⟩

theorem hasValue_of_eq_some {val : Value} (h : p.value? v = some val) : p.HasValue v :=
  (Array.getElem?_eq_some_iff.1 h).1

theorem hasValue_of_mem_operands (h : v ∈ p.operands u) : p.HasValue u := by
  cases hu : p.value? u with
  | none => simp [operands, hu] at h
  | some val => exact hasValue_of_eq_some hu

theorem notes_noteOperands (p : Program) :
    Notes p.noteOperands fun v i u => ∃ operand ∈ p.operands v, i = operand.index ∧ u = v where
  size users v := (notes_noteUser v).foldl.size users (p.operands v)
  mem users v := (notes_noteUser v).foldl.mem users (p.operands v)

theorem mem_findUsers :
    u ∈ p.findUsers[v.index]?.getD [] ↔ p.HasValue v ∧
      (v ∈ p.operands u ∨ ∃ g ∈ p.globals, g.init = some v ∧ u = g.value) := by
  have hreverse : ∀ (users : Array (List ValueId)) (i : Nat),
      u ∈ (users.map List.reverse)[i]?.getD [] ↔ u ∈ users[i]?.getD [] := by
    intro users i
    rw [Array.getElem?_map]
    cases users[i]? <;> simp
  rw [findUsers, hreverse, notes_noteInit.foldl.mem, (notes_noteOperands p).foldl.mem,
    (notes_noteOperands p).foldl.size, Array.size_replicate]
  have hnone : u ∉ (Array.replicate p.values.size ([] : List ValueId))[v.index]?.getD [] := by
    rw [Array.getElem?_replicate]
    split <;> simp
  constructor
  · rintro ((h | ⟨hlt, w, hw, operand, hop, hi, rfl⟩) | ⟨hlt, g, hg, init, hinit, hi, rfl⟩)
    · exact absurd h hnone
    · obtain rfl : v = operand := congrArg ValueId.mk hi
      exact ⟨hlt, .inl hop⟩
    · obtain rfl : v = init := congrArg ValueId.mk hi
      exact ⟨hlt, .inr ⟨g, Array.mem_toList_iff.1 hg, hinit, rfl⟩⟩
  · rintro ⟨hlt, hop | ⟨g, hg, hinit, rfl⟩⟩
    · exact .inl (.inr ⟨hlt, u, mem_valueIds.2 (hasValue_of_mem_operands hop), v, hop, rfl, rfl⟩)
    · exact .inr ⟨hlt, g, Array.mem_toList_iff.2 hg, v, hinit, rfl, rfl⟩

theorem size_findUsers (p : Program) : p.findUsers.size = p.values.size := by
  rw [findUsers, Array.size_map, notes_noteInit.foldl.size, (notes_noteOperands p).foldl.size,
    Array.size_replicate]

/-- The program has no fault, and its derived data is up to date: the users of each value, and
the functions whose address is taken. Building and reading a program end with finding these, so
that each program which is built or read has them, and is valid if it has no fault. -/
structure Valid (p : Program) : Prop where
  checked : p.validate = .ok ()
  derived : p.withUses = p

theorem function?_withUses :
    p.withUses.function? f = (p.function? f).map fun fn =>
      { fn with addressTaken :=
          (p.findUsers[fn.value.index]?.getD []).any (p.takesAddress fn.value) } := by
  simp only [withUses, function?, Array.getElem?_map]
  rfl

theorem withUses_withUses (p : Program) : p.withUses.withUses = p.withUses := by
  have hmap : ∀ fs : Array Function, ∀ g : Function → Bool,
      (∀ f b, g { f with addressTaken := b } = g f) →
      (fs.map fun f => { f with addressTaken := g f }).map (fun f => { f with addressTaken := g f })
        = fs.map fun f => { f with addressTaken := g f } := by
    intro fs g hg
    simp only [Array.map_map]
    refine Array.map_congr_left fun f _ => ?_
    simp [hg]
  have := hmap p.functions
    (fun f => (p.findUsers[f.value.index]?.getD []).any (p.takesAddress f.value)) fun _ _ => rfl
  exact congrArg (fun fs => { p with users := p.findUsers, functions := fs }) this

theorem hasFunction_withUses : p.withUses.HasFunction f ↔ p.HasFunction f := by
  simp [HasFunction, withUses]

theorem hasBlock_withUses {b : BlockId} : p.withUses.HasBlock f b ↔ p.HasBlock f b := by
  rw [HasBlock, HasBlock, function?_withUses, Option.map_map]
  rfl

theorem kindOk_withUses {k : ValueKind} (h : p.KindOk k) : p.withUses.KindOk k := by
  cases k with
  | argument f _ => exact hasFunction_withUses.2 h
  | function f => exact hasFunction_withUses.2 h
  | global g => exact h
  | const c => cases c <;> exact h
  | instr i =>
    obtain ⟨hf, hb, ho⟩ := h
    refine ⟨hasFunction_withUses.2 hf, hasBlock_withUses.2 hb, ?_⟩
    cases hop : i.opcode with
    | branch condition targets =>
      rw [hop] at ho
      exact fun b hb => hasBlock_withUses.2 (ho b hb)
    | _ =>
      rw [hop] at ho
      exact ho

theorem valid_withUses (h : p.validate = .ok ()) : p.withUses.Valid := by
  refine ⟨validate_eq_ok_iff.2 ?_, p.withUses_withUses⟩
  have hp := validate_eq_ok_iff.1 h
  constructor
  · intro t ty ht
    exact hp.type ht
  · intro m mod hm
    obtain ⟨hid, hf, hg, hs⟩ := hp.module hm
    exact ⟨hid, fun f hmem => hasFunction_withUses.2 (hf f hmem), hg, hs⟩
  · intro f fn hf
    rw [function?_withUses, Option.map_eq_some_iff] at hf
    obtain ⟨fn', hf', rfl⟩ := hf
    obtain ⟨ht, hm, hv, hval, hparam, hblock⟩ := hp.function hf'
    exact ⟨ht, hm, hv, hval, hparam, fun place b hb =>
      ⟨(hblock place b hb).id, (hblock place b hb).instr⟩⟩
  · intro g glob hg
    obtain ⟨hm, ht, hv, hval, hinit⟩ := hp.global hg
    exact ⟨hm, ht, hv, hval, hinit⟩
  · intro v val hv
    obtain ⟨ht, hkind, hop⟩ := hp.value hv
    exact ⟨ht, kindOk_withUses hkind, hop⟩

namespace Valid

theorem records (h : p.Valid) : p.RecordsOk := validate_eq_ok_iff.1 h.checked

theorem module?_id (h : p.Valid) {m : Module} (hm : m ∈ p.modules.toList) :
    p.module? m.id = some m := by
  obtain ⟨i, hi, rfl⟩ := List.mem_iff_getElem.1 hm
  have hget : p.module? ⟨i⟩ = some p.modules.toList[i] := by
    simp only [module?, ← Array.getElem?_toList, List.getElem?_eq_getElem hi]
  have hid : p.modules.toList[i].id = ⟨i⟩ := congrArg ModuleId.mk (h.records.module hget).id
  rw [hid]
  exact hget

theorem mem_usersOf (h : p.Valid) :
    u ∈ p.usersOf v ↔ p.HasValue v ∧
      (v ∈ p.operands u ∨ ∃ g ∈ p.globals, g.init = some v ∧ u = g.value) := by
  have : p.users = p.findUsers := (congrArg Program.users h.derived).symm
  rw [usersOf, this]
  exact mem_findUsers

theorem getElem?_users (h : p.Valid) (hv : p.HasValue v) :
    p.users[v.index]? = some (p.usersOf v) := by
  have hsize : v.index < p.users.size := by
    rw [show p.users = p.findUsers from (congrArg Program.users h.derived).symm, size_findUsers]
    exact hv
  rw [usersOf, Array.getElem?_eq_getElem hsize]
  rfl

theorem hasValue_operand (h : p.Valid) (hv : v ∈ p.operands u) : p.HasValue v := by
  obtain ⟨val, hval⟩ := exists_value (hasValue_of_mem_operands hv)
  rw [operands, hval] at hv
  exact ((h.records.value hval).operand v hv).1

theorem hasValue_of_opcode? (h : p.Valid) (hop : p.opcode? v = some op) (hw : w ∈ op.operands) :
    p.HasValue w :=
  h.hasValue_operand (operands_of_opcode hop ▸ hw)

theorem hasValue_of_const? (h : p.Valid) (hc : p.const? v = some c) (hw : w ∈ c.operands) :
    p.HasValue w :=
  h.hasValue_operand (operands_of_const (const?_eq_some_iff.1 hc) ▸ hw)

theorem hasValue_of_cast? (h : p.Valid) {op : CastOp} (hcast : p.cast? v = some (op, w)) :
    p.HasValue w := by
  rcases cast?_eq_some_iff.1 hcast with hc | hop
  · exact h.hasValue_of_const? (const?_eq_some_iff.2 hc) List.mem_cons_self
  · exact h.hasValue_of_opcode? hop List.mem_cons_self

theorem hasValue_of_gep? (h : p.Valid) {g : Gep} (hg : p.gep? v = some g) : p.HasValue g.base := by
  rcases gep?_eq_some_iff.1 hg with hc | hop
  · exact h.hasValue_of_const? (const?_eq_some_iff.2 hc) List.mem_cons_self
  · exact h.hasValue_of_opcode? hop List.mem_cons_self

theorem hasValue_callee (h : p.Valid) (hsite : p.callSite? v = some site) :
    p.HasValue site.call.callee :=
  h.hasValue_operand (mem_operands_callee hsite)

theorem hasValue_user (h : p.Valid) (hu : u ∈ p.usersOf v) : p.HasValue u := by
  obtain ⟨-, hop | ⟨g, hg, -, rfl⟩⟩ := h.mem_usersOf.1 hu
  · exact hasValue_of_mem_operands hop
  · obtain ⟨i, hi, rfl⟩ := Array.mem_iff_getElem.1 hg
    exact (h.records.global (i := ⟨i⟩) (Array.getElem?_eq_getElem hi)).hasValue

end Valid

end Program

namespace Sample

/-- A value without a name. -/
def value (t : Nat) (kind : ValueKind) : Value := ⟨⟨t⟩, none, kind⟩

/-- An instruction in the first block of a function. -/
def instr (t f : Nat) (opcode : Opcode) : Value := value t (.instr ⟨⟨f⟩, 0, opcode, none⟩)

end Sample

end CallTargets
