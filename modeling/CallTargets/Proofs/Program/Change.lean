import CallTargets.Program.Request
import CallTargets.Proofs.Program.Valid
import Mathlib.Logic.Relation

/-!
# What requests change

A request changes a program in a few ways only (`Program.Change`), each of which names
entities that are there. Records are never taken away, and what they say about themselves stays
(`Program.Extends`). So a record that passes its check goes on to pass it, and what is left to
show of a change is that the records it touches pass theirs (`RecordsOk.extend`).
-/

namespace CallTargets

variable {f : FunctionId} {type t addressType : TypeId} {v : ValueId} {m : ModuleId} {name : String}
  {g : GlobalId} {ty : Ty} {place : Nat} {val : Value} {params : List TypeId}
  {change : Function → Function}

section Arrays

variable {α : Type} {xs : Array α} {a b : α} {i j : Nat}

theorem getElem?_push_eq_some_iff :
    (xs.push a)[i]? = some b ↔ xs[i]? = some b ∨ i = xs.size ∧ a = b := by
  rw [Array.getElem?_push]
  by_cases hi : i = xs.size
  · simp [hi]
  · simp [hi]

theorem getElem?_concat_eq_some {l : List α} (h : (l ++ [a])[i]? = some b) :
    l[i]? = some b ∨ i = l.length ∧ a = b := by
  rw [List.getElem?_append] at h
  split at h
  · exact .inl h
  · rw [List.getElem?_singleton] at h
    split at h
    · exact .inr ⟨by omega, Option.some.inj h⟩
    · cases h

theorem getElem?_modify_eq_some {f : α → α} (h : (xs.modify i f)[j]? = some b) :
    ∃ a, xs[j]? = some a ∧ b = if i = j then f a else a := by
  rw [Array.getElem?_modify] at h
  by_cases hi : i = j
  · rw [if_pos hi] at h
    obtain ⟨a, ha, rfl⟩ := Option.map_eq_some_iff.1 h
    exact ⟨a, ha, (if_pos hi).symm⟩
  · rw [if_neg hi] at h
    exact ⟨b, h, (if_neg hi).symm⟩

theorem getElem?_modify_of_eq_some (f : α → α) (h : xs[j]? = some a) :
    (xs.modify i f)[j]? = some (if i = j then f a else a) := by
  rw [Array.getElem?_modify, h]
  split
  · rfl
  · rfl

end Arrays

namespace Program

variable {p p' p'' : Program}

def Has (p : Program) : Entity → Prop
  | .type t => p.HasType t
  | .value v => p.HasValue v
  | .function f => p.HasFunction f
  | .global g => p.HasGlobal g
  | .module m => p.HasModule m
  | .block f b => p.HasBlock f b

/-! ## Programs that extend others -/

/-- The second program has all records of the first one, up to what requests may change in
them. -/
structure Extends (p p' : Program) : Prop where
  types : p.types.size ≤ p'.types.size
  modules : p.modules.size ≤ p'.modules.size
  value : ∀ {v : ValueId} {val : Value}, p.value? v = some val →
    ∃ val', p'.value? v = some val' ∧ val'.type = val.type ∧ val'.kind = val.kind
  function : ∀ {f : FunctionId} {fn : Function}, p.function? f = some fn →
    ∃ fn', p'.function? f = some fn' ∧ fn'.type = fn.type ∧ fn'.params = fn.params ∧
      fn.blocks.length ≤ fn'.blocks.length
  global : ∀ {g : GlobalId} {gl : Global}, p.global? g = some gl →
    ∃ gl', p'.global? g = some gl' ∧ gl'.type = gl.type

namespace Extends

theorem refl (p : Program) : p.Extends p where
  types := Nat.le_refl _
  modules := Nat.le_refl _
  value h := ⟨_, h, rfl, rfl⟩
  function h := ⟨_, h, rfl, rfl, Nat.le_refl _⟩
  global h := ⟨_, h, rfl⟩

theorem trans (h : p.Extends p') (h' : p'.Extends p'') : p.Extends p'' where
  types := Nat.le_trans h.types h'.types
  modules := Nat.le_trans h.modules h'.modules
  value hv := by
    obtain ⟨val, hval, ht, hk⟩ := h.value hv
    obtain ⟨val', hval', ht', hk'⟩ := h'.value hval
    exact ⟨val', hval', ht'.trans ht, hk'.trans hk⟩
  function hf := by
    obtain ⟨fn, hfn, ht, hparams, hblocks⟩ := h.function hf
    obtain ⟨fn', hfn', ht', hparams', hblocks'⟩ := h'.function hfn
    exact ⟨fn', hfn', ht'.trans ht, hparams'.trans hparams, Nat.le_trans hblocks hblocks'⟩
  global hg := by
    obtain ⟨gl, hgl, ht⟩ := h.global hg
    obtain ⟨gl', hgl', ht'⟩ := h'.global hgl
    exact ⟨gl', hgl', ht'.trans ht⟩

variable (h : p.Extends p')
include h

theorem hasType (ht : p.HasType t) : p'.HasType t := Nat.lt_of_lt_of_le ht h.types

theorem hasModule (hm : p.HasModule m) : p'.HasModule m :=
  Nat.lt_of_lt_of_le hm h.modules

theorem hasValue (hv : p.HasValue v) : p'.HasValue v := by
  obtain ⟨val, hval⟩ := exists_value hv
  obtain ⟨val', hval', -⟩ := h.value hval
  exact hasValue_of_eq_some hval'

theorem hasFunction (hf : p.HasFunction f) : p'.HasFunction f := by
  obtain ⟨fn', hfn', -⟩ := h.function (f := f) (Array.getElem?_eq_getElem hf)
  exact (Array.getElem?_eq_some_iff.1 hfn').1

theorem hasGlobal (hg : p.HasGlobal g) : p'.HasGlobal g := by
  obtain ⟨gl', hgl', -⟩ := h.global (g := g) (Array.getElem?_eq_getElem hg)
  exact (Array.getElem?_eq_some_iff.1 hgl').1

theorem hasBlock {b : BlockId} (hb : p.HasBlock f b) : p'.HasBlock f b := by
  unfold HasBlock at hb ⊢
  cases hf : p.function? f with
  | none => simp [hf] at hb
  | some fn =>
    obtain ⟨fn', hfn', -, -, hblocks⟩ := h.function hf
    rw [hf] at hb
    rw [hfn']
    exact Nat.lt_of_lt_of_le hb hblocks

theorem has {e : Entity} (he : p.Has e) : p'.Has e := by
  cases e with
  | type t => exact h.hasType he
  | value v => exact h.hasValue he
  | function f => exact h.hasFunction he
  | global g => exact h.hasGlobal he
  | module m => exact h.hasModule he
  | block f b => exact h.hasBlock he

theorem kind_eq {k : ValueKind} (hk : (p.value? v).map Value.kind = some k) :
    (p'.value? v).map Value.kind = some k := by
  obtain ⟨val, hval, rfl⟩ := Option.map_eq_some_iff.1 hk
  obtain ⟨val', hval', -, hkind⟩ := h.value hval
  rw [hval', Option.map_some, hkind]

/-! ### Checks that are passed -/

theorem typeOk (ht : p.TypeOk t ty) : p'.TypeOk t ty :=
  fun part hpart => ⟨h.hasType (ht part hpart).1, (ht part hpart).2⟩

theorem moduleOk {m : Module} (hm : p.ModuleOk place m) : p'.ModuleOk place m where
  id := hm.id
  functions f hf := h.hasFunction (hm.functions f hf)
  globals g hg := h.hasGlobal (hm.globals g hg)
  structs t ht := h.hasType (hm.structs t ht)

theorem blockOk {b : Block} (hb : p.BlockOk f place b) : p'.BlockOk f place b where
  id := hb.id
  instr v hv := by
    obtain ⟨hvalue, i, hi, hplace⟩ := hb.instr v hv
    exact ⟨h.hasValue hvalue, i, instr?_eq_some_iff.2 (h.kind_eq (instr?_eq_some_iff.1 hi)), hplace⟩

theorem functionOk {fn : Function} (hf : p.FunctionOk f fn) : p'.FunctionOk f fn where
  type := h.hasType hf.type
  module := h.hasModule hf.module
  hasValue := h.hasValue hf.hasValue
  value := function?_bind_eq_some_iff.2 (h.kind_eq (function?_bind_eq_some_iff.1 hf.value))
  param index v hv := ⟨h.hasValue (hf.param index v hv).1, h.kind_eq (hf.param index v hv).2⟩
  block place b hb := h.blockOk (hf.block place b hb)

theorem globalOk {gl : Global} (hg : p.GlobalOk g gl) : p'.GlobalOk g gl where
  module := h.hasModule hg.module
  type := h.hasType hg.type
  hasValue := h.hasValue hg.hasValue
  value := global?_bind_eq_some_iff.2 (h.kind_eq (global?_bind_eq_some_iff.1 hg.value))
  init v hv := h.hasValue (hg.init v hv)

theorem opcodeOk {op : Opcode} (hop : p.OpcodeOk f op) : p'.OpcodeOk f op := by
  cases op with
  | alloca t => exact h.hasType hop
  | gep g => exact h.hasType hop
  | call c => exact h.hasType hop
  | branch condition targets => exact fun b hb => h.hasBlock (hop b hb)
  | _ => trivial

theorem kindOk {k : ValueKind} (hk : p.KindOk k) : p'.KindOk k := by
  cases k with
  | argument f _ => exact h.hasFunction hk
  | function f => exact h.hasFunction hk
  | global g => exact h.hasGlobal hk
  | const c =>
    cases c with
    | gep g => exact h.hasType hk
    | _ => trivial
  | instr i => exact ⟨h.hasFunction hk.1, h.hasBlock hk.2.1, h.opcodeOk hk.2.2⟩

theorem valueOk (hv : p.ValueOk v val) : p'.ValueOk v val where
  type := h.hasType hv.type
  kind := h.kindOk hv.kind
  operand w hw := ⟨h.hasValue (hv.operand w hw).1, (hv.operand w hw).2⟩

end Extends

/-- If all records pass their checks, they go on to do so when a program is extended by others
that do. -/
theorem RecordsOk.extend (hp : p.RecordsOk) (h : p.Extends p')
    (htype : ∀ {t ty}, p'.types.get? t = some ty → p.types.get? t = some ty ∨ p'.TypeOk t ty)
    (hmodule : ∀ {i m}, p'.module? i = some m → p.module? i = some m ∨ p'.ModuleOk i.index m)
    (hfunction : ∀ {f fn}, p'.function? f = some fn →
      p.function? f = some fn ∨ p'.FunctionOk f fn)
    (hglobal : ∀ {g gl}, p'.global? g = some gl → p.global? g = some gl ∨ p'.GlobalOk g gl)
    (hvalue : ∀ {v val}, p'.value? v = some val → p.value? v = some val ∨ p'.ValueOk v val) :
    p'.RecordsOk where
  type ht := (htype ht).elim (fun ht => h.typeOk (hp.type ht)) id
  module hm := (hmodule hm).elim (fun hm => h.moduleOk (hp.module hm)) id
  function hf := (hfunction hf).elim (fun hf => h.functionOk (hp.function hf)) id
  global hg := (hglobal hg).elim (fun hg => h.globalOk (hp.global hg)) id
  value hv := (hvalue hv).elim (fun hv => h.valueOk (hp.value hv)) id

/-! ## Types of operands -/

end Program

def TypeTable.follow? (types : TypeTable) (current : TypeId) (indices : List GepIndex) :
    Option TypeId :=
  indices.foldlM (fun current index => types.element? current index.const?) current

namespace Program

variable {p p' : Program}

/-- The base of an address computation points to its source, and a result of the type points
to what the indices lead to. -/
def GepTyped (p : Program) (type : TypeId) (g : Gep) : Prop :=
  p.pointee? g.base = some g.source ∧
    ∃ target, p.types.follow? g.source g.indices.tail = some target ∧
      p.types.pointee? type = some target

/-- A result of the type follows from the operands. -/
def OpcodeTyped (p : Program) (type : TypeId) : Opcode → Prop
  | .alloca allocated => p.types.pointee? type = some allocated
  | .load ptr => p.pointee? ptr = some type
  | .gep g => p.GepTyped type g
  | .call c => p.pointee? c.callee = some c.type ∧
      ∃ params variadic, p.types.get? c.type = some (.function type params variadic)
  | _ => True

def ConstTyped (p : Program) (type : TypeId) : Const → Prop
  | .gep g => p.GepTyped type g
  | _ => True

/-! ## Changes -/

/-- A change that a request can make. Structs that have fields may get other ones only if
`refill` holds. -/
inductive Change (refill : Prop) (p : Program) : Program → Prop where
  | addType {ty : Ty} (hnew : p.types.find? ty = none) (hparts : ∀ t ∈ ty.parts, p.HasType t) :
      Change refill p { p with types := ⟨p.types.types.push ty⟩ }
  | setBody {t : TypeId} {name : String} {old fields : List TypeId} {bodiless : Bool}
      (hstruct : p.types.get? t = some (.struct (some name) old bodiless))
      (hfields : ∀ t ∈ fields, p.HasType t) (hold : refill ∨ old = []) :
      Change refill p { p with types :=
        ⟨p.types.types.setIfInBounds t.index (.struct (some name) fields false)⟩ }
  | addModule (name : String) : Change refill p (p.addModule name).2
  | listStruct (m : ModuleId) {t : TypeId} (ht : p.HasType t) : Change refill p (p.listStruct m t)
  | addFunction {m : ModuleId} {type addressType ret : TypeId} {params : List TypeId}
      {variadic : Bool} (name : String) (hm : p.HasModule m)
      (htype : p.types.get? type = some (.function ret params variadic))
      (haddress : p.types.get? addressType = some (.pointer type)) :
      Change refill p (p.pushFunction m name type addressType params)
  | openEntry (f : FunctionId) : Change refill p (p.openEntry f)
  | addBlock (f : FunctionId) : Change refill p (p.appendBlock f)
  | setLinkage (f : FunctionId) (linkage : Linkage) :
      Change refill p (p.changeFunction f fun f => { f with linkage })
  | addGlobal {m : ModuleId} {type addressType : TypeId} {init : Option ValueId} (name : String)
      (hm : p.HasModule m) (htype : p.HasType type)
      (haddress : p.types.get? addressType = some (.pointer type))
      (hinit : ∀ v, init = some v → p.HasValue v) :
      Change refill p (p.pushGlobal m name type addressType init)
  | setInit (g : GlobalId) {v : ValueId} (hv : p.HasValue v) :
      Change refill p (p.changeGlobal g fun g => { g with init := some v })
  | setGlobalLinkage (g : GlobalId) (linkage : Linkage) :
      Change refill p (p.changeGlobal g fun g => { g with linkage })
  | nameValue (v : ValueId) (name : String) : Change refill p (p.nameValue v name)
  | addConst {type : TypeId} {c : Const} (htype : p.HasType type) (hkind : p.KindOk (.const c))
      (hoperands : ∀ v ∈ c.operands, p.HasValue v) (htyped : p.ConstTyped type c) :
      Change refill p (p.addValue type (.const c)).2
  | addInstr {site : Site} {type : TypeId} {op : Opcode} (htype : p.HasType type)
      (hblock : p.HasBlock site.function site.block) (hop : p.OpcodeOk site.function op)
      (hoperands : ∀ v ∈ op.operands, p.HasValue v) (htyped : p.OpcodeTyped type op) :
      Change refill p (p.addInstr site type op).2

/-! ### What is there afterwards -/

section Lookups

theorem hasType_of_get? (h : p.types.get? t = some ty) : p.HasType t :=
  (Array.getElem?_eq_some_iff.1 h).1

theorem get?_push_eq_some_iff {types : TypeTable} {ty' : Ty} :
    (TypeTable.mk (types.types.push ty)).get? t = some ty' ↔
      types.get? t = some ty' ∨ t.index = types.size ∧ ty = ty' := getElem?_push_eq_some_iff

theorem value?_addValue {kind : ValueKind} :
    (p.addValue type kind).2.value? v = some val ↔
      p.value? v = some val ∨ v.index = p.values.size ∧ ⟨type, none, kind⟩ = val :=
  getElem?_push_eq_some_iff

theorem value?_addValue_self (p : Program) (type : TypeId) (kind : ValueKind) :
    (p.addValue type kind).2.value? ⟨p.values.size⟩ = some ⟨type, none, kind⟩ :=
  value?_addValue.2 (.inr ⟨rfl, rfl⟩)

theorem value?_pushFunction :
    (p.pushFunction m name type addressType params).value? v = some val ↔
      p.value? v = some val ∨
      v.index = p.values.size ∧ ⟨addressType, none, .function ⟨p.functions.size⟩⟩ = val ∨
      ∃ index t, params[index]? = some t ∧ v.index = p.values.size + 1 + index ∧
        ⟨t, none, .argument ⟨p.functions.size⟩ index⟩ = val := by
  have hget : (p.pushFunction m name type addressType params).value? v =
      (p.values.push ⟨addressType, none, .function ⟨p.functions.size⟩⟩ ++
        (arguments ⟨p.functions.size⟩ params).toArray)[v.index]? := rfl
  rw [hget, Array.getElem?_append, Array.size_push]
  by_cases hlt : v.index < p.values.size + 1
  · rw [if_pos hlt]
    refine getElem?_push_eq_some_iff.trans (or_congr_right ⟨.inl, ?_⟩)
    rintro (h | ⟨index, t, -, hindex, -⟩)
    · exact h
    · omega
  · rw [if_neg hlt, List.getElem?_toArray, arguments, List.getElem?_mapIdx, Option.map_eq_some_iff]
    have hnone : p.value? v ≠ some val := fun h => hlt (Nat.lt_succ_of_lt (hasValue_of_eq_some h))
    constructor
    · rintro ⟨t, ht, rfl⟩
      exact .inr (.inr ⟨_, t, ht, by omega, rfl⟩)
    · rintro (h | ⟨hindex, -⟩ | ⟨index, t, ht, hindex, rfl⟩)
      · exact absurd h hnone
      · omega
      · obtain rfl : index = v.index - (p.values.size + 1) := by omega
        exact ⟨t, ht, rfl⟩

theorem getElem?_params_declaration {index : Nat} :
    (declaration m name type params place).params[index]? = some v ↔
      index < params.length ∧ v = ⟨place + 1 + index⟩ := by
  rw [declaration, List.getElem?_map, Option.map_eq_some_iff]
  constructor
  · rintro ⟨i, hi, rfl⟩
    obtain ⟨hlt, rfl⟩ := List.getElem?_eq_some_iff.1 hi
    rw [List.length_range] at hlt
    exact ⟨hlt, by rw [List.getElem_range]⟩
  · rintro ⟨hlt, rfl⟩
    exact ⟨index, List.getElem?_range hlt, rfl⟩

theorem function?_changeFunction {f' : FunctionId} {fn : Function}
    (h : (p.changeFunction f change).function? f' = some fn) :
    ∃ fn', p.function? f' = some fn' ∧ fn = if f.index = f'.index then change fn' else fn' :=
  getElem?_modify_eq_some h

end Lookups

/-! ### Records stay -/

section Extends

theorem extends_addValue (p : Program) (type : TypeId) (kind : ValueKind) :
    p.Extends (p.addValue type kind).2 :=
  { Extends.refl p with value := fun hv => ⟨_, value?_addValue.2 (.inl hv), rfl, rfl⟩ }

theorem extends_changeModule (p : Program) (m : ModuleId) (change : Module → Module) :
    p.Extends (p.changeModule m change) :=
  { Extends.refl p with modules := Nat.le_of_eq Array.size_modify.symm }

theorem extends_changeFunction (f : FunctionId) {change : Function → Function}
    (hchange : ∀ fn, (change fn).type = fn.type ∧ (change fn).params = fn.params ∧
      fn.blocks.length ≤ (change fn).blocks.length) : p.Extends (p.changeFunction f change) where
  types := Nat.le_refl _
  modules := Nat.le_refl _
  value h := ⟨_, h, rfl, rfl⟩
  function {f' fn} h := by
    refine ⟨_, getElem?_modify_of_eq_some change h, ?_⟩
    split
    · exact hchange fn
    · exact ⟨rfl, rfl, Nat.le_refl _⟩
  global h := ⟨_, h, rfl⟩

theorem extends_changeGlobal (g : GlobalId) {change : Global → Global}
    (hchange : ∀ gl, (change gl).type = gl.type) : p.Extends (p.changeGlobal g change) where
  types := Nat.le_refl _
  modules := Nat.le_refl _
  value h := ⟨_, h, rfl, rfl⟩
  function h := ⟨_, h, rfl, rfl, Nat.le_refl _⟩
  global {g' gl} h := by
    refine ⟨_, getElem?_modify_of_eq_some change h, ?_⟩
    split
    · exact hchange gl
    · rfl

theorem Change.extends {refill : Prop} (h : Change refill p p') : p.Extends p' := by
  cases h with
  | addType => exact { Extends.refl p with types := by simp [TypeTable.size] }
  | setBody => exact { Extends.refl p with types := by simp [TypeTable.size] }
  | addModule => exact { Extends.refl p with modules := by simp [Program.addModule] }
  | listStruct m ht => exact extends_changeModule p m _
  | addFunction name hm htype haddress =>
    exact { Extends.refl p with
      modules := Nat.le_of_eq Array.size_modify.symm
      value := fun hv => ⟨_, value?_pushFunction.2 (.inl hv), rfl, rfl⟩
      function := fun hf => ⟨_, getElem?_push_eq_some_iff.2 (.inl hf), rfl, rfl, Nat.le_refl _⟩ }
  | openEntry f =>
    refine extends_changeFunction f fun fn => ?_
    split
    · rename_i hdeclaration
      rw [List.isEmpty_iff.1 hdeclaration]
      exact ⟨rfl, rfl, Nat.zero_le _⟩
    · exact ⟨rfl, rfl, Nat.le_refl _⟩
  | addBlock f =>
    refine extends_changeFunction f fun fn => ⟨rfl, rfl, ?_⟩
    rw [List.length_append]
    exact Nat.le_add_right _ _
  | setLinkage f linkage => exact extends_changeFunction f fun fn => ⟨rfl, rfl, Nat.le_refl _⟩
  | addGlobal name hm htype haddress hinit =>
    exact { Extends.refl p with
      modules := Nat.le_of_eq Array.size_modify.symm
      value := fun hv => ⟨_, value?_addValue.2 (.inl hv), rfl, rfl⟩
      global := fun hg => ⟨_, getElem?_push_eq_some_iff.2 (.inl hg), rfl⟩ }
  | setInit g hv => exact extends_changeGlobal g fun gl => rfl
  | setGlobalLinkage g linkage => exact extends_changeGlobal g fun gl => rfl
  | nameValue v name =>
    refine { Extends.refl p with
      value := fun {w val} hv => ⟨_, getElem?_modify_of_eq_some _ hv, ?_⟩ }
    split
    · exact ⟨rfl, rfl⟩
    · exact ⟨rfl, rfl⟩
  | addConst => exact extends_addValue p _ _
  | addInstr =>
    refine (extends_addValue p _ _).trans (extends_changeFunction _ fun fn => ⟨rfl, rfl, ?_⟩)
    exact Nat.le_of_eq (List.length_modify _ _ _).symm

end Extends

/-! ### Records pass their checks -/

section Records

variable (hp : p.RecordsOk)
include hp

theorem recordsOk_addValue {kind : ValueKind}
    (hvalue : (p.addValue type kind).2.ValueOk ⟨p.values.size⟩ ⟨type, none, kind⟩) :
    (p.addValue type kind).2.RecordsOk := by
  refine hp.extend (extends_addValue p type kind) .inl .inl .inl .inl fun {v val} hv => ?_
  rcases value?_addValue.1 hv with hv | ⟨hindex, rfl⟩
  · exact .inl hv
  · obtain rfl : v = ⟨p.values.size⟩ := congrArg ValueId.mk hindex
    exact .inr hvalue

theorem recordsOk_changeModule (m : ModuleId) {change : Module → Module}
    (hchange : ∀ {place m}, p.ModuleOk place m → p.ModuleOk place (change m)) :
    (p.changeModule m change).RecordsOk := by
  have hext := extends_changeModule p m change
  refine hp.extend hext .inl (fun {i mod} hm => .inr (hext.moduleOk ?_)) .inl .inl .inl
  obtain ⟨mod', hmod', rfl⟩ := getElem?_modify_eq_some hm
  split
  · exact hchange (hp.module hmod')
  · exact hp.module hmod'

theorem recordsOk_changeFunction {f : FunctionId} {change : Function → Function}
    (hext : p.Extends (p.changeFunction f change))
    (hchange : ∀ {fn}, p.function? f = some fn → p.FunctionOk f fn →
      (p.changeFunction f change).FunctionOk f (change fn)) :
    (p.changeFunction f change).RecordsOk := by
  refine hp.extend hext .inl .inl (fun {f' fn} hf => .inr ?_) .inl .inl
  obtain ⟨fn', hfn', rfl⟩ := getElem?_modify_eq_some hf
  split
  · rename_i hindex
    obtain rfl : f = f' := congrArg FunctionId.mk hindex
    exact hchange hfn' (hp.function hfn')
  · exact hext.functionOk (hp.function hfn')

theorem recordsOk_changeGlobal {change : Global → Global}
    (hext : p.Extends (p.changeGlobal g change))
    (hchange : ∀ {gl}, p.GlobalOk g gl → p.GlobalOk g (change gl)) :
    (p.changeGlobal g change).RecordsOk := by
  refine hp.extend hext .inl .inl .inl (fun {g' gl} hg => .inr (hext.globalOk ?_)) .inl
  obtain ⟨gl', hgl', rfl⟩ := getElem?_modify_eq_some hg
  split
  · rename_i hindex
    obtain rfl : g = g' := congrArg GlobalId.mk hindex
    exact hchange (hp.global hgl')
  · exact hp.global hgl'

theorem recordsOk_pushFunction {ret : TypeId} {variadic : Bool} (hm : p.HasModule m)
    (htype : p.types.get? type = some (.function ret params variadic))
    (haddress : p.HasType addressType)
    (hext : p.Extends (p.pushFunction m name type addressType params)) :
    (p.pushFunction m name type addressType params).RecordsOk := by
  have hnew : (p.pushFunction m name type addressType params).HasFunction ⟨p.functions.size⟩ := by
    unfold HasFunction
    exact Nat.lt_of_lt_of_eq (Nat.lt_succ_self _) (Array.size_push _).symm
  refine hp.extend hext .inl ?_ ?_ .inl ?_
  · intro i mod hmod
    obtain ⟨mod', hmod', rfl⟩ := getElem?_modify_eq_some hmod
    have hold := hext.moduleOk (hp.module hmod')
    split
    · refine .inr { hold with functions := fun f hf => ?_ }
      rcases List.mem_append.1 hf with hf | hf
      · exact hold.functions f hf
      · rw [List.mem_singleton.1 hf]
        exact hnew
    · exact .inl hmod'
  · intro f fn hf
    rcases getElem?_push_eq_some_iff.1 hf with hf | ⟨hindex, rfl⟩
    · exact .inl hf
    obtain rfl : f = ⟨p.functions.size⟩ := congrArg FunctionId.mk hindex
    have hvalue : (p.pushFunction m name type addressType params).value? ⟨p.values.size⟩ =
        some ⟨addressType, none, .function ⟨p.functions.size⟩⟩ :=
      value?_pushFunction.2 (.inr (.inl ⟨rfl, rfl⟩))
    refine .inr ⟨hext.hasType (hasType_of_get? htype), hext.hasModule hm,
      hasValue_of_eq_some hvalue, ?_, ?_, ?_⟩
    · exact function?_bind_eq_some_iff.2 (congrArg (Option.map Value.kind) hvalue)
    · intro index v hv
      obtain ⟨hindex, rfl⟩ := getElem?_params_declaration.1 hv
      have hget : (p.pushFunction m name type addressType params).value?
          ⟨p.values.size + 1 + index⟩ = some ⟨_, none, .argument ⟨p.functions.size⟩ index⟩ :=
        value?_pushFunction.2 (.inr (.inr ⟨index, _, List.getElem?_eq_getElem hindex, rfl, rfl⟩))
      exact ⟨hasValue_of_eq_some hget, congrArg (Option.map Value.kind) hget⟩
    · intro place b hb
      cases hb
  · intro v val hv
    rcases value?_pushFunction.1 hv with hv | ⟨-, rfl⟩ | ⟨index, t, ht, -, rfl⟩
    · exact .inl hv
    · exact .inr ⟨hext.hasType haddress, hnew, fun w hw => absurd hw List.not_mem_nil⟩
    · have hpart := hp.type htype t (List.mem_cons_of_mem ret (List.mem_of_getElem? ht))
      exact .inr ⟨hext.hasType hpart.1, hnew, fun w hw => absurd hw List.not_mem_nil⟩

theorem recordsOk_pushGlobal {init : Option ValueId} (hm : p.HasModule m) (htype : p.HasType type)
    (haddress : p.HasType addressType) (hinit : ∀ v, init = some v → p.HasValue v)
    (hext : p.Extends (p.pushGlobal m name type addressType init)) :
    (p.pushGlobal m name type addressType init).RecordsOk := by
  have hnew : (p.pushGlobal m name type addressType init).HasGlobal ⟨p.globals.size⟩ := by
    unfold HasGlobal
    exact Nat.lt_of_lt_of_eq (Nat.lt_succ_self _) (Array.size_push _).symm
  have hvalue : (p.pushGlobal m name type addressType init).value? ⟨p.values.size⟩ =
      some ⟨addressType, none, .global ⟨p.globals.size⟩⟩ := value?_addValue_self p _ _
  refine hp.extend hext .inl ?_ .inl ?_ ?_
  · intro i mod hmod
    obtain ⟨mod', hmod', rfl⟩ := getElem?_modify_eq_some hmod
    have hold := hext.moduleOk (hp.module hmod')
    split
    · refine .inr { hold with globals := fun g hg => ?_ }
      rcases List.mem_append.1 hg with hg | hg
      · exact hold.globals g hg
      · rw [List.mem_singleton.1 hg]
        exact hnew
    · exact .inl hmod'
  · intro g gl hg
    rcases getElem?_push_eq_some_iff.1 hg with hg | ⟨hindex, rfl⟩
    · exact .inl hg
    obtain rfl : g = ⟨p.globals.size⟩ := congrArg GlobalId.mk hindex
    exact .inr ⟨hext.hasModule hm, hext.hasType htype, hasValue_of_eq_some hvalue,
      global?_bind_eq_some_iff.2 (congrArg (Option.map Value.kind) hvalue),
      fun v hv => hext.hasValue (hinit v hv)⟩
  · intro v val hv
    rcases value?_addValue.1 hv with hv | ⟨-, rfl⟩
    · exact .inl hv
    · exact .inr ⟨hext.hasType haddress, hnew, fun w hw => absurd hw List.not_mem_nil⟩

theorem recordsOk_addInstr {site : Site} {op : Opcode} (htype : p.HasType type)
    (hblock : p.HasBlock site.function site.block) (hop : p.OpcodeOk site.function op)
    (hoperands : ∀ v ∈ op.operands, p.HasValue v) : (p.addInstr site type op).2.RecordsOk := by
  have hext := extends_addValue p type (.instr ⟨site.function, site.block, op, site.loc⟩)
  have hfunction : p.HasFunction site.function := by
    unfold HasBlock at hblock
    cases hf : p.function? site.function with
    | none => simp [hf] at hblock
    | some fn => exact (Array.getElem?_eq_some_iff.1 hf).1
  have hadded := recordsOk_addValue hp ⟨hext.hasType htype,
    ⟨hext.hasFunction hfunction, hext.hasBlock hblock, hext.opcodeOk hop⟩,
    fun w hw => ⟨hext.hasValue (hoperands w hw), .inl rfl⟩⟩
  have hnew : (p.addValue type (.instr ⟨site.function, site.block, op, site.loc⟩)).2.instr?
      ⟨p.values.size⟩ = some ⟨site.function, site.block, op, site.loc⟩ := by
    rw [instr?, value?_addValue_self]
    rfl
  have hext' : Extends _ (p.addInstr site type op).2 :=
    extends_changeFunction site.function fun fn =>
      ⟨rfl, rfl, Nat.le_of_eq (List.length_modify _ _ _).symm⟩
  refine recordsOk_changeFunction hadded hext' fun {fn} hfn hok => ?_
  refine { hext'.functionOk hok with block := fun place b hb => ?_ }
  rw [List.getElem?_modify] at hb
  obtain ⟨b', hb', rfl⟩ := Option.map_eq_some_iff.1 hb
  have hold := hext'.blockOk (hok.block place b' hb')
  split
  · rename_i hplace
    refine ⟨hold.id, fun v hv => ?_⟩
    rcases List.mem_append.1 hv with hv | hv
    · exact hold.instr v hv
    · rw [List.mem_singleton.1 hv]
      have hid : site.block = b'.id := congrArg BlockId.mk (hplace.trans hold.id.symm)
      exact ⟨hext'.hasValue (hasValue_of_eq_some (value?_addValue_self p _ _)), _, hnew, rfl, hid⟩
  · exact hold

theorem Change.recordsOk {refill : Prop} (h : Change refill p p') : p'.RecordsOk := by
  have hext := h.extends
  cases h with
  | @addType ty hnew hparts =>
    refine hp.extend hext (fun {t ty'} ht => ?_) .inl .inl .inl .inl
    rcases get?_push_eq_some_iff.1 ht with ht | ⟨hindex, rfl⟩
    · exact .inl ht
    · exact .inr fun part hpart =>
        ⟨hext.hasType (hparts part hpart), fun _ => hindex ▸ hparts part hpart⟩
  | @setBody t name old fields bodiless hstruct hfields hold =>
    refine hp.extend hext (fun {t' ty} ht => ?_) .inl .inl .inl .inl
    rw [TypeTable.get?, Array.getElem?_setIfInBounds] at ht
    split at ht
    · split at ht
      · cases ht
        exact .inr fun part hpart =>
          ⟨hext.hasType (hfields part hpart), fun hname => by cases hname⟩
      · cases ht
    · exact .inl ht
  | addModule name =>
    refine hp.extend hext .inl (fun {i m} hm => ?_) .inl .inl .inl
    rcases getElem?_push_eq_some_iff.1 hm with hm | ⟨hindex, rfl⟩
    · exact .inl hm
    · exact .inr ⟨hindex.symm, fun f hf => absurd hf List.not_mem_nil,
        fun g hg => absurd hg List.not_mem_nil, fun t ht => absurd ht List.not_mem_nil⟩
  | @listStruct m t ht =>
    refine recordsOk_changeModule hp m fun {place m} hm => { hm with structs := fun t' ht' => ?_ }
    split at ht'
    · exact hm.structs t' ht'
    · rcases List.mem_append.1 ht' with ht' | ht'
      · exact hm.structs t' ht'
      · rw [List.mem_singleton.1 ht']
        exact ht
  | addFunction name hm htype haddress =>
    exact recordsOk_pushFunction hp hm htype (hasType_of_get? haddress) hext
  | openEntry f =>
    refine recordsOk_changeFunction hp hext fun {fn} _ hok => ?_
    split
    · refine { hext.functionOk hok with block := fun place b hb => ?_ }
      rcases getElem?_concat_eq_some (l := []) hb with hb | ⟨rfl, rfl⟩
      · cases hb
      · exact ⟨rfl, fun v hv => absurd hv List.not_mem_nil⟩
    · exact hext.functionOk hok
  | addBlock f =>
    refine recordsOk_changeFunction hp hext fun {fn} _ hok => ?_
    refine { hext.functionOk hok with block := fun place b hb => ?_ }
    rcases getElem?_concat_eq_some hb with hb | ⟨rfl, rfl⟩
    · exact hext.blockOk (hok.block place b hb)
    · exact ⟨rfl, fun v hv => absurd hv List.not_mem_nil⟩
  | setLinkage f linkage =>
    exact recordsOk_changeFunction hp hext fun _ hok => { hext.functionOk hok with }
  | addGlobal name hm htype haddress hinit =>
    exact recordsOk_pushGlobal hp hm htype (hasType_of_get? haddress) hinit hext
  | setInit g hv =>
    refine recordsOk_changeGlobal hp hext fun hok => { hok with init := fun v h => ?_ }
    cases h
    exact hv
  | setGlobalLinkage g linkage => exact recordsOk_changeGlobal hp hext fun hok => { hok with }
  | nameValue v name =>
    refine hp.extend hext .inl .inl .inl .inl fun {w val} hw => ?_
    obtain ⟨val', hval', rfl⟩ := getElem?_modify_eq_some hw
    have hok := hext.valueOk (hp.value hval')
    split
    · exact .inr ⟨hok.type, hok.kind, hok.operand⟩
    · exact .inl hval'
  | addConst htype hkind hoperands htyped =>
    exact recordsOk_addValue hp ⟨hext.hasType htype, hext.kindOk hkind, fun w hw =>
      ⟨hext.hasValue (hoperands w hw), .inr (hoperands w hw)⟩⟩
  | addInstr htype hblock hop hoperands htyped =>
    exact recordsOk_addInstr hp htype hblock hop hoperands

end Records

end Program

end CallTargets
