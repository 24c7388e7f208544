import CallTargets.Proofs.Program.Change

/-!
# Types that follow from operands

In a well-typed program (`Program.WellTyped`) the type of each value is the one that its operands
ask for. Typing looks at types only, and a type never changes once it is there, but for structs
that are given their fields. Indices lead nowhere from a struct without fields, so giving it
some disturbs no address computation (`TypeTable.Fills.follow?`). As long as no struct is given
fields a second time, changes keep a program well typed (`Change.wellTyped`).
-/

namespace CallTargets

/-! ## Tables of types -/

/-- The second table has all types of the first one, and structs without fields may have been
given some. -/
def TypeTable.Fills (types types' : TypeTable) : Prop :=
  ∀ (t : TypeId) (ty : Ty), types.get? t = some ty → types'.get? t = some ty ∨
    ∃ name bodiless fields, ty = .struct (some name) [] bodiless ∧
      types'.get? t = some (.struct (some name) fields false)

namespace TypeTable.Fills

variable {types types' types'' : TypeTable} {t t' : TypeId}

theorem refl (types : TypeTable) : types.Fills types := fun _ _ => .inl

theorem trans (h : types.Fills types') (h' : types'.Fills types'') : types.Fills types'' := by
  intro t ty ht
  rcases h t ty ht with ht' | ⟨name, bodiless, fields, rfl, ht'⟩
  · exact h' t ty ht'
  · rcases h' t _ ht' with ht'' | ⟨_, _, fields', heq, ht''⟩
    · exact .inr ⟨name, bodiless, fields, rfl, ht''⟩
    · cases heq
      exact .inr ⟨_, bodiless, fields', rfl, ht''⟩

theorem push (hnew : Ty) : types.Fills ⟨types.types.push hnew⟩ :=
  fun _ _ ht => .inl (Program.get?_push_eq_some_iff.2 (.inl ht))

theorem setBody {name : String} {fields : List TypeId} {bodiless : Bool}
    (hstruct : types.get? t = some (.struct (some name) [] bodiless)) :
    types.Fills ⟨types.types.setIfInBounds t.index (.struct (some name) fields false)⟩ := by
  intro t' ty ht'
  have hlt : t.index < types.types.size := (Array.getElem?_eq_some_iff.1 hstruct).1
  rw [get?, Array.getElem?_setIfInBounds]
  by_cases hindex : t.index = t'.index
  · obtain rfl : t = t' := congrArg TypeId.mk hindex
    rw [if_pos rfl, if_pos hlt]
    exact .inr ⟨name, bodiless, fields, Option.some.inj (ht'.symm.trans hstruct), rfl⟩
  · rw [if_neg hindex]
    exact .inl ht'

variable (h : types.Fills types')
include h

theorem get? {ty : Ty} (hty : ty.isStruct = false) (ht : types.get? t = some ty) :
    types'.get? t = some ty := by
  rcases h t ty ht with ht | ⟨name, bodiless, fields, rfl, -⟩
  · exact ht
  · cases hty

theorem pointee? (ht : types.pointee? t = some t') : types'.pointee? t = some t' := by
  obtain ⟨ty, hty, hpointee⟩ := Option.bind_eq_some_iff.1 ht
  cases ty with
  | pointer s =>
    rw [TypeTable.pointee?, h.get? rfl hty]
    exact hpointee
  | _ => cases hpointee

theorem element? {index : Option Int} (ht : types.element? t index = some t') :
    types'.element? t index = some t' := by
  obtain ⟨ty, hty, helement⟩ := Option.bind_eq_some_iff.1 ht
  rcases h t ty hty with hty | ⟨name, bodiless, fields, rfl, -⟩
  · rw [TypeTable.element?, hty]
    exact helement
  · cases index with
    | none => cases helement
    | some n => simp [Ty.element?] at helement

theorem follow? {indices : List GepIndex} (ht : types.follow? t indices = some t') :
    types'.follow? t indices = some t' := by
  unfold TypeTable.follow? at ht ⊢
  induction indices generalizing t with
  | nil => exact ht
  | cons index indices ih =>
    rw [List.foldlM_cons] at ht ⊢
    obtain ⟨next, hnext, hrest⟩ := Option.bind_eq_some_iff.1 ht
    exact Option.bind_eq_some_iff.2 ⟨next, h.element? hnext, ih hrest⟩

end TypeTable.Fills

namespace Program

/-! ## Programs -/

/-- The second program extends the first one, and its types do too. -/
structure Refines (p p' : Program) : Prop extends p.Extends p' where
  fills : p.types.Fills p'.types

variable {p p' p'' : Program}

namespace Refines

theorem refl (p : Program) : p.Refines p := ⟨.refl p, .refl _⟩

theorem trans (h : p.Refines p') (h' : p'.Refines p'') : p.Refines p'' :=
  ⟨h.toExtends.trans h'.toExtends, h.fills.trans h'.fills⟩

variable (h : p.Refines p') {type t : TypeId} {v : ValueId}
include h

theorem type? (ht : p.type? v = some t) : p'.type? v = some t := by
  obtain ⟨val, hval, rfl⟩ := Option.map_eq_some_iff.1 ht
  obtain ⟨val', hval', htype, -⟩ := h.value hval
  rw [Program.type?, hval', Option.map_some, htype]

theorem pointee? (ht : p.pointee? v = some t) : p'.pointee? v = some t := by
  obtain ⟨type, htype, hpointee⟩ := Option.bind_eq_some_iff.1 ht
  exact Option.bind_eq_some_iff.2 ⟨type, h.type? htype, h.fills.pointee? hpointee⟩

theorem gepTyped {g : Gep} (hg : p.GepTyped type g) : p'.GepTyped type g := by
  obtain ⟨hbase, target, htarget, htype⟩ := hg
  exact ⟨h.pointee? hbase, target, h.fills.follow? htarget, h.fills.pointee? htype⟩

theorem opcodeTyped {op : Opcode} (hop : p.OpcodeTyped type op) : p'.OpcodeTyped type op := by
  cases op with
  | alloca allocated => exact h.fills.pointee? hop
  | load ptr => exact h.pointee? hop
  | gep g => exact h.gepTyped hop
  | call c =>
    obtain ⟨hcallee, params, variadic, htype⟩ := hop
    exact ⟨h.pointee? hcallee, params, variadic, h.fills.get? rfl htype⟩
  | _ => trivial

theorem constTyped {c : Const} (hc : p.ConstTyped type c) : p'.ConstTyped type c := by
  cases c with
  | gep g => exact h.gepTyped hc
  | _ => trivial

end Refines

/-- The type of a value is the one that follows from what it is. An argument is the value of its
function's parameter, and an address points to what it is the address of. -/
def KindTyped (p : Program) (v : ValueId) (type : TypeId) : ValueKind → Prop
  | .argument f index => ∃ fn, p.function? f = some fn ∧ fn.params[index]? = some v
  | .function f => ∃ fn, p.function? f = some fn ∧ p.types.pointee? type = some fn.type
  | .global g => ∃ gl, p.global? g = some gl ∧ p.types.pointee? type = some gl.type
  | .const c => p.ConstTyped type c
  | .instr i => p.OpcodeTyped type i.opcode

/-- The function has a function type, and for each parameter one argument, which has the type
of the parameter. -/
def FunctionTyped (p : Program) (f : FunctionId) (fn : Function) : Prop :=
  ∃ ret params variadic, p.types.get? fn.type = some (.function ret params variadic) ∧
    fn.params.length = params.length ∧
    ∀ (index : Nat) (t : TypeId), params[index]? = some t → ∃ v val,
      fn.params[index]? = some v ∧ p.value? v = some val ∧ val.type = t ∧
        val.kind = .argument f index

/-- The types of values and functions follow from what they are. -/
structure WellTyped (p : Program) : Prop where
  value : ∀ {v : ValueId} {val : Value}, p.value? v = some val → p.KindTyped v val.type val.kind
  function : ∀ {f : FunctionId} {fn : Function}, p.function? f = some fn → p.FunctionTyped f fn

namespace Refines

variable (h : p.Refines p')
include h

theorem kindTyped {v : ValueId} {type : TypeId} {k : ValueKind} (hk : p.KindTyped v type k) :
    p'.KindTyped v type k := by
  cases k with
  | argument f index =>
    obtain ⟨fn, hf, hparam⟩ := hk
    obtain ⟨fn', hf', -, hparams, -⟩ := h.function hf
    exact ⟨fn', hf', hparams ▸ hparam⟩
  | function f =>
    obtain ⟨fn, hf, htype⟩ := hk
    obtain ⟨fn', hf', hsame, -, -⟩ := h.function hf
    exact ⟨fn', hf', hsame ▸ h.fills.pointee? htype⟩
  | global g =>
    obtain ⟨gl, hg, htype⟩ := hk
    obtain ⟨gl', hg', hsame⟩ := h.global hg
    exact ⟨gl', hg', hsame ▸ h.fills.pointee? htype⟩
  | const c => exact h.constTyped hk
  | instr i => exact h.opcodeTyped hk

theorem functionTyped {f : FunctionId} {fn : Function} (hf : p.FunctionTyped f fn) :
    p'.FunctionTyped f fn := by
  obtain ⟨ret, params, variadic, htype, hlength, hparams⟩ := hf
  refine ⟨ret, params, variadic, h.fills.get? rfl htype, hlength, fun index t ht => ?_⟩
  obtain ⟨v, val, hv, hval, rfl, hkind⟩ := hparams index t ht
  obtain ⟨val', hval', htype', hkind'⟩ := h.value hval
  exact ⟨v, val', hv, hval', htype', hkind'.trans hkind⟩

end Refines

/-- Types go on to follow from what values are when a program is extended by values of which
they do. -/
theorem WellTyped.extend (hp : p.WellTyped) (h : p.Refines p')
    (hvalue : ∀ {v val}, p'.value? v = some val →
      (∃ val', p.value? v = some val' ∧ val'.type = val.type ∧ val'.kind = val.kind) ∨
        p'.KindTyped v val.type val.kind)
    (hfunction : ∀ {f fn}, p'.function? f = some fn →
      (∃ fn', p.function? f = some fn' ∧ fn'.type = fn.type ∧ fn'.params = fn.params) ∨
        p'.FunctionTyped f fn) : p'.WellTyped where
  value hv := by
    rcases hvalue hv with ⟨val', hval', htype, hkind⟩ | hv
    · exact htype ▸ hkind ▸ h.kindTyped (hp.value hval')
    · exact hv
  function {f fn} hf := by
    rcases hfunction hf with ⟨fn', hfn', htype, hparams⟩ | hf
    · have hold := h.functionTyped (hp.function hfn')
      unfold FunctionTyped at hold ⊢
      rwa [htype, hparams] at hold
    · exact hf

/-! ## Changes -/

theorem Change.refines (h : Change False p p') : p.Refines p' := by
  refine ⟨h.extends, ?_⟩
  cases h with
  | addType => exact .push _
  | setBody hstruct hfields hold =>
    obtain rfl := hold.resolve_left id
    exact .setBody hstruct
  | _ => exact .refl _

section WellTyped

variable (hp : p.WellTyped)
include hp

theorem wellTyped_of_same (h : p.Refines p') (hvalues : p'.values = p.values)
    (hfunctions : p'.functions = p.functions) : p'.WellTyped := by
  refine hp.extend h (fun {v val} hv => .inl ⟨val, ?_, rfl, rfl⟩)
    fun {f fn} hf => .inl ⟨fn, ?_, rfl, rfl⟩
  · rwa [value?, hvalues] at hv
  · rwa [function?, hfunctions] at hf

theorem wellTyped_changeFunction {f : FunctionId} {change : Function → Function}
    (h : p.Refines (p.changeFunction f change))
    (hchange : ∀ fn, (change fn).type = fn.type ∧ (change fn).params = fn.params) :
    (p.changeFunction f change).WellTyped := by
  refine hp.extend h (fun hv => .inl ⟨_, hv, rfl, rfl⟩) fun {f' fn} hf => ?_
  obtain ⟨fn', hfn', rfl⟩ := function?_changeFunction hf
  refine .inl ⟨fn', hfn', ?_⟩
  split
  · exact ⟨(hchange fn').1.symm, (hchange fn').2.symm⟩
  · exact ⟨rfl, rfl⟩

theorem wellTyped_addValue {type : TypeId} {kind : ValueKind}
    (h : p.Refines (p.addValue type kind).2)
    (hkind : (p.addValue type kind).2.KindTyped ⟨p.values.size⟩ type kind) :
    (p.addValue type kind).2.WellTyped := by
  refine hp.extend h (fun {v val} hv => ?_) fun hf => .inl ⟨_, hf, rfl, rfl⟩
  rcases value?_addValue.1 hv with hv | ⟨hindex, rfl⟩
  · exact .inl ⟨val, hv, rfl, rfl⟩
  · obtain rfl : v = ⟨p.values.size⟩ := congrArg ValueId.mk hindex
    exact .inr hkind

theorem wellTyped_pushFunction {m : ModuleId} {name : String} {type addressType ret : TypeId}
    {params : List TypeId} {variadic : Bool}
    (htype : p.types.get? type = some (.function ret params variadic))
    (haddress : p.types.get? addressType = some (.pointer type))
    (h : p.Refines (p.pushFunction m name type addressType params)) :
    (p.pushFunction m name type addressType params).WellTyped := by
  have hnew : (p.pushFunction m name type addressType params).function? ⟨p.functions.size⟩ =
      some (declaration m name type params p.values.size) :=
    getElem?_push_eq_some_iff.2 (.inr ⟨rfl, rfl⟩)
  refine hp.extend h (fun {v val} hv => ?_) fun {f fn} hf => ?_
  · rcases value?_pushFunction.1 hv with hv | ⟨-, rfl⟩ | ⟨index, t, ht, hindex, rfl⟩
    · exact .inl ⟨val, hv, rfl, rfl⟩
    · refine .inr ⟨_, hnew, ?_⟩
      rw [TypeTable.pointee?, h.fills.get? rfl haddress]
      rfl
    · have hlt : index < params.length := (List.getElem?_eq_some_iff.1 ht).1
      exact .inr ⟨_, hnew, getElem?_params_declaration.2 ⟨hlt, congrArg ValueId.mk hindex⟩⟩
  · rcases getElem?_push_eq_some_iff.1 hf with hf | ⟨hindex, rfl⟩
    · exact .inl ⟨fn, hf, rfl, rfl⟩
    · obtain rfl : f = ⟨p.functions.size⟩ := congrArg FunctionId.mk hindex
      refine .inr ⟨ret, params, variadic, h.fills.get? rfl htype, ?_, fun index t ht => ?_⟩
      · rw [declaration, List.length_map, List.length_range]
      · have hlt : index < params.length := (List.getElem?_eq_some_iff.1 ht).1
        exact ⟨_, _, getElem?_params_declaration.2 ⟨hlt, rfl⟩,
          value?_pushFunction.2 (.inr (.inr ⟨index, t, ht, rfl, rfl⟩)), rfl, rfl⟩

theorem Change.wellTyped (h : Change False p p') : p'.WellTyped := by
  have href := h.refines
  cases h with
  | addType => exact wellTyped_of_same hp href rfl rfl
  | setBody => exact wellTyped_of_same hp href rfl rfl
  | addModule => exact wellTyped_of_same hp href rfl rfl
  | listStruct => exact wellTyped_of_same hp href rfl rfl
  | addFunction name hm htype haddress => exact wellTyped_pushFunction hp htype haddress href
  | openEntry f =>
    refine wellTyped_changeFunction hp href fun fn => ?_
    split
    · exact ⟨rfl, rfl⟩
    · exact ⟨rfl, rfl⟩
  | addBlock f => exact wellTyped_changeFunction hp href fun fn => ⟨rfl, rfl⟩
  | setLinkage f linkage => exact wellTyped_changeFunction hp href fun fn => ⟨rfl, rfl⟩
  | addGlobal name hm htype haddress hinit =>
    refine hp.extend href (fun {v val} hv => ?_) fun hf => .inl ⟨_, hf, rfl, rfl⟩
    rcases value?_addValue.1 hv with hv | ⟨-, rfl⟩
    · exact .inl ⟨val, hv, rfl, rfl⟩
    · refine .inr ⟨_, getElem?_push_eq_some_iff.2 (.inr ⟨rfl, rfl⟩), ?_⟩
      rw [TypeTable.pointee?, href.fills.get? rfl haddress]
      rfl
  | setInit => exact wellTyped_of_same hp href rfl rfl
  | setGlobalLinkage => exact wellTyped_of_same hp href rfl rfl
  | nameValue v name =>
    refine hp.extend href (fun {w val} hw => ?_) fun hf => .inl ⟨_, hf, rfl, rfl⟩
    obtain ⟨val', hval', rfl⟩ := getElem?_modify_eq_some hw
    refine .inl ⟨val', hval', ?_⟩
    split
    · exact ⟨rfl, rfl⟩
    · exact ⟨rfl, rfl⟩
  | addConst htype hkind hoperands htyped =>
    exact wellTyped_addValue hp href (href.constTyped htyped)
  | @addInstr site type op htype hblock hop hoperands htyped =>
    have hadd : p.Refines
        (p.addValue type (.instr ⟨site.function, site.block, op, site.loc⟩)).2 :=
      ⟨extends_addValue p _ _, .refl _⟩
    have hlist : Refines _ (p.addInstr site type op).2 := ⟨extends_changeFunction _ fun fn =>
      ⟨rfl, rfl, Nat.le_of_eq (List.length_modify _ _ _).symm⟩, .refl _⟩
    exact wellTyped_changeFunction (wellTyped_addValue hp hadd (hadd.opcodeTyped htyped)) hlist
      fun fn => ⟨rfl, rfl⟩

theorem wellTyped_withUses : p.withUses.WellTyped := by
  have hrefines : p.Refines p.withUses :=
    { Refines.refl p with
      function := fun {f fn} hf => by
        rw [function?_withUses, hf]
        exact ⟨_, rfl, rfl, rfl, Nat.le_refl _⟩ }
  refine hp.extend hrefines (fun hv => .inl ⟨_, hv, rfl, rfl⟩) fun {f fn} hf => .inl ?_
  rw [function?_withUses] at hf
  obtain ⟨fn', hfn', rfl⟩ := Option.map_eq_some_iff.1 hf
  exact ⟨fn', hfn', rfl, rfl⟩

end WellTyped

end Program

end CallTargets
