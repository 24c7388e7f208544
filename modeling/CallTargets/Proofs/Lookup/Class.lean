import CallTargets.Proofs.Class.Range
import CallTargets.Proofs.Lookup.View

/-!
# Queries that recover classes

Constructors, vtables and virtual calls, as queries.
-/

namespace CallTargets

namespace Query

/-! ## Queries -/

/-- A pointer that was stored for an object is loaded again. -/
def isReloaded (this target user : ValueId) : Query Bool := do
  match ← store? user with
  | some (value, ptr) =>
    return value = this && (← any (← users ptr) fun load => do
      return load = target && (← load? load) = some ptr)
  | none => return false

def isSameObject (this v : ValueId) : Query Bool := do
  let target ← strip v
  return v = this || target = this || (← any (← users this) (isReloaded this target))

def vtableAt? (v : ValueId) : Query (Option String) := do
  match ← const? (← strip v) with
  | some (.gep g) =>
    match ← ofValue Value.global? (← strip g.base) with
    | some id =>
      let global ← global id
      return if global.isVtable then some global.name else none
    | none => return none
  | _ => return none

/-- The class whose constructor or destructor is called for an object. -/
def constructed? (this : ValueId) (call : Call) : Query (Option String) := do
  match ← baseFunction? call.callee, call.args[call.sret.toNat]? with
  | some f, some arg =>
    let callee ← functionName f
    return if Symbol.isStructor callee && (← callSite? (← strip arg)).isNone &&
        (← isSameObject this arg) then
      (Symbol.Method.ofSymbol? callee).map Symbol.Method.owner
    else none
  | _, _ => return none

def shownBase? (this v : ValueId) : Query (Option String) := do
  match ← opcode? v with
  | some (.call call) => constructed? this call
  | some (.store value _) => return (← vtableAt? value).bind Symbol.vtableClass?
  | _ => return none

/-- Records what a function shows, if it is a constructor or destructor. -/
def recordStructor (state : Nat × Hierarchy) (f : FunctionId) : Query (Nat × Hierarchy) := do
  let fn ← function f
  if !fn.isDeclaration && Symbol.isStructor fn.name then
    match Symbol.Method.ofSymbol? fn.name with
    | some { owner, .. } =>
      let state := (state.1, state.2.addClass owner)
      match fn.params.head? with
      | some this =>
        return (← filterMap (shownBase? this) (← instructionsOf f)).foldl
          (Structor.countInherit owner) state
      | none => return state
    | none => return state
  else return state

def scanStructors (h : Hierarchy) (m : Module) : Query (Nat × Hierarchy) :=
  fold recordStructor (0, h) m.functions

def plainEntry (v : ValueId) : Query Vtable.Entry := do
  match ← ofValue Value.kind v with
  | .function f => return .function f
  | .global g => return if (← global g).isTypeinfo then .typeinfo else .other
  | .const .null => return .null
  | .const (.int _) => return .offset
  | _ => return .other

def entry (v : ValueId) : Query Vtable.Entry := do
  match ← cast? v with
  | some (.intToPtr, _) => return .offset
  | _ => plainEntry (← strip v)

def isStruct (v : ValueId) : Query Bool := do ofType Ty.isStruct (← typeOf v)

def parts (elements : List ValueId) : Query (List ValueId) := do
  match elements with
  | [first, second] =>
    if (← isStruct first) && !(← isStruct second) && (← isComposite second) then
      return (← elements? first).getD elements
    else return elements
  | _ => return elements

def arrays (init : ValueId) : Query (List (List Vtable.Entry)) := do
  match ← elements? init with
  | some elements =>
    let found ← filterMap elements? (← parts elements)
    each (if found.isEmpty then [elements] else found) fun entries => each entries entry
  | none => return []

def thunkTarget? (f : FunctionId) : Query (Option FunctionId) := do
  return (← filterMap (fun site => baseFunction? site.call.callee) (← callSites f)).getLast?

def slotFunction? : Vtable.Entry → Query (Option FunctionId)
  | .function f => do
    if (Symbol.thunkKind? (← functionName f)).isSome then thunkTarget? f else return some f
  | _ => return none

def slots (table : List Vtable.Entry) : Query (List FunctionId) := do
  match ← filterMap slotFunction? table with
  | [] => return []
  | first :: rest =>
    return List.replicate ((Vtable.padding? table).getD 0) first ++ first :: rest

def recordEntry (c : String) (h : Hierarchy) : Vtable.Entry → Query Hierarchy
  | .offset => return h.addTrait c Traits.multipleInheritance
  | .function f => do
    match Symbol.Method.ofSymbol? (← functionName f) with
    | some method => return (h.inherit c method.owner).2
    | none => return h
  | _ => return h

def recordTable (c : String) (h : Hierarchy) (table : List Vtable.Entry) : Query Hierarchy := do
  return (← fold (recordEntry c) h table).addTable c (← slots table)

def recordVtable (h : Hierarchy) (c symbol : String) (init : ValueId) : Query Hierarchy := do
  let arrays ← arrays init
  let h ← fold (recordTable c) (h.setVtable c symbol) (arrays.flatMap Vtable.cut)
  let functions := arrays.flatten.filterMap Vtable.function?
  let pure ← all functions fun f => do return (← functionName f) = Symbol.pureVirtual
  return if !functions.isEmpty && pure then h.addTrait c Traits.pureAbstract else h

def vtableOf? (g : GlobalId) : Query (Option (String × String × ValueId)) := do
  let global ← global g
  return if global.isVtable then
      global.init.bind fun init =>
        (Symbol.vtableClass? global.name).map fun c => (c, global.name, init)
    else none

def scanVtables (h : Hierarchy) (m : Module) : Query (Nat × Hierarchy) := do
  let found ← filterMap vtableOf? m.globals
  return (found.length, ← fold (fun h (c, symbol, init) => recordVtable h c symbol init) h found)

/-- The address computation, if its base was loaded as a vtable and it has one index. -/
def slotAt? (address : ValueId) : Query (Option Gep) := do
  match ← opcode? address with
  | some (.gep g) =>
    let isVtable := (← load? g.base).isSome &&
      (← ofValue Value.name g.base).any fun name => Text.contains name "vtable"
    return if isVtable && g.indices.length = 1 then some g else none
  | _ => return none

def slotAddress? (call : Call) : Query (Option Gep) := do
  match call.args.head? with
  | some arg =>
    if (← baseFunction? call.callee).isSome || !(← isPointer arg) then return none
    else
      match ← load? call.callee with
      | some address => slotAt? address
      | none => return none
  | none => return none

def isVirtual (call : Call) : Query Bool := do return (← slotAddress? call).isSome

def slotOf? (call : Call) : Query (Option Nat) := do
  return (← slotAddress? call).bind Dispatch.place?

/-- The class of an object by the type of its pointer. -/
def classAt? (v : ValueId) : Query (Option String) := do
  match ← pointee? v with
  | some t => return (← ofType Ty.structName? t).bind Dispatch.className?
  | none => return none

def staticClass? (v : ValueId) : Query (Option String) := do
  match ← classAt? v with
  | some c => return some c
  | none => classAt? (← strip v)

def expected? (h : Hierarchy) (c : String) (slot : Nat) : Query (Option Symbol.Method) := do
  return (← each ((h.tablesOf c).filterMap (·[slot]?)) functionName).findSome? fun name =>
    if name = Symbol.pureVirtual then none else Symbol.Method.ofSymbol? name

def expectedFor (h : Hierarchy) (known : Option String) (slot : Option Nat) :
    Query (Option Symbol.Method) :=
  match known, slot with
  | some c, some slot => expected? h c slot
  | _, _ => return none

def isTarget (index : View.Index) (call : Call) (expected : Option Symbol.Method)
    (f : FunctionId) : Query Bool := do
  let name ← functionName f
  return name ≠ Symbol.pureVirtual &&
    (← signatureOf index f) = (← signature index call.type) &&
    expected.all fun method => Dispatch.isSameMethod method name

def virtualTargets (index : View.Index) (h : Hierarchy) (call : Call) :
    Query (OrdSet FunctionId) := do
  match Dispatch.object? call with
  | some this =>
    let slot ← slotOf? call
    let known := (← staticClass? this).filter (· ∈ h.classes)
    let expected ← expectedFor h known slot
    let found ← filter (isTarget index call expected)
      (Dispatch.candidates h (Dispatch.classesFrom h known) slot)
    return .ofList (← each found (definitionOf index))
  | none => return ∅

/-! ## Constructors and destructors -/

section Structor

variable {p : Program} (hp : p.Valid) {this v : ValueId} (hthis : p.HasValue this)
  (hv : p.HasValue v)
include hp

include hv in
theorem answer?_isReloaded (this target : ValueId) : (isReloaded this target v).answer? p =
    some (match p.store? v with
      | some (value, ptr) =>
        value = this && (p.usersOf ptr).any fun load => load = target && p.load? load = some ptr
      | none => false) := by
  simp only [isReloaded, answer?_bind, answer?_store? hv, Option.bind_some]
  cases hstore : p.store? v with
  | none => rfl
  | some store =>
    obtain ⟨value, ptr⟩ := store
    have hptr : p.HasValue ptr := hp.hasValue_of_opcode? (Program.opcode?_of_store? hstore)
      (List.mem_cons_of_mem _ List.mem_cons_self)
    have hloads : ∀ load ∈ p.usersOf ptr, (do
        return load = target && (← load? load) = some ptr : Query Bool).answer? p =
          some (load = target && p.load? load = some ptr) := fun load hload => by
      simp [answer?_load? (hp.hasValue_user hload)]
    simp only [answer?_bind, answer?_usersOf hptr hp, answer?_any hloads, Option.bind_some,
      answer?_pure]

include hthis hv in
theorem answer?_isSameObject :
    (isSameObject this v).answer? p = some (Structor.isSameObject p this v) := by
  have husers : (any (p.usersOf this) (isReloaded this (p.strip v))).answer? p = _ :=
    answer?_any fun user huser =>
      answer?_isReloaded hp (hp.hasValue_user huser) this (p.strip v)
  simp only [isSameObject, answer?_bind, answer?_strip hv hp, answer?_usersOf hthis hp, husers,
    Option.bind_some, answer?_pure]
  rfl

include hv in
theorem answer?_vtableAt? : (vtableAt? v).answer? p = some (Structor.vtable? p v) := by
  simp only [vtableAt?, Structor.vtable?, answer?_bind, answer?_strip hv hp,
    answer?_const? (hp.hasValue_strip hv), Option.bind_some]
  cases hconst : p.const? (p.strip v) with
  | none => rfl
  | some c =>
    cases c with
    | gep g =>
      have hbase : p.HasValue g.base := hp.hasValue_of_const? hconst List.mem_cons_self
      simp only [answer?_bind, answer?_strip hbase hp,
        answer?_globalAt (hp.hasValue_strip hbase), Option.bind_some, Option.bind_eq_bind]
      cases hvalue : p.value? (p.strip g.base) with
      | none => rfl
      | some x =>
        cases hid : x.global? with
        | none => simp [hid]
        | some id =>
          have hkind : (p.value? (p.strip g.base)).map Value.kind = some (.global id) :=
            Program.global?_bind_eq_some_iff.1 (by rw [hvalue, Option.bind_some, hid])
          obtain ⟨global, hglobal⟩ := Program.exists_global (hp.kindOk hkind)
          simp [hid, hglobal]
    | _ => rfl

include hthis in
theorem answer?_constructed? {call : Call} (hcall : p.opcode? v = some (.call call)) :
    (constructed? this call).answer? p = some (Structor.base? p this v) := by
  have hcallee : p.HasValue call.callee :=
    hp.hasValue_of_opcode? hcall (List.mem_append_right _ List.mem_cons_self)
  simp only [constructed?, Structor.base?, answer?_bind, hcall, answer?_baseFunction? hcallee hp,
    Option.bind_some, Option.bind_eq_bind]
  cases hbase : p.baseFunction? call.callee with
  | none => simp
  | some f =>
    cases harg : call.args[call.sret.toNat]? with
    | none => simp
    | some arg =>
      have hrange : p.HasValue arg := hp.hasValue_of_opcode? hcall
        (List.mem_append_left _ (List.mem_of_getElem? harg))
      simp [answer?_functionName (hp.hasFunction_base hbase), answer?_strip hrange hp,
        answer?_callSite? (hp.hasValue_strip hrange), answer?_isSameObject hp hthis hrange]

include hthis hv in
theorem answer?_shownBase? : (shownBase? this v).answer? p = some (Structor.base? p this v) := by
  rw [shownBase?, answer?_bind, answer?_opcode? hv, Option.bind_some]
  cases hop : p.opcode? v with
  | none => simp [Structor.base?, hop]
  | some op =>
    cases op with
    | call call => exact answer?_constructed? hp hthis hop
    | store value ptr =>
      have hvalue : p.HasValue value := hp.hasValue_of_opcode? hop List.mem_cons_self
      simp [Structor.base?, hop, answer?_vtableAt? hp hvalue]
    | _ => simp [Structor.base?, hop]

theorem answer?_recordStructor {f : FunctionId} {fn : Function} (hf : p.function? f = some fn)
    (state : Nat × Hierarchy) : (recordStructor state f).answer? p =
      some (if !fn.isDeclaration && Symbol.isStructor fn.name then Structor.record p state fn
        else state) := by
  have hinstr : p.instructionsOf f = fn.instructions := by
    rw [Program.instructionsOf, hf]
    rfl
  simp only [recordStructor, Structor.record, answer?_bind, answer?_function, hf, answer?_ite,
    Option.bind_some]
  split
  · cases Symbol.Method.ofSymbol? fn.name with
    | none => rfl
    | some method =>
      cases hthis : fn.params.head? with
      | none => simp
      | some this =>
        have hthis : p.HasValue this :=
          ((hp.records.function hf).param 0 this (List.head?_eq_getElem? ▸ hthis)).1
        have hbases : (filterMap (shownBase? this) (p.instructionsOf f)).answer? p = _ :=
          answer?_filterMap fun v hv => answer?_shownBase? hp hthis (hp.hasValue_instruction hv)
        rw [hinstr] at hbases
        simp [answer?_instructionsOf (Program.hasFunction_of_eq_some hf), hinstr, hbases]
  · rfl

theorem answer?_scanStructors {m : Module} (hm : m ∈ p.modules.toList) (h : Hierarchy) :
    (scanStructors h m).answer? p = some (Structor.scan p h m) := by
  rw [scanStructors, Structor.scan, List.foldl_filter, List.foldl_filterMap]
  refine answer?_fold (fun state f hf => ?_) (0, h)
  obtain ⟨fn, hfn⟩ := Program.exists_function (hp.hasFunction_of_mem_module hm hf)
  rw [answer?_recordStructor hp hfn, hfn]

end Structor

/-! ## Vtables -/

section Vtable

variable {p : Program} (hp : p.Valid) {v : ValueId} (hv : p.HasValue v)
include hp

include hv in
theorem answer?_plainEntry : (plainEntry v).answer? p = some (Vtable.plainEntry p v) := by
  obtain ⟨x, hx⟩ := Program.exists_value hv
  have hok := (hp.records.value hx).kind
  simp only [plainEntry, Vtable.plainEntry, answer?_bind, ofValue, answer?_value, hx,
    Option.bind_some, answer?_pure, Option.map_some]
  cases hkind : x.kind with
  | global g =>
    rw [hkind] at hok
    obtain ⟨global, hglobal⟩ := Program.exists_global hok
    simp [hglobal]
  | const c => cases c <;> rfl
  | _ => rfl

include hv in
theorem answer?_entry : (entry v).answer? p = some (Vtable.entry p v) := by
  have hplain := answer?_plainEntry hp (hp.hasValue_strip hv)
  simp only [entry, Vtable.entry, answer?_bind, answer?_cast? hv, Option.bind_some]
  rcases p.cast? v with _ | ⟨op, operand⟩
  · simp [answer?_strip hv hp, hplain]
  · cases op <;> simp [answer?_strip hv hp, hplain]

include hv in
theorem answer?_isStruct : (isStruct v).answer? p = some ((p.type? v).any p.types.isStruct) := by
  simp [isStruct, answer?_typeOf hv, answer?_isStructType (hp.hasType_typeOf hv),
    Program.type?_eq_typeOf hv]

theorem answer?_parts {elements : List ValueId} (helements : ∀ v ∈ elements, p.HasValue v) :
    (parts elements).answer? p = some (Vtable.parts p elements) := by
  rcases elements with _ | ⟨first, _ | ⟨second, _ | ⟨third, rest⟩⟩⟩
  · rfl
  · rfl
  · have hfirst : p.HasValue first := helements first List.mem_cons_self
    have hsecond : p.HasValue second := helements second (List.mem_cons_of_mem _ List.mem_cons_self)
    simp only [parts, Vtable.parts, answer?_bind, answer?_ite, answer?_isStruct hp hfirst,
      answer?_isStruct hp hsecond, answer?_isComposite hsecond hp, answer?_elements? hfirst,
      Option.bind_some, answer?_pure]
    split <;> rfl
  · rfl

include hv in
theorem answer?_arrays : (arrays v).answer? p = some (Vtable.arrays p v) := by
  have hentries : ∀ {vs : List ValueId}, (∀ u ∈ vs, p.HasValue u) →
      (each vs entry).answer? p = some (vs.map (Vtable.entry p)) := fun hvs =>
    answer?_each fun u hu => answer?_entry hp (hvs u hu)
  simp only [arrays, Vtable.arrays, answer?_bind, answer?_elements? hv, Option.bind_some]
  cases helements : p.elements? v with
  | none => rfl
  | some elements =>
    have hrange : ∀ u ∈ elements, p.HasValue u := fun u hu =>
      Vtable.hasValue_of_elements? hp helements hu
    have hfound : (filterMap elements? (Vtable.parts p elements)).answer? p = _ :=
      answer?_filterMap fun u hu =>
        answer?_elements? (Vtable.hasValue_of_mem_parts hp hrange hu)
    have hnested : ∀ vs ∈ (Vtable.parts p elements).filterMap p.elements?, ∀ u ∈ vs,
        p.HasValue u := by
      intro vs hvs u hu
      obtain ⟨w, -, hw⟩ := List.mem_filterMap.1 hvs
      exact Vtable.hasValue_of_elements? hp hw hu
    simp only [answer?_bind, answer?_parts hp hrange, hfound, Option.bind_some]
    generalize (Vtable.parts p elements).filterMap p.elements? = found at hnested ⊢
    cases found with
    | nil => exact answer?_each fun vs hvs => hentries (List.mem_singleton.1 hvs ▸ hrange)
    | cons first rest => exact answer?_each fun vs hvs => hentries (hnested vs hvs)

theorem answer?_thunkTarget? {f : FunctionId} (hf : p.HasFunction f) :
    (thunkTarget? f).answer? p = some (Vtable.thunkTarget? p f) := by
  have htargets : (filterMap (fun site => baseFunction? site.call.callee)
      (p.callSites f)).answer? p = _ :=
    answer?_filterMap fun site hsite => answer?_baseFunction? (hp.hasValue_calleeOf hsite) hp
  simp [thunkTarget?, answer?_callSites hf hp, htargets, Vtable.thunkTarget?]

theorem answer?_slotFunction? {e : Vtable.Entry} (he : e.InRange p) :
    (slotFunction? e).answer? p = some (Vtable.slot? p e) := by
  cases e with
  | function f =>
    have hf : p.HasFunction f := he
    simp only [slotFunction?, Vtable.slot?, answer?_bind, answer?_ite, answer?_functionName hf,
      answer?_thunkTarget? hp hf, Option.bind_some, answer?_pure]
    split <;> rfl
  | _ => rfl

theorem answer?_slots {table : List Vtable.Entry} (htable : ∀ e ∈ table, e.InRange p) :
    (slots table).answer? p = some (Vtable.slots p table) := by
  have hslots : (filterMap slotFunction? table).answer? p = _ :=
    answer?_filterMap fun e he => answer?_slotFunction? hp (htable e he)
  simp only [slots, Vtable.slots, answer?_bind, hslots, Option.bind_some]
  cases table.filterMap (Vtable.slot? p) <;> rfl

omit hp in
theorem answer?_recordEntry {e : Vtable.Entry} (he : e.InRange p) (c : String) (h : Hierarchy) :
    (recordEntry c h e).answer? p = some (Vtable.recordEntry p c h e) := by
  cases e with
  | function f =>
    simp only [recordEntry, Vtable.recordEntry, Vtable.recordOwner, answer?_bind,
      answer?_functionName (show p.HasFunction f from he), Option.bind_some]
    cases Symbol.Method.ofSymbol? (p.functionName f) <;> rfl
  | _ => rfl

theorem answer?_recordTable {table : List Vtable.Entry} (htable : ∀ e ∈ table, e.InRange p)
    (c : String) (h : Hierarchy) :
    (recordTable c h table).answer? p = some (Vtable.recordTable p c h table) := by
  have hentries : (fold (recordEntry c) h table).answer? p = _ :=
    answer?_fold (fun h e he => answer?_recordEntry (htable e he) c h) h
  simp [recordTable, hentries, answer?_slots hp htable, Vtable.recordTable]

include hv in
theorem answer?_recordVtable (h : Hierarchy) (c symbol : String) :
    (recordVtable h c symbol v).answer? p = some (Vtable.record p h c symbol v) := by
  have htables : (fold (recordTable c) (h.setVtable c symbol)
      ((Vtable.arrays p v).flatMap Vtable.cut)).answer? p =
        some (((Vtable.arrays p v).flatMap Vtable.cut).foldl (Vtable.recordTable p c)
          (h.setVtable c symbol)) := by
    refine answer?_fold (fun h table htable => answer?_recordTable hp (fun e he => ?_) c h) _
    obtain ⟨array, harray, htable⟩ := List.mem_flatMap.1 htable
    exact Vtable.inRange_of_mem_arrays hp harray (Vtable.mem_of_mem_cut htable he)
  have hpure : (all ((Vtable.arrays p v).flatten.filterMap Vtable.function?) fun f => do
      return (← functionName f) = Symbol.pureVirtual).answer? p =
        some (((Vtable.arrays p v).flatten.filterMap Vtable.function?).all fun f =>
          p.functionName f = Symbol.pureVirtual) := by
    refine answer?_all fun f hf => ?_
    obtain ⟨e, he, hfunction⟩ := List.mem_filterMap.1 hf
    obtain ⟨array, harray, he⟩ := List.mem_flatten.1 he
    have hrange := Vtable.inRange_of_mem_arrays hp harray he
    cases e with
    | function g =>
      cases hfunction
      simp [answer?_functionName (show p.HasFunction f from hrange)]
    | _ => cases hfunction
  simp only [recordVtable, Vtable.record_eq, answer?_bind, answer?_arrays hp hv, htables, hpure,
    Option.bind_some, answer?_pure]

omit hp in
theorem answer?_vtableOf? {g : GlobalId} (hg : p.HasGlobal g) :
    (vtableOf? g).answer? p = some (Vtable.ofGlobal? p g) := by
  obtain ⟨global, hglobal⟩ := Program.exists_global hg
  simp only [vtableOf?, Vtable.ofGlobal?, answer?_bind, answer?_global, hglobal, Option.bind_some,
    answer?_pure, Option.bind_eq_bind]
  cases global.isVtable <;> cases global.init <;> cases Symbol.vtableClass? global.name <;> rfl

theorem answer?_scanVtables {m : Module} (hm : m ∈ p.modules.toList) (h : Hierarchy) :
    (scanVtables h m).answer? p = some (Vtable.scan p h m) := by
  have hfound : (filterMap vtableOf? m.globals).answer? p = _ :=
    answer?_filterMap fun g hg => answer?_vtableOf? (hp.hasGlobal_of_mem_module hm hg)
  have hrecord : (fold (fun h (c, symbol, init) => recordVtable h c symbol init) h
      (m.globals.filterMap (Vtable.ofGlobal? p))).answer? p =
        some ((m.globals.filterMap (Vtable.ofGlobal? p)).foldl
          (fun h (c, symbol, init) => Vtable.record p h c symbol init) h) := by
    refine answer?_fold (fun h found hmem => ?_) h
    obtain ⟨g, -, hvtable⟩ := List.mem_filterMap.1 hmem
    exact answer?_recordVtable hp (Vtable.hasValue_of_ofGlobal? hp hvtable) h _ _
  simp only [scanVtables, Vtable.scan, answer?_bind, hfound, hrecord, Option.bind_some,
    answer?_pure]

end Vtable

/-! ## Virtual calls -/

section Dispatch

variable {p : Program} (hp : p.Valid) {v : ValueId} {call : Call}
  (hcall : p.opcode? v = some (.call call))
include hp

theorem answer?_slotAt? (hv : p.HasValue v) :
    (slotAt? v).answer? p = some (Dispatch.slotAt? p v) := by
  simp only [slotAt?, Dispatch.slotAt?, answer?_bind, answer?_opcode? hv, Option.bind_some]
  cases hop : p.opcode? v with
  | none => rfl
  | some op =>
    cases op with
    | gep g =>
      have hbase : p.HasValue g.base := hp.hasValue_of_opcode? hop List.mem_cons_self
      have hname : (ofValue Value.name g.base).answer? p =
          some ((p.value? g.base).bind Value.name) :=
        answer?_ofValue hbase fun hx => by rw [hx, Option.bind_some]
      simp [answer?_load? hbase, hname]
    | _ => rfl

include hcall

theorem hasValue_callee_of_call : p.HasValue call.callee :=
  hp.hasValue_of_opcode? hcall (List.mem_append_right _ List.mem_cons_self)

theorem hasValue_of_mem_args {arg : ValueId} (harg : arg ∈ call.args) : p.HasValue arg :=
  hp.hasValue_of_opcode? hcall (List.mem_append_left _ harg)

theorem answer?_slotAddress? :
    (slotAddress? call).answer? p = some (Dispatch.slotAddress? p call) := by
  have hcallee := hasValue_callee_of_call hp hcall
  rw [slotAddress?, Dispatch.slotAddress?]
  cases harg : call.args.head? with
  | none => rfl
  | some arg =>
    have hrange := hasValue_of_mem_args hp hcall (List.mem_of_head? harg)
    simp only [answer?_bind, answer?_ite, answer?_baseFunction? hcallee hp,
      answer?_isPointer hrange hp, answer?_load? hcallee, Option.bind_some, answer?_pure]
    split
    · rfl
    · cases hload : p.load? call.callee with
      | none => rfl
      | some address =>
        exact answer?_slotAt? hp (hp.hasValue_of_opcode? (Program.opcode?_of_load? hload)
          List.mem_cons_self)

theorem answer?_isVirtual : (isVirtual call).answer? p = some (Dispatch.isVirtual p call) := by
  simp [isVirtual, answer?_slotAddress? hp hcall, Dispatch.isVirtual]

theorem answer?_slotOf? : (slotOf? call).answer? p = some (Dispatch.slot? p call) := by
  simp [slotOf?, answer?_slotAddress? hp hcall, Dispatch.slot?]

omit hcall

theorem answer?_classAt? (hv : p.HasValue v) :
    (classAt? v).answer? p = some (Dispatch.classAt? p v) := by
  simp only [classAt?, Dispatch.classAt?, answer?_bind, answer?_pointee? hv hp, Option.bind_some]
  cases hpointee : p.pointee? v with
  | none => rfl
  | some t =>
    have hname : (ofType Ty.structName? t).answer? p = some (p.types.structName? t) :=
      answer?_ofType_bind (hp.hasType_of_pointee? hpointee)
    simp [hname]

theorem answer?_staticClass? (hv : p.HasValue v) :
    (staticClass? v).answer? p = some (Dispatch.staticClass? p v) := by
  simp only [staticClass?, Dispatch.staticClass?, answer?_bind, answer?_classAt? hp hv,
    Option.bind_some]
  cases Dispatch.classAt? p v with
  | some c => rfl
  | none => simp [answer?_strip hv hp, answer?_classAt? hp (hp.hasValue_strip hv)]

omit hp in
theorem answer?_expected? {h : Hierarchy} (hh : h.InRange p) (c : String) (slot : Nat) :
    (expected? h c slot).answer? p = some (Dispatch.expected? p h c slot) := by
  have hrange : ∀ f ∈ (h.tablesOf c).filterMap (·[slot]?), p.HasFunction f := by
    intro f hf
    obtain ⟨table, htable, hf⟩ := List.mem_filterMap.1 hf
    exact hh.tablesOf htable f (List.mem_of_getElem? hf)
  have hnames : (each ((h.tablesOf c).filterMap (·[slot]?)) functionName).answer? p = _ :=
    answer?_each fun f hf => answer?_functionName (hrange f hf)
  simp only [expected?, Dispatch.expected?, answer?_bind, hnames, Option.bind_some, answer?_pure]

omit hp in
theorem answer?_expectedFor {h : Hierarchy} (hh : h.InRange p) (known : Option String)
    (slot : Option Nat) : (expectedFor h known slot).answer? p =
      some (known.bind fun c => slot.bind (Dispatch.expected? p h c)) := by
  cases known with
  | none => rfl
  | some c =>
    cases slot with
    | none => rfl
    | some slot => exact answer?_expected? hh c slot

end Dispatch

section Dispatch

variable {view : View} (hview : view.Valid) {v : ValueId} {call : Call}
  (hcall : view.program.opcode? v = some (.call call))
include hview hcall

theorem answer?_isTarget {f : FunctionId} (hf : view.program.HasFunction f)
    (expected : Option Symbol.Method) : (isTarget view.index call expected f).answer? view.program =
      some (Dispatch.isTarget view call expected f) := by
  simp [isTarget, answer?_functionName hf, answer?_signatureOf hview hf,
    answer?_signature hview (hview.program.hasType_of_call hcall), Dispatch.isTarget]

theorem answer?_virtualTargets {h : Hierarchy} (hh : h.InRange view.program) :
    (virtualTargets view.index h call).answer? view.program =
      some (Dispatch.targets view h call) := by
  unfold virtualTargets
  rw [Dispatch.targets]
  cases hobject : Dispatch.object? call with
  | none => rfl
  | some this =>
    have hthis := hasValue_of_mem_args hview.program hcall (List.mem_of_getElem? hobject)
    have hfound : ∀ {classes : OrdSet String} {slot expected},
        (filter (isTarget view.index call expected) (Dispatch.candidates h classes slot)).answer?
          view.program = some ((Dispatch.candidates h classes slot).filter
            (Dispatch.isTarget view call expected)) := answer?_filter fun f hf =>
      answer?_isTarget hview hcall (Dispatch.hasFunction_of_mem_candidates hh hf) _
    simp only [answer?_bind, answer?_slotOf? hview.program hcall,
      answer?_staticClass? hview.program hthis, answer?_expectedFor hh, hfound, Option.bind_some]
    rw [answer?_each fun f hf => answer?_definitionOf hview
      (Dispatch.hasFunction_of_mem_candidates hh (List.mem_of_mem_filter hf))]
    rfl

end Dispatch

end Query

end CallTargets
