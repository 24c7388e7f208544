import CallTargets.Proofs.Program.Typed
import CallTargets.Proofs.Ty.Table

/-!
# What requests make

A request first looks at the program, which may end in a refusal, and then changes it. So what a
request ensures (`Build.Ensures`) is said with the program that it finds: a refused request
leaves it as it is. Each look has a lemma that says what it finds (`Build.Finds`), and each
request comes to a few changes in a row (`Request.ensures_perform`). Whatever a request names, it
adds no type with the key of another one (`Request.ensures_nodup_keys`).
-/

namespace CallTargets

variable {types : TypeTable} {name : String} {f : FunctionId} {op : Opcode} {type : ResultType}

open Relation

/-! ## Looks -/

namespace Build

variable {α β : Type} {p : Program} {x : Build α} {f : α → Build β}

/-- If the request is granted, this holds of what it yields and of the program it leaves. If it
is refused, the program is as before. -/
def Ensures (x : Build α) (p : Program) (post : α → Program → Prop) : Prop :=
  match x.run p with
  | (.ok a, p') => post a p'
  | (.error _, p') => p' = p

/-- The request changes nothing, and this holds of what it yields. -/
def Finds (x : Build α) (p : Program) (post : α → Prop) : Prop :=
  x.Ensures p fun a p' => p' = p ∧ post a

theorem run_bind {σ : Type} (x : ExceptT Fault (StateM σ) α) (f : α → ExceptT Fault (StateM σ) β)
    (s : σ) :
    (x >>= f).run s = match x.run s with
      | (.ok a, s') => (f a).run s'
      | (.error e, s') => (.error e, s') := by
  change (match x.run s with | (r, s') => ExceptT.bindCont f r s') = _
  rcases x.run s with ⟨r, s'⟩
  cases r with
  | ok a => rfl
  | error e => rfl

variable {post : α → Program → Prop} {Q : α → Prop}

theorem Finds.bind {post : β → Program → Prop} (h : x.Finds p Q)
    (hf : ∀ a, Q a → (f a).Ensures p post) : (x >>= f).Ensures p post := by
  unfold Finds Ensures at h
  unfold Ensures
  rw [run_bind]
  generalize x.run p = outcome at h
  obtain ⟨r, p'⟩ := outcome
  cases r with
  | ok a =>
    obtain ⟨rfl, ha⟩ := h
    exact hf a ha
  | error e => exact h

theorem Finds.mono {Q' : α → Prop} (h : x.Finds p Q) (hQ : ∀ a, Q a → Q' a) : x.Finds p Q' := by
  unfold Finds Ensures at h ⊢
  generalize x.run p = outcome at h
  obtain ⟨r, p'⟩ := outcome
  cases r with
  | ok a => exact ⟨h.1, hQ a h.2⟩
  | error e => exact h

theorem ensures_pure {a : α} (h : post a p) : (pure a : Build α).Ensures p post := h

theorem finds_pure {a : α} (h : Q a) : (pure a : Build α).Finds p Q := ⟨rfl, h⟩

theorem ensures_update {change : Program → α × Program} (h : post (change p).1 (change p).2) :
    (update change).Ensures p post := h

theorem ensures_update_map {change : Program → α × Program} {g : α → β}
    {post : β → Program → Prop} (h : post (g (change p).1) (change p).2) :
    (do return g (← update change)).Ensures p post := h

theorem finds_get : (get : Build Program).Finds p (· = p) := ⟨rfl, rfl⟩

theorem finds_found (what : Option α) (fault : Fault) :
    (found what fault).Finds p (what = some ·) := by
  cases what with
  | none => exact rfl
  | some a => exact ⟨rfl, rfl⟩

theorem finds_ask (what : Program → Except Fault α) :
    (ask what).Finds p (what p = .ok ·) := by
  have hrun : (ask what).run p = (what p, p) := rfl
  unfold Finds Ensures
  rw [hrun]
  cases what p with
  | ok a => exact ⟨rfl, rfl⟩
  | error e => exact rfl

theorem finds_lookup (what : Program → Option α) (fault : Program → Fault) :
    (do let p ← get; found (what p) (fault p) : Build α).Finds p (what p = some ·) := by
  refine finds_get.bind fun p' hp' => ?_
  rw [hp']
  exact finds_found (what p) (fault p)

theorem finds_module (m : ModuleId) : (module m).Finds p (p.module? m = some ·) :=
  finds_lookup (·.module? m) fun _ => .invalidModule m

theorem finds_function (f : FunctionId) : (function f).Finds p (p.function? f = some ·) :=
  finds_lookup (·.function? f) fun _ => .invalidFunction f

theorem finds_global (g : GlobalId) : (global g).Finds p (p.global? g = some ·) :=
  finds_lookup (·.global? g) fun _ => .invalidGlobal g

theorem finds_value (v : ValueId) : (value v).Finds p (p.value? v = some ·) :=
  finds_lookup (·.value? v) fun _ => .invalidValue v

theorem finds_block (site : Site) :
    (block site).Finds p fun _ => p.HasBlock site.function site.block := by
  refine (finds_function site.function).bind fun f hf => (finds_found _ _).mono fun b hb => ?_
  rw [Program.HasBlock, hf]
  exact (List.getElem?_eq_some_iff.1 hb).1

theorem finds_param (f : FunctionId) (index : Nat) : (param f index).Finds p fun v =>
    ∃ fn, p.function? f = some fn ∧ fn.params[index]? = some v :=
  (finds_function f).bind fun fn hf => (finds_found _ _).mono fun _ hv => ⟨fn, hf, hv⟩

theorem finds_paramTypes (type : TypeId) : (paramTypes type).Finds p fun params =>
    ∃ ret variadic, p.types.get? type = some (.function ret params variadic) := by
  refine (finds_lookup (fun p => (p.types.get? type).bind Ty.signature?) _).bind ?_
  rintro ⟨ret, params, variadic⟩ hsignature
  obtain ⟨ty, hty, hsignature⟩ := Option.bind_eq_some_iff.1 hsignature
  cases ty with
  | function =>
    cases hsignature
    exact finds_pure ⟨ret, variadic, hty⟩
  | _ => cases hsignature

theorem finds_pointee (v : ValueId) : (pointee v).Finds p (p.pointee? v = some ·) := by
  refine (finds_value v).bind fun val hval => ?_
  refine (finds_lookup (·.types.pointee? val.type) _).mono fun t ht => ?_
  rw [Program.pointee?, Program.type?, hval]
  exact ht

theorem finds_walk (current : TypeId) (indices : List GepIndex) :
    (walk current indices).Finds p (p.types.follow? current indices = some ·) := by
  induction indices generalizing current with
  | nil => exact finds_pure rfl
  | cons index rest ih =>
    unfold walk
    refine finds_get.bind fun p' hp' => ?_
    subst hp'
    refine (finds_found _ _).bind fun next hnext => (ih next).mono fun target htarget => ?_
    unfold TypeTable.follow? at htarget ⊢
    rw [List.foldlM_cons, hnext]
    exact htarget

theorem finds_gep (base : ValueId) (indices : List GepIndex) :
    (gep base indices).Finds p fun found =>
      found.1.base = base ∧ found.1.indices = indices ∧ p.pointee? base = some found.1.source ∧
        p.types.follow? found.1.source indices.tail = some found.2 :=
  (finds_pointee base).bind fun _ hsource => (finds_walk _ _).bind fun _ htarget =>
    finds_pure ⟨rfl, rfl, hsource, htarget⟩

theorem finds_call (callee : ValueId) (args : List ValueId) (sret : Bool) :
    (call callee args sret).Finds p fun found =>
      found.1.callee = callee ∧ found.1.args = args ∧ p.pointee? callee = some found.1.type ∧
        ∃ params variadic,
          p.types.get? found.1.type = some (.function found.2 params variadic) := by
  refine (finds_value callee).bind fun val hval => ?_
  refine finds_get.bind fun p' hp' => ?_
  subst hp'
  refine (finds_found _ _).bind fun type htype => (finds_found _ _).bind ?_
  rintro ⟨ret, params, variadic⟩ hsignature
  obtain ⟨ty, hty, hsignature⟩ := Option.bind_eq_some_iff.1 hsignature
  cases ty with
  | function =>
    cases hsignature
    refine finds_pure ⟨rfl, rfl, ?_, params, variadic, hty⟩
    rw [Program.pointee?, Program.type?, hval]
    exact (Option.filter_eq_some_iff.1 htype).1
  | _ => cases hsignature

end Build

namespace Program

variable {refill : Prop} {p p' p'' : Program} {t : TypeId} {ty : Ty} {fields : List TypeId}

structure Makes (refill : Prop) (p : Program) (es : List Entity) (p' : Program) : Prop where
  changes : ReflTransGen (Change refill) p p'
  has : ∀ e ∈ es, p'.Has e

theorem Makes.keeps {es : List Entity} {P : Program → Prop} (h : p.Makes refill es p')
    (hstep : ∀ {q q'}, Change refill q q' → P q → P q') (hp : P p) : P p' := by
  obtain ⟨hchanges, -⟩ := h
  induction hchanges with
  | refl => exact hp
  | tail _ hchange ih => exact hstep hchange ih

theorem Makes.extends {es : List Entity} (h : p.Makes refill es p') : p.Extends p' :=
  h.keeps (fun hchange hq => hq.trans hchange.extends) (.refl p)

namespace Makes

variable {es es' : List Entity}

theorem refines (h : p.Makes False es p') : p.Refines p' :=
  h.keeps (fun hchange hq => hq.trans hchange.refines) (.refl p)

theorem tail (h : p.Makes refill es p') (hchange : Change refill p' p'') :
    p.Makes refill es p'' where
  changes := h.changes.tail hchange
  has e he := hchange.extends.has (h.has e he)

theorem trans (h : p.Makes refill es p') (h' : p'.Makes refill es' p'') : p.Makes refill es' p'' :=
  ⟨h.changes.trans h'.changes, h'.has⟩

theorem of_change (h : Change refill p p') : p.Makes refill [] p' := ⟨.single h, nofun⟩

theorem of_has {e : Entity} (he : p.Has e) : p.Makes refill [e] p :=
  ⟨.refl, List.forall_mem_singleton.2 he⟩

theorem of_changes {e : Entity} (h : ReflTransGen (Change refill) p p') (he : p'.Has e) :
    p.Makes refill [e] p' := ⟨h, List.forall_mem_singleton.2 he⟩

end Makes

/-! ## Types -/

theorem get?_of_find? (h : types.find? ty = some t) :
    ∃ ty', types.get? t = some ty' ∧ (ty.structName? = none → ty' = ty) := by
  unfold TypeTable.find? at h
  cases hname : ty.structName? with
  | some name =>
    rw [hname] at h
    obtain ⟨i, hi, rfl⟩ := Option.map_eq_some_iff.1 h
    obtain ⟨hlt, -⟩ := Array.findIdx?_eq_some_iff_getElem.1 hi
    exact ⟨_, Array.getElem?_eq_getElem hlt, nofun⟩
  | none =>
    rw [hname] at h
    obtain ⟨i, hi, rfl⟩ := Option.map_eq_some_iff.1 h
    obtain ⟨hlt, heq, -⟩ := Array.findIdx?_eq_some_iff_getElem.1 hi
    exact ⟨_, Array.getElem?_eq_getElem hlt, fun _ => of_decide_eq_true heq⟩

theorem get?_push_self (types : TypeTable) (ty : Ty) :
    (TypeTable.mk (types.types.push ty)).get? ⟨types.size⟩ = some ty :=
  get?_push_eq_some_iff.2 (.inr ⟨rfl, rfl⟩)

theorem addType_of_find? (h : p.types.find? ty = some t) : p.addType ty = (t, p) := by
  rw [addType, TypeTable.intern, h]

theorem addType_of_find?_eq_none (h : p.types.find? ty = none) :
    p.addType ty = (⟨p.types.size⟩, { p with types := ⟨p.types.types.push ty⟩ }) := by
  rw [addType, TypeTable.intern, h]

theorem makes_addType (hparts : ∀ t ∈ ty.parts, p.HasType t) :
    p.Makes refill [.type (p.addType ty).1] (p.addType ty).2 := by
  cases hfind : p.types.find? ty with
  | some t =>
    rw [addType_of_find? hfind]
    obtain ⟨ty', hty', -⟩ := get?_of_find? hfind
    exact .of_has (hasType_of_get? hty')
  | none =>
    rw [addType_of_find?_eq_none hfind]
    exact .of_changes (.single (.addType hfind hparts))
      (hasType_of_get? (get?_push_self p.types ty))

theorem get?_addType (p : Program) (hname : ty.structName? = none) :
    (p.addType ty).2.types.get? (p.addType ty).1 = some ty := by
  cases hfind : p.types.find? ty with
  | some t =>
    rw [addType_of_find? hfind]
    obtain ⟨ty', hty', heq⟩ := get?_of_find? hfind
    rw [hty', heq hname]
  | none =>
    rw [addType_of_find?_eq_none hfind]
    exact get?_push_self p.types ty

def IsBare (p : Program) (t : TypeId) : Prop := (p.types.fields? t).getD [] = []

theorem change_setBody (h : p.types.setBody t fields = .ok types)
    (hfields : ∀ t ∈ fields, p.HasType t) (hbare : refill ∨ p.IsBare t) :
    Change refill p { p with types } := by
  unfold TypeTable.setBody at h
  split at h
  case h_1 name old bodiless hstruct =>
    cases h
    refine .setBody hstruct hfields (hbare.imp_right fun hbare => ?_)
    rw [IsBare, TypeTable.fields?, hstruct] at hbare
    exact hbare
  case h_2 => cases h
  case h_3 => cases h

theorem defineStruct_eq_ok (h : p.types.defineStruct name fields = .ok (t, types)) :
    t = (p.addType (.struct (some name) [] true)).1 ∧
      (p.addType (.struct (some name) [] true)).2.types.setBody t fields = .ok types := by
  obtain ⟨types', hbody, heq⟩ := bind_eq_ok.1 h
  cases heq
  exact ⟨rfl, hbody⟩

theorem makes_defineStruct (h : p.types.defineStruct name fields = .ok (t, types))
    (hfields : ∀ t ∈ fields, p.HasType t)
    (hbare : refill ∨ ∀ t ∈ p.types.lookupStruct? name, p.IsBare t) :
    p.Makes refill [.type t] { p with types } := by
  obtain ⟨rfl, hbody⟩ := defineStruct_eq_ok h
  have hadd : p.Makes refill [.type (p.addType (.struct (some name) [] true)).1]
      (p.addType (.struct (some name) [] true)).2 := makes_addType nofun
  refine hadd.tail (change_setBody hbody (fun t ht => hadd.extends.hasType (hfields t ht))
    (hbare.imp_right fun hbare => ?_))
  cases hfind : p.types.find? (.struct (some name) [] true) with
  | some t =>
    rw [addType_of_find? hfind]
    exact hbare t hfind
  | none =>
    rw [addType_of_find?_eq_none hfind, IsBare, TypeTable.fields?, get?_push_self]
    rfl

/-! ## Modules, functions and global variables -/

theorem hasModule_addModule (p : Program) (name : String) :
    (p.addModule name).2.HasModule (p.addModule name).1 := by
  change p.modules.size < (p.modules.push _).size
  rw [Array.size_push]
  exact Nat.lt_succ_self _

theorem hasBlock_appendBlock {fn : Function} (hf : p.function? f = some fn) :
    (p.appendBlock f).HasBlock f ⟨fn.blocks.length⟩ := by
  have happend : (p.appendBlock f).function? f =
      some { fn with blocks := fn.blocks ++ [{ id := ⟨fn.blocks.length⟩ }] } :=
    (getElem?_modify_of_eq_some _ hf).trans (if_pos rfl ▸ rfl)
  rw [HasBlock, happend]
  simp

theorem hasBlock_openEntry (hf : p.HasFunction f) : (p.openEntry f).HasBlock f .entry := by
  have hopen : (p.openEntry f).function? f = some _ :=
    getElem?_modify_of_eq_some _ (Array.getElem?_eq_getElem hf)
  rw [HasBlock, hopen, if_pos rfl, Option.map_some, Option.getD_some]
  split
  · exact Nat.zero_lt_one
  · rename_i hblocks
    exact List.length_pos_iff.2 fun h => hblocks (List.isEmpty_iff.2 h)

theorem makes_openEntry (h : p.Makes refill [.function f] p') :
    p.Makes refill [.function f, .block f .entry] (p'.openEntry f) := by
  have hopen : p.Makes refill [.function f] (p'.openEntry f) := h.tail (.openEntry f)
  refine ⟨hopen.changes, fun e he => ?_⟩
  rcases List.mem_cons.1 he with rfl | he
  · exact hopen.has _ (List.mem_singleton_self _)
  · obtain rfl := List.eq_of_mem_singleton he
    exact hasBlock_openEntry (h.has (.function f) (List.mem_singleton_self _))

section Declarations

variable {m : ModuleId} {type : TypeId}

theorem makes_addressType (htype : p.HasType type) :
    p.Makes refill [.type (p.addType (.pointer type)).1] (p.addType (.pointer type)).2 :=
  makes_addType fun _ ht => List.eq_of_mem_singleton ht ▸ htype

theorem makes_addFunction {ret : TypeId} {params : List TypeId} {variadic : Bool}
    (hm : p.HasModule m) (htype : p.types.get? type = some (.function ret params variadic)) :
    p.Makes refill [.function (p.addFunction m name type params).1]
      (p.addFunction m name type params).2 := by
  have hadd : p.Makes False [.type (p.addType (.pointer type)).1]
      (p.addType (.pointer type)).2 := makes_addressType (hasType_of_get? htype)
  refine .of_changes ((makes_addressType (hasType_of_get? htype)).changes.tail ?_) ?_
  · exact .addFunction name (hadd.extends.hasModule hm) (hadd.refines.fills.get? rfl htype)
      (get?_addType p rfl)
  · exact (Array.getElem?_eq_some_iff.1 (getElem?_push_eq_some_iff.2 (.inr ⟨rfl, rfl⟩))).1

theorem makes_addGlobal {init : Option ValueId} (hm : p.HasModule m) (htype : p.HasType type)
    (hinit : ∀ v, init = some v → p.HasValue v) :
    p.Makes refill [.global (p.addGlobal m name type init).1]
      (p.addGlobal m name type init).2 := by
  have hadd : p.Makes refill [.type (p.addType (.pointer type)).1]
      (p.addType (.pointer type)).2 := makes_addressType htype
  refine .of_changes (hadd.changes.tail ?_) ?_
  · exact .addGlobal name (hadd.extends.hasModule hm) (hadd.extends.hasType htype)
      (get?_addType p rfl) fun v hv => hadd.extends.hasValue (hinit v hv)
  · exact (Array.getElem?_eq_some_iff.1 (getElem?_push_eq_some_iff.2 (.inr ⟨rfl, rfl⟩))).1

end Declarations

/-! ## Types of results -/

section RecordsOk

variable (hp : p.RecordsOk) {t' : TypeId} {v : ValueId}
include hp

theorem hasType_part (h : p.types.get? t = some ty) (ht' : t' ∈ ty.parts) : p.HasType t' :=
  (hp.type h t' ht').1

theorem hasType_pointee? (h : p.types.pointee? t = some t') : p.HasType t' := by
  obtain ⟨ty, hty, hpointee⟩ := Option.bind_eq_some_iff.1 h
  cases ty with
  | pointer s =>
    cases hpointee
    exact hasType_part hp hty (List.mem_singleton_self t')
  | _ => cases hpointee

theorem hasType_pointee (h : p.pointee? v = some t) : p.HasType t := by
  obtain ⟨type, -, hpointee⟩ := Option.bind_eq_some_iff.1 h
  exact hasType_pointee? hp hpointee

theorem hasType_element? {index : Option Int} (h : p.types.element? t index = some t') :
    p.HasType t' := by
  obtain ⟨ty, hty, helement⟩ := Option.bind_eq_some_iff.1 h
  refine hasType_part hp hty ?_
  cases ty with
  | struct name fields bodiless =>
    cases index with
    | none => cases helement
    | some n =>
      change (if n < 0 then none else fields[n.toNat]?) = some t' at helement
      split at helement
      · cases helement
      · exact List.mem_of_getElem? helement
  | array element length =>
    cases helement
    exact List.mem_singleton_self t'
  | vector element length =>
    cases helement
    exact List.mem_singleton_self t'
  | _ => cases helement

theorem hasType_follow? {indices : List GepIndex} (ht : p.HasType t)
    (h : p.types.follow? t indices = some t') : p.HasType t' := by
  unfold TypeTable.follow? at h
  induction indices generalizing t with
  | nil =>
    cases h
    exact ht
  | cons index indices ih =>
    rw [List.foldlM_cons] at h
    obtain ⟨next, hnext, hrest⟩ := Option.bind_eq_some_iff.1 h
    exact ih (hasType_element? hp hnext) hrest

end RecordsOk

/-- A result has a type that follows from the operands, now or as soon as the type is there. -/
def ResultTyped (p : Program) (op : Opcode) : ResultType → Prop
  | .old t => p.HasType t ∧ p.OpcodeTyped t op
  | .made ty => ty.structName? = none ∧ (∀ t ∈ ty.parts, p.HasType t) ∧
      ∀ p' t, p.Refines p' → p'.types.get? t = some ty → p'.OpcodeTyped t op

theorem makes_addResultType (h : p.ResultTyped op type) :
    p.Makes refill [.type (p.addResultType type).1] (p.addResultType type).2 := by
  cases type with
  | old t => exact .of_has h.1
  | made ty => exact makes_addType h.2.1

theorem opcodeTyped_addResultType (h : p.ResultTyped op type) :
    (p.addResultType type).2.OpcodeTyped (p.addResultType type).1 op := by
  cases type with
  | old t => exact h.2
  | made ty =>
    obtain ⟨hname, hparts, htyped⟩ := h
    have hadd : p.Makes False [.type (p.addType ty).1] (p.addType ty).2 :=
      makes_addType hparts
    exact htyped _ _ hadd.refines (get?_addType p hname)

theorem gepTyped_of_refines {g : Gep} {target : TypeId} (h : p.Refines p')
    (hbase : p.pointee? g.base = some g.source)
    (htarget : p.types.follow? g.source g.indices.tail = some target)
    (ht : p'.types.get? t = some (.pointer target)) : p'.GepTyped t g := by
  refine ⟨h.pointee? hbase, target, h.fills.follow? htarget, ?_⟩
  rw [TypeTable.pointee?, ht]
  rfl

end Program

/-! ## Requests -/

variable {refill : Prop} {p : Program}

theorem InstrRequest.finds_opcode (hp : p.RecordsOk) {i : InstrRequest}
    (hi : ∀ e ∈ i.entities f, p.Has e) :
    i.opcode.Finds p fun found => p.ResultTyped found.2 found.1 ∧ p.OpcodeOk f found.2 ∧
      ∀ v ∈ found.2.operands, p.HasValue v := by
  have htype (t : TypeId) (ht : .type t ∈ i.entities f) : p.HasType t := hi (.type t) ht
  have hvalue (v : ValueId) (hv : .value v ∈ i.entities f) : p.HasValue v := hi (.value v) hv
  have hblock (b : BlockId) (hb : .block f b ∈ i.entities f) : p.HasBlock f b := hi (.block f b) hb
  have hvoid {op : Opcode} (hop : ∀ p' t, Program.OpcodeTyped p' t op) :
      p.ResultTyped op (.made .void) := ⟨rfl, List.forall_mem_nil _, fun p' t _ _ => hop p' t⟩
  cases i with
  | alloca type =>
    have htype : p.HasType type := htype type (by simp [entities])
    refine Build.finds_pure
      ⟨⟨rfl, fun t ht => List.eq_of_mem_singleton ht ▸ htype, ?_⟩, htype, List.forall_mem_nil _⟩
    intro p' t _ ht
    change p'.types.pointee? t = some type
    rw [TypeTable.pointee?, ht]
    rfl
  | load ptr =>
    refine (Build.finds_pointee ptr).bind fun t ht => Build.finds_pure ?_
    exact ⟨⟨Program.hasType_pointee hp ht, ht⟩, trivial,
      fun v hv => hvalue v (by simpa [entities, Opcode.operands] using hv)⟩
  | store value ptr =>
    exact Build.finds_pure ⟨hvoid fun _ _ => trivial, trivial,
      fun v hv => hvalue v (by simpa [entities, Opcode.operands] using hv)⟩
  | gep base indices =>
    refine (Build.finds_gep base indices).bind ?_
    rintro ⟨g, target⟩ ⟨rfl, rfl, hbase, htarget⟩
    have hsource : p.HasType g.source := Program.hasType_pointee hp hbase
    refine Build.finds_pure ⟨⟨rfl, fun t ht => ?_, fun p' t h ht => ?_⟩, hsource, fun v hv => ?_⟩
    · obtain rfl := List.eq_of_mem_singleton ht
      exact Program.hasType_follow? hp hsource htarget
    · exact Program.gepTyped_of_refines h hbase htarget ht
    · exact hvalue v (by simpa [entities, Opcode.operands, Gep.operands] using hv)
  | cast op operand type =>
    exact Build.finds_pure ⟨⟨htype type (by simp [entities]), trivial⟩, trivial,
      fun v hv => hvalue v (by simpa [entities, Opcode.operands] using hv)⟩
  | phi type incoming =>
    exact Build.finds_pure ⟨⟨htype type (by simp [entities]), trivial⟩, trivial,
      fun v hv => hvalue v (by simpa [entities, Opcode.operands] using hv)⟩
  | select condition ifTrue ifFalse =>
    refine (Build.finds_value ifTrue).bind fun val hval => Build.finds_pure ?_
    exact ⟨⟨(hp.value hval).type, trivial⟩, trivial,
      fun v hv => hvalue v (by simpa [entities, Opcode.operands] using hv)⟩
  | unary operand =>
    refine (Build.finds_value operand).bind fun val hval => Build.finds_pure ?_
    exact ⟨⟨(hp.value hval).type, trivial⟩, trivial,
      fun v hv => hvalue v (by simpa [entities, Opcode.operands] using hv)⟩
  | binary lhs rhs =>
    refine (Build.finds_value lhs).bind fun val hval => Build.finds_pure ?_
    exact ⟨⟨(hp.value hval).type, trivial⟩, trivial,
      fun v hv => hvalue v (by simpa [entities, Opcode.operands] using hv)⟩
  | call callee args sret =>
    refine (Build.finds_call callee args sret).bind ?_
    rintro ⟨c, result⟩ ⟨rfl, rfl, hcallee, params, variadic, hfunction⟩
    have hresult : p.HasType result := Program.hasType_part hp hfunction List.mem_cons_self
    refine Build.finds_pure ⟨⟨hresult, hcallee, params, variadic, hfunction⟩,
      Program.hasType_of_get? hfunction, fun v hv => hvalue v ?_⟩
    simpa [entities, Opcode.operands, or_comm] using hv
  | ret value =>
    exact Build.finds_pure ⟨hvoid fun _ _ => trivial, trivial,
      fun v hv => hvalue v (by simpa [entities, Opcode.operands] using hv)⟩
  | branch condition targets =>
    exact Build.finds_pure ⟨hvoid fun _ _ => trivial,
      fun b hb => hblock b (by simpa [entities] using hb),
      fun v hv => hvalue v (by simpa [entities, Opcode.operands] using hv)⟩
  | unreachable =>
    exact Build.finds_pure ⟨hvoid fun _ _ => trivial, trivial, List.forall_mem_nil _⟩

theorem Program.makes_addResult {site : Site} (name : Option String) (htype : p.ResultTyped op type)
    (hblock : p.HasBlock site.function site.block) (hop : p.OpcodeOk site.function op)
    (hoperands : ∀ v ∈ op.operands, p.HasValue v) :
    p.Makes refill [.value (p.addResult site type op name).1]
      (p.addResult site type op name).2 := by
  have hadd : p.Makes refill [.type (p.addResultType type).1] (p.addResultType type).2 :=
    makes_addResultType htype
  have htyped : (p.addResultType type).2.OpcodeTyped (p.addResultType type).1 op :=
    opcodeTyped_addResultType htype
  unfold addResult
  generalize p.addResultType type = made at hadd htyped
  obtain ⟨t, p'⟩ := made
  have hinstr : Change refill p' (p'.addInstr site t op).2 :=
    .addInstr (hadd.has _ (List.mem_singleton_self _)) (hadd.extends.hasBlock hblock)
      (hadd.extends.opcodeOk hop) (fun v hv => hadd.extends.hasValue (hoperands v hv)) htyped
  have hmade : p.Makes refill [.value (p'.addInstr site t op).1] (p'.addInstr site t op).2 :=
    .of_changes (hadd.changes.tail hinstr) (hasValue_of_eq_some (value?_addValue_self p' t _))
  cases name with
  | none => exact hmade
  | some name => exact hmade.tail (.nameValue _ name)

theorem Program.makes_addConstGep (hp : p.RecordsOk) {g : Gep} {target : TypeId}
    (hbase : p.pointee? g.base = some g.source)
    (htarget : p.types.follow? g.source g.indices.tail = some target)
    (hoperands : ∀ v ∈ g.operands, p.HasValue v) :
    p.Makes refill [.value (p.addConstGep g target).1] (p.addConstGep g target).2 := by
  have hsource : p.HasType g.source := hasType_pointee hp hbase
  have hadd : p.Makes refill [.type (p.addType (.pointer target)).1]
      (p.addType (.pointer target)).2 := makes_addressType (hasType_follow? hp hsource htarget)
  have hrefines : p.Refines (p.addType (.pointer target)).2 :=
    (makes_addressType (hasType_follow? hp hsource htarget)).refines
  refine .of_changes (hadd.changes.tail ?_) (hasValue_of_eq_some (value?_addValue_self _ _ _))
  exact .addConst (hadd.has _ (List.mem_singleton_self _)) (hadd.extends.hasType hsource)
    (fun v hv => hadd.extends.hasValue (hoperands v hv))
    (gepTyped_of_refines hrefines hbase htarget (get?_addType p rfl))

namespace Request

/-- The struct that a request gives fields to, if it is there before. -/
def filled? (p : Program) : Request → Option TypeId
  | setBody t _ => some t
  | defineStruct name _ | addStruct _ name _ => p.types.lookupStruct? name
  | _ => none

/-- A request gives fields only to a struct that has none. -/
def Fills (p : Program) (r : Request) : Prop := ∀ t ∈ r.filled? p, p.IsBare t

theorem ensures_addConst {type : TypeId} {c : Const} (htype : p.HasType type)
    (hkind : p.KindOk (.const c)) (hoperands : ∀ v ∈ c.operands, p.HasValue v)
    (htyped : p.ConstTyped type c) : (addConst type c).Ensures p (p.Makes refill) := by
  exact Build.ensures_update_map (.of_changes (.single (.addConst htype hkind hoperands htyped))
    (Program.hasValue_of_eq_some (Program.value?_addValue_self p type _)))

/-- A request that names what is there comes to changes in a row, and what it yields is there
then. If it is refused, nothing is changed. -/
theorem ensures_perform (hp : p.RecordsOk) {r : Request} (hr : ∀ e ∈ r.entities, p.Has e)
    (hfills : refill ∨ r.Fills p) : r.perform.Ensures p (p.Makes refill) := by
  have htype (t : TypeId) (ht : .type t ∈ r.entities) : p.HasType t := hr (.type t) ht
  have hvalue (v : ValueId) (hv : .value v ∈ r.entities) : p.HasValue v := hr (.value v) hv
  have hmodule (m : ModuleId) (hm : .module m ∈ r.entities) : p.HasModule m := hr (.module m) hm
  cases r with
  | intern ty =>
    exact Build.ensures_update_map (Program.makes_addType fun t ht =>
      htype t (by simpa [entities] using ht))
  | bytePointer =>
    have hbyte : p.Makes refill [.type (p.addType (.integer 8)).1]
        (p.addType (.integer 8)).2 := Program.makes_addType nofun
    exact Build.ensures_update_map (hbyte.trans
      (Program.makes_addressType (hbyte.has _ (List.mem_singleton_self _))))
  | lookup name =>
    refine Build.finds_get.bind fun p' hp' => Build.ensures_pure ⟨.refl, fun e he => ?_⟩
    obtain ⟨t, ht, rfl⟩ := List.mem_map.1 he
    have hfind : p.types.find? (.struct (some name) [] true) = some t :=
      hp' ▸ Option.mem_toList.1 ht
    obtain ⟨ty, hty, -⟩ := Program.get?_of_find? hfind
    exact Program.hasType_of_get? hty
  | setBody t fields =>
    refine (Build.finds_ask _).bind fun types htypes => Build.ensures_update (.of_change ?_)
    exact Program.change_setBody htypes (fun t ht => htype t (by simp [entities, ht]))
      (hfills.imp_right fun h => h t rfl)
  | defineStruct name fields =>
    refine (Build.finds_ask _).bind fun found htypes => Build.ensures_update ?_
    exact Program.makes_defineStruct htypes (fun t ht => htype t (by simp [entities, ht])) hfills
  | reindex => exact Build.ensures_pure ⟨.refl, nofun⟩
  | addModule name =>
    exact Build.ensures_update_map
      (.of_changes (.single (.addModule name)) (Program.hasModule_addModule p name))
  | addStruct m name fields =>
    refine (Build.finds_module m).bind fun _ _ => ?_
    refine (Build.finds_ask _).bind fun found htypes => Build.ensures_update ?_
    have hdefine : p.Makes refill [.type found.1] { p with types := found.2 } :=
      Program.makes_defineStruct htypes (fun t ht => htype t (by simp [entities, ht])) hfills
    exact hdefine.tail (.listStruct m (hdefine.has _ (List.mem_singleton_self _)))
  | declare m name type =>
    refine (Build.finds_paramTypes type).bind fun params hparams => ?_
    obtain ⟨ret, variadic, hfunction⟩ := hparams
    refine (Build.finds_module m).bind fun _ _ => Build.ensures_update_map ?_
    exact Program.makes_addFunction (hmodule m (by simp [entities])) hfunction
  | define m name type =>
    refine (Build.finds_paramTypes type).bind fun params hparams => ?_
    obtain ⟨ret, variadic, hfunction⟩ := hparams
    refine (Build.finds_module m).bind fun _ _ => Build.ensures_update_map ?_
    have hadd : p.Makes refill [.function (p.addFunction m name type params).1]
        (p.addFunction m name type params).2 :=
      Program.makes_addFunction (hmodule m (by simp [entities])) hfunction
    exact Program.makes_openEntry hadd
  | setLinkage f linkage =>
    refine (Build.finds_function f).bind fun _ _ => Build.ensures_update ?_
    exact .of_change (.setLinkage f linkage)
  | functionValue f =>
    refine (Build.finds_function f).bind fun fn hf => Build.ensures_pure ?_
    exact .of_has (hp.function hf).hasValue
  | param f index =>
    refine (Build.finds_param f index).bind fun v hv => Build.ensures_pure ?_
    obtain ⟨fn, hf, hparam⟩ := hv
    exact .of_has ((hp.function hf).param index v hparam).1
  | addGlobal m name type init =>
    refine (Build.finds_module m).bind fun _ _ => Build.ensures_update_map ?_
    exact Program.makes_addGlobal (hmodule m (by simp [entities])) (htype type (by simp [entities]))
      fun v hv => hvalue v (by simp [entities, hv])
  | setInit g init =>
    refine (Build.finds_global g).bind fun _ _ => Build.ensures_update ?_
    exact .of_change (.setInit g (hvalue init (by simp [entities])))
  | setGlobalLinkage g linkage =>
    refine (Build.finds_global g).bind fun _ _ => Build.ensures_update ?_
    exact .of_change (.setGlobalLinkage g linkage)
  | globalValue g =>
    refine (Build.finds_global g).bind fun gl hg => Build.ensures_pure ?_
    exact .of_has (hp.global hg).hasValue
  | nameValue v name =>
    refine (Build.finds_value v).bind fun _ _ => Build.ensures_update ?_
    exact .of_change (.nameValue v name)
  | null type => exact ensures_addConst (htype type (by simp [entities])) trivial nofun trivial
  | undef type => exact ensures_addConst (htype type (by simp [entities])) trivial nofun trivial
  | int type n => exact ensures_addConst (htype type (by simp [entities])) trivial nofun trivial
  | aggregate type elements =>
    exact ensures_addConst (htype type (by simp [entities])) trivial
      (fun v hv => hvalue v (by simpa [entities, Const.operands] using hv)) trivial
  | constCast op operand type =>
    exact ensures_addConst (htype type (by simp [entities])) trivial
      (fun v hv => hvalue v (by simpa [entities, Const.operands] using hv)) trivial
  | constGep base indices =>
    refine (Build.finds_gep base (indices.map .const)).bind ?_
    rintro ⟨g, target⟩ ⟨rfl, hindices, hbase, htarget⟩
    refine Build.ensures_update_map (Program.makes_addConstGep hp hbase (hindices ▸ htarget) ?_)
    intro v hv
    have hknown : g.operands = [g.base] := by
      dsimp only at hindices
      simp [Gep.operands, hindices, GepIndex.value?]
    exact hvalue v (by simpa [entities, hknown] using hv)
  | enter f =>
    refine (Build.finds_function f).bind fun fn hf => Build.ensures_update ?_
    exact Program.makes_openEntry (.of_has (hr _ (by simp [entities])))
  | addBlock f =>
    refine (Build.finds_function f).bind fun fn hf => Build.ensures_update ?_
    exact .of_changes (.single (.addBlock f)) (Program.hasBlock_appendBlock hf)
  | instr site i name =>
    refine (InstrRequest.finds_opcode hp (f := site.function) fun e he => hr e ?_).bind ?_
    · exact List.mem_cons_of_mem _ he
    rintro ⟨type, op⟩ ⟨htyped, hop, hoperands⟩
    refine (Build.finds_block site).bind fun _ hblock => Build.ensures_update_map ?_
    exact Program.makes_addResult name htyped hblock hop hoperands

end Request

/-! ## Keys of types -/

theorem InstrRequest.finds_any (i : InstrRequest) : i.opcode.Finds p fun _ => True := by
  cases i with
  | load ptr => exact (Build.finds_pointee ptr).bind fun _ _ => Build.finds_pure trivial
  | gep base indices =>
    exact (Build.finds_gep base indices).bind fun _ _ => Build.finds_pure trivial
  | select condition ifTrue ifFalse =>
    exact (Build.finds_value ifTrue).bind fun _ _ => Build.finds_pure trivial
  | unary operand => exact (Build.finds_value operand).bind fun _ _ => Build.finds_pure trivial
  | binary lhs rhs => exact (Build.finds_value lhs).bind fun _ _ => Build.finds_pure trivial
  | call callee args sret =>
    exact (Build.finds_call callee args sret).bind fun _ _ => Build.finds_pure trivial
  | _ => exact Build.finds_pure trivial

namespace Program

theorem nodup_keys_defineStruct {t : TypeId} {fields : List TypeId} (h : p.types.keys.Nodup)
    (hdefine : p.types.defineStruct name fields = .ok (t, types)) : types.keys.Nodup := by
  obtain ⟨-, hbody⟩ := defineStruct_eq_ok hdefine
  rw [TypeTable.keys_setBody hbody]
  exact TypeTable.nodup_keys_intern h _

theorem types_addResult (p : Program) (site : Site) (type : ResultType) (op : Opcode)
    (name : Option String) :
    (p.addResult site type op name).2.types = (p.addResultType type).2.types := by
  cases name with
  | none => rfl
  | some name => rfl

end Program

namespace Request

theorem ensures_nodup_keys (h : p.types.keys.Nodup) (r : Request) :
    r.perform.Ensures p fun _ p' => p'.types.keys.Nodup := by
  have hintern (ty : Ty) : (p.addType ty).2.types.keys.Nodup := TypeTable.nodup_keys_intern h ty
  cases r with
  | intern ty => exact Build.ensures_update_map (hintern ty)
  | bytePointer => exact Build.ensures_update_map (TypeTable.nodup_keys_intern (hintern _) _)
  | lookup name =>
    refine Build.finds_get.bind fun p' hp' => Build.ensures_pure h
  | setBody t fields =>
    refine (Build.finds_ask _).bind fun types htypes => Build.ensures_update ?_
    exact (TypeTable.keys_setBody htypes).symm ▸ h
  | defineStruct name fields =>
    refine (Build.finds_ask _).bind fun found htypes => Build.ensures_update ?_
    exact Program.nodup_keys_defineStruct h htypes
  | reindex => exact Build.ensures_pure h
  | addModule name => exact Build.ensures_update_map h
  | addStruct m name fields =>
    refine (Build.finds_module m).bind fun _ _ => ?_
    refine (Build.finds_ask _).bind fun found htypes => Build.ensures_update ?_
    exact Program.nodup_keys_defineStruct h htypes
  | declare m name type =>
    refine (Build.finds_paramTypes type).bind fun params _ => ?_
    exact (Build.finds_module m).bind fun _ _ => Build.ensures_update_map (hintern _)
  | define m name type =>
    refine (Build.finds_paramTypes type).bind fun params _ => ?_
    exact (Build.finds_module m).bind fun _ _ => Build.ensures_update_map (hintern _)
  | functionValue f => exact (Build.finds_function f).bind fun _ _ => Build.ensures_pure h
  | param f index => exact (Build.finds_param f index).bind fun _ _ => Build.ensures_pure h
  | addGlobal m name type init =>
    exact (Build.finds_module m).bind fun _ _ => Build.ensures_update_map (hintern _)
  | globalValue g => exact (Build.finds_global g).bind fun _ _ => Build.ensures_pure h
  | setLinkage f _ | enter f | addBlock f =>
    exact (Build.finds_function f).bind fun _ _ => Build.ensures_update h
  | setInit g _ | setGlobalLinkage g _ =>
    exact (Build.finds_global g).bind fun _ _ => Build.ensures_update h
  | nameValue v name => exact (Build.finds_value v).bind fun _ _ => Build.ensures_update h
  | null | undef | int | aggregate | constCast => exact Build.ensures_update_map h
  | constGep base indices =>
    exact (Build.finds_gep base _).bind fun _ _ => Build.ensures_update_map (hintern _)
  | instr site i name =>
    refine i.finds_any.bind fun found _ => (Build.finds_block site).bind fun _ _ => ?_
    refine Build.ensures_update_map ?_
    rw [Program.types_addResult]
    cases found.1 with
    | old t => exact h
    | made ty => exact hintern ty

end Request

end CallTargets
