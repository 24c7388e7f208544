import CallTargets.Proofs.Lookup.Query
import CallTargets.Proofs.Program.Range

/-!
# Queries about types and values

What analyses ask about types, values and functions, as queries. On a valid program they are
answered for all names in range.
-/

namespace CallTargets

/-! ## Records by themselves -/

namespace Value

def opcode? (x : Value) : Option Opcode := x.instr?.map Instr.opcode

def cast? (x : Value) : Option (CastOp × ValueId) :=
  match x.kind with
  | .instr { opcode := .cast op operand, .. } => some (op, operand)
  | .const (.cast op operand) => some (op, operand)
  | _ => none

def bitCast? (x : Value) : Option ValueId :=
  match x.cast? with
  | some (.bitCast, operand) => some operand
  | _ => none

def gep? (x : Value) : Option Gep :=
  match x.kind with
  | .instr { opcode := .gep g, .. } => some g
  | .const (.gep g) => some g
  | _ => none

def store? (x : Value) : Option (ValueId × ValueId) :=
  match x.opcode? with
  | some (.store value ptr) => some (value, ptr)
  | _ => none

def load? (x : Value) : Option ValueId :=
  match x.opcode? with
  | some (.load ptr) => some ptr
  | _ => none

def elements? (x : Value) : Option (List ValueId) :=
  match x.const? with
  | some (.aggregate elements) => some elements
  | _ => none

def callSite? (x : Value) (v : ValueId) : Option CallSite :=
  match x.instr? with
  | some { opcode := .call call, function, loc, .. } =>
    some { id := v, caller := function, call, loc }
  | _ => none

end Value

namespace Program

section Record

variable {p : Program} {v w : ValueId} {x : Value} (hx : p.value? v = some x)
include hx

theorem type?_of_value : p.type? v = some x.type := by rw [type?, hx]; rfl

theorem typeOf_of_value : p.typeOf v = x.type := by rw [typeOf, type?_of_value hx]; rfl

theorem opcode?_of_value : p.opcode? v = x.opcode? := by rw [opcode?, instr?, hx]; rfl

theorem const?_of_value : p.const? v = x.const? := by rw [const?, hx]; rfl

theorem operands_of_value : p.operands v = x.operands := by rw [operands, hx]; rfl

theorem cast?_of_value : p.cast? v = x.cast? := by
  rw [cast?, Value.cast?, hx, Option.map_some]
  cases x.kind with
  | const c => cases c <;> rfl
  | instr i =>
    obtain ⟨_, _, opcode, _⟩ := i
    cases opcode <;> rfl
  | _ => rfl

theorem gep?_of_value : p.gep? v = x.gep? := by
  rw [gep?, Value.gep?, hx, Option.map_some]
  cases x.kind with
  | const c => cases c <;> rfl
  | instr i =>
    obtain ⟨_, _, opcode, _⟩ := i
    cases opcode <;> rfl
  | _ => rfl

theorem bitCast?_of_value : p.bitCast? v = x.bitCast? := by
  rw [bitCast?, cast?_of_value hx]
  rfl

theorem store?_of_value : p.store? v = x.store? := by
  rw [store?, opcode?_of_value hx]
  rfl

theorem load?_of_value : p.load? v = x.load? := by
  rw [load?, opcode?_of_value hx]
  rfl

theorem elements?_of_value : p.elements? v = x.elements? := by
  rw [elements?, const?_of_value hx]
  rfl

theorem callSite?_of_value : p.callSite? v = x.callSite? v := by
  rw [callSite?, instr?, hx]
  rfl

end Record

end Program

/-! ## Types -/

namespace Ty

variable {ty : Ty} {u : TypeId}

theorem keyText_some (ty : Ty) (shapes : Shapes) (kinds print : String) :
    ty.keyText shapes (some kinds) (some print) =
      some (Id.run (ty.keyText shapes (pure kinds) (pure print))) := by
  cases ty with
  | struct name fields bodiless =>
    cases name with
    | some name => rfl
    | none => cases hfirst : shapes.first? kinds <;> simp [keyText, hfirst]
  | _ => rfl

theorem mem_parts_of_mem_shown (h : u ∈ ty.shown) : u ∈ ty.parts := by
  unfold shown at h
  split at h
  · cases h
  · exact h

end Ty

namespace Query

def functionPointeeOf? (t : TypeId) : Query (Option TypeId) := do
  match (← type t).pointee? with
  | some pointee => return if (← type pointee).isFunction then some pointee else none
  | none => return none

def fieldKinds (t : TypeId) : Query String := do
  let fields := (← type t).fields?.getD []
  return TypeTable.kindsText (← each fields fun field => do return (← type field).kindCode)

def innermostUpTo : Nat → TypeId → Query TypeId
  | 0, t => return t
  | n + 1, t => do
    match (← type t).pointee? with
    | some pointee => innermostUpTo n pointee
    | none => return t

def innermost (t : TypeId) : Query TypeId := do innermostUpTo ((← counts).types + 1) t

def printUpTo : Nat → TypeId → Query (Option String)
  | 0, _ => return none
  | depth + 1, t => do
    let ty ← type t
    return ((← each ty.shown (printUpTo depth)).mapM id).map ty.textOf

def print (t : TypeId) : Query String := do return (← printUpTo (← counts).types t).getD ""

section Types

variable {p : Program} (hp : p.Valid) {t : TypeId} (ht : p.HasType t)
include hp ht

theorem answer?_functionPointeeOf? :
    (functionPointeeOf? t).answer? p = some (p.types.functionPointee? t) := by
  obtain ⟨ty, hty⟩ := Program.exists_type ht
  simp only [functionPointeeOf?, TypeTable.functionPointee?, TypeTable.pointee?, hty,
    answer?_bind, answer?_type, Option.bind_some]
  cases hpointee : ty.pointee? with
  | none => rfl
  | some u =>
    obtain ⟨ty', hty'⟩ :=
      Program.exists_type (hp.hasType_part hty (Ty.mem_parts_of_pointee? hpointee))
    simp [hty', TypeTable.isFunction, Option.filter]

theorem answer?_fieldKinds : (fieldKinds t).answer? p = some (p.types.fieldKinds t) := by
  obtain ⟨ty, hty⟩ := Program.exists_type ht
  have hkinds : ∀ field ∈ ty.fields?.getD [],
      (do return (← type field).kindCode : Query Nat).answer? p =
        some (((p.types.get? field).map Ty.kindCode).getD 0) := by
    intro field hfield
    obtain ⟨ty', hty'⟩ :=
      Program.exists_type (hp.hasType_part hty (Ty.mem_parts_of_fields? hfield))
    simp [hty']
  simp [fieldKinds, TypeTable.fieldKinds, TypeTable.fields?, hty, answer?_each hkinds]

theorem answer?_innermostUpTo (n : Nat) :
    (innermostUpTo n t).answer? p = some (TypeTable.innermost.go p.types n t) := by
  induction n generalizing t with
  | zero => rfl
  | succ n ih =>
    obtain ⟨ty, hty⟩ := Program.exists_type ht
    simp only [innermostUpTo, TypeTable.innermost.go, TypeTable.pointee?, hty, answer?_bind,
      answer?_type, Option.bind_some]
    cases hpointee : ty.pointee? with
    | none => rfl
    | some u => exact ih (hp.hasType_part hty (Ty.mem_parts_of_pointee? hpointee))

theorem answer?_innermost : (innermost t).answer? p = some (p.types.innermost t) :=
  answer?_innermostUpTo hp ht (p.types.size + 1)

theorem answer?_printUpTo (depth : Nat) :
    (printUpTo depth t).answer? p = some (p.types.printUpTo depth t) := by
  induction depth generalizing t with
  | zero => rfl
  | succ depth ih =>
    obtain ⟨ty, hty⟩ := Program.exists_type ht
    have hparts : ∀ u ∈ ty.shown,
        (printUpTo depth u).answer? p = some (p.types.printUpTo depth u) := fun u hu =>
      ih (hp.hasType_part hty (Ty.mem_parts_of_mem_shown hu))
    simp [printUpTo, TypeTable.printUpTo, hty, answer?_each hparts, Option.map_eq_bind,
      Function.comp_def]

theorem answer?_print : (print t).answer? p = some (p.types.print t) := by
  simp [print, answer?_printUpTo hp ht, TypeTable.print, TypeTable.print?, Program.counts]

end Types

/-! ## Values -/

section Read

variable {β : Type}

def ofType (read : Ty → β) (t : TypeId) : Query β := do return read (← type t)

def ofValue (read : Value → β) (v : ValueId) : Query β := do return read (← value v)

def ofFunction (read : Function → β) (f : FunctionId) : Query β := do return read (← function f)

variable {p : Program} {t : TypeId} {v : ValueId} {f : FunctionId}

theorem answer?_ofType_any {read : Ty → Bool} (ht : p.HasType t) :
    (ofType read t).answer? p = some ((p.types.get? t).any read) := by
  obtain ⟨ty, hty⟩ := Program.exists_type ht
  simp [ofType, hty]

theorem answer?_ofType_bind {read : Ty → Option β} (ht : p.HasType t) :
    (ofType read t).answer? p = some ((p.types.get? t).bind read) := by
  obtain ⟨ty, hty⟩ := Program.exists_type ht
  simp [ofType, hty]

theorem answer?_isPointerType (ht : p.HasType t) :
    (ofType Ty.isPointer t).answer? p = some (p.types.isPointer t) := answer?_ofType_any ht

theorem answer?_isIntegerType (ht : p.HasType t) :
    (ofType Ty.isInteger t).answer? p = some (p.types.isInteger t) := answer?_ofType_any ht

theorem answer?_isStructType (ht : p.HasType t) :
    (ofType Ty.isStruct t).answer? p = some (p.types.isStruct t) := answer?_ofType_any ht

theorem answer?_isCompositeType (ht : p.HasType t) :
    (ofType Ty.isComposite t).answer? p = some (p.types.isComposite t) := answer?_ofType_any ht

theorem answer?_pointeeOf? (ht : p.HasType t) :
    (ofType Ty.pointee? t).answer? p = some (p.types.pointee? t) := answer?_ofType_bind ht

theorem answer?_ofValue {read : Value → β} {b : β} (hv : p.HasValue v)
    (hb : ∀ {x}, p.value? v = some x → b = read x) : (ofValue read v).answer? p = some b := by
  obtain ⟨x, hx⟩ := Program.exists_value hv
  simp [ofValue, hx, hb hx]

theorem answer?_ofFunction_any {read : Function → Bool} (hf : p.HasFunction f) :
    (ofFunction read f).answer? p = some ((p.function? f).any read) := by
  obtain ⟨fn, hfn⟩ := Program.exists_function hf
  simp [ofFunction, hfn]

end Read

def typeOf : ValueId → Query TypeId := ofValue Value.type

def opcode? : ValueId → Query (Option Opcode) := ofValue Value.opcode?

def const? : ValueId → Query (Option Const) := ofValue Value.const?

def operands : ValueId → Query (List ValueId) := ofValue Value.operands

def cast? : ValueId → Query (Option (CastOp × ValueId)) := ofValue Value.cast?

def bitCast? : ValueId → Query (Option ValueId) := ofValue Value.bitCast?

def gep? : ValueId → Query (Option Gep) := ofValue Value.gep?

def store? : ValueId → Query (Option (ValueId × ValueId)) := ofValue Value.store?

def load? : ValueId → Query (Option ValueId) := ofValue Value.load?

def elements? : ValueId → Query (Option (List ValueId)) := ofValue Value.elements?

def callSite? (v : ValueId) : Query (Option CallSite) := ofValue (Value.callSite? · v) v

def isArgument : ValueId → Query Bool := ofValue Value.isArgument

def pointee? (v : ValueId) : Query (Option TypeId) := do ofType Ty.pointee? (← typeOf v)

def isPointer (v : ValueId) : Query Bool := do ofType Ty.isPointer (← typeOf v)

def isComposite (v : ValueId) : Query Bool := do ofType Ty.isComposite (← typeOf v)

def functionPointee? (v : ValueId) : Query (Option TypeId) := do functionPointeeOf? (← typeOf v)

def stripUpTo : Nat → ValueId → Query ValueId
  | 0, v => return v
  | n + 1, v => do
    match ← cast? v with
    | some (op, operand) => if op.keepsPointer then stripUpTo n operand else return v
    | none => return v

def strip (v : ValueId) : Query ValueId := do stripUpTo ((← counts).values + 1) v

def baseFunction? (v : ValueId) : Query (Option FunctionId) := do
  ofValue Value.function? (← strip v)

/-! ## Functions -/

def functionName : FunctionId → Query String := ofFunction Function.name

def isDeclaration : FunctionId → Query Bool := ofFunction Function.isDeclaration

def isIntrinsic : FunctionId → Query Bool := ofFunction Function.isIntrinsic

def instructionsOf (f : FunctionId) : Query (List ValueId) := do
  let places := List.range (← function f).blocks.length
  return (← each places fun i => block f ⟨i⟩).flatMap Block.instructions

def callSites (f : FunctionId) : Query (List CallSite) := do
  filterMap callSite? (← instructionsOf f)

def definedIn (m : Module) : Query (List FunctionId) :=
  filter (fun f => do return !(← isDeclaration f)) m.functions

def valueIds : Query (List ValueId) := do return (List.range (← counts).values).map ValueId.mk

def functionIds : Query (List FunctionId) := do
  return (List.range (← counts).functions).map FunctionId.mk

def modules : Query (List Module) := do each (List.range (← counts).modules) fun i => module ⟨i⟩

end Query

/-! ## Answers -/

section Value

open Query

variable {p : Program} {v : ValueId} (hv : p.HasValue v)
include hv

theorem Query.answer?_typeOf : (typeOf v).answer? p = some (p.typeOf v) :=
  answer?_ofValue hv Program.typeOf_of_value

theorem Query.answer?_opcode? : (opcode? v).answer? p = some (p.opcode? v) :=
  answer?_ofValue hv Program.opcode?_of_value

theorem Query.answer?_const? : (const? v).answer? p = some (p.const? v) :=
  answer?_ofValue hv Program.const?_of_value

theorem Query.answer?_operands : (operands v).answer? p = some (p.operands v) :=
  answer?_ofValue hv Program.operands_of_value

theorem Query.answer?_cast? : (cast? v).answer? p = some (p.cast? v) :=
  answer?_ofValue hv Program.cast?_of_value

theorem Query.answer?_bitCast? : (bitCast? v).answer? p = some (p.bitCast? v) :=
  answer?_ofValue hv Program.bitCast?_of_value

theorem Query.answer?_gep? : (gep? v).answer? p = some (p.gep? v) :=
  answer?_ofValue hv Program.gep?_of_value

theorem Query.answer?_store? : (store? v).answer? p = some (p.store? v) :=
  answer?_ofValue hv Program.store?_of_value

theorem Query.answer?_load? : (load? v).answer? p = some (p.load? v) :=
  answer?_ofValue hv Program.load?_of_value

theorem Query.answer?_elements? : (elements? v).answer? p = some (p.elements? v) :=
  answer?_ofValue hv Program.elements?_of_value

theorem Query.answer?_callSite? : (callSite? v).answer? p = some (p.callSite? v) :=
  answer?_ofValue hv Program.callSite?_of_value

theorem Query.answer?_isArgument : (isArgument v).answer? p = some (p.isArgument v) :=
  answer?_ofValue hv fun hx => by rw [Program.isArgument, hx, Option.any_some]

theorem Query.answer?_functionAt :
    (ofValue Value.function? v).answer? p = some ((p.value? v).bind Value.function?) :=
  answer?_ofValue hv fun hx => by rw [hx, Option.bind_some]

theorem Query.answer?_globalAt :
    (ofValue Value.global? v).answer? p = some ((p.value? v).bind Value.global?) :=
  answer?_ofValue hv fun hx => by rw [hx, Option.bind_some]

variable (hp : p.Valid)
include hp

theorem Query.answer?_usersOf : (users v).answer? p = some (p.usersOf v) := by
  rw [answer?_users, hp.getElem?_users hv]

theorem Query.answer?_pointee? : (pointee? v).answer? p = some (p.pointee? v) := by
  simp [pointee?, answer?_typeOf hv, answer?_pointeeOf? (hp.hasType_typeOf hv), Program.pointee?,
    Program.type?_eq_typeOf hv]

theorem Query.answer?_isPointer : (isPointer v).answer? p = some (p.isPointer v) := by
  simp [isPointer, answer?_typeOf hv, answer?_isPointerType (hp.hasType_typeOf hv),
    Program.isPointer, Program.type?_eq_typeOf hv]

theorem Query.answer?_isComposite : (isComposite v).answer? p = some (p.isComposite v) := by
  simp [isComposite, answer?_typeOf hv, answer?_isCompositeType (hp.hasType_typeOf hv),
    Program.isComposite, Program.type?_eq_typeOf hv]

theorem Query.answer?_functionPointee? :
    (functionPointee? v).answer? p = some (p.functionPointee? v) := by
  simp [functionPointee?, answer?_typeOf hv, answer?_functionPointeeOf? hp (hp.hasType_typeOf hv),
    Program.functionPointee?, Program.type?_eq_typeOf hv]

theorem Query.answer?_stripUpTo (n : Nat) :
    (stripUpTo n v).answer? p = some (p.stripUpTo n v) := by
  induction n generalizing v with
  | zero => rfl
  | succ n ih =>
    simp only [stripUpTo, Program.stripUpTo, answer?_bind, answer?_cast? hv, Option.bind_some]
    cases hcast : p.cast? v with
    | none => rfl
    | some c =>
      obtain ⟨op, operand⟩ := c
      cases hkeeps : op.keepsPointer with
      | true => simpa [hkeeps] using ih (hp.hasValue_of_cast? hcast)
      | false => simp [hkeeps]

theorem Query.answer?_strip : (strip v).answer? p = some (p.strip v) :=
  answer?_stripUpTo hv hp (p.values.size + 1)

theorem Query.answer?_baseFunction? : (baseFunction? v).answer? p = some (p.baseFunction? v) := by
  simp [baseFunction?, answer?_strip hv hp, answer?_functionAt (hp.hasValue_strip hv),
    Program.baseFunction?]

end Value

namespace Query

section Function

variable {p : Program} {f : FunctionId} (hf : p.HasFunction f)
include hf

theorem answer?_functionName : (functionName f).answer? p = some (p.functionName f) := by
  obtain ⟨fn, hfn⟩ := Program.exists_function hf
  simp [functionName, ofFunction, Program.functionName, hfn]

theorem answer?_isDeclaration : (isDeclaration f).answer? p = some (p.isDeclaration f) :=
  answer?_ofFunction_any hf

theorem answer?_isIntrinsic : (isIntrinsic f).answer? p = some (p.isIntrinsic f) :=
  answer?_ofFunction_any hf

theorem answer?_instructionsOf : (instructionsOf f).answer? p = some (p.instructionsOf f) := by
  obtain ⟨fn, hfn⟩ := Program.exists_function hf
  have heach : ∀ i ∈ List.range fn.blocks.length,
      (block f ⟨i⟩).answer? p = some (fn.blocks[i]?.getD ⟨⟨i⟩, []⟩) := by
    intro i hi
    simp [hfn, List.mem_range.1 hi]
  have hblocks : (List.range fn.blocks.length).map (fun i => fn.blocks[i]?.getD ⟨⟨i⟩, []⟩) =
      fn.blocks := by
    refine List.ext_getElem (by simp) fun i hi hi' => ?_
    simp [hi']
  simp [instructionsOf, hfn, answer?_each heach, hblocks, Program.instructionsOf,
    Function.instructions]

theorem answer?_callSites (hp : p.Valid) : (callSites f).answer? p = some (p.callSites f) := by
  have hsite : ∀ v ∈ p.instructionsOf f, (callSite? v).answer? p = some (p.callSite? v) :=
    fun v hv => answer?_callSite? (hp.hasValue_instruction hv)
  simp [callSites, answer?_instructionsOf hf, answer?_filterMap hsite, Program.callSites]

end Function

theorem answer?_definedIn {p : Program} (hp : p.Valid) {m : Module} (hm : m ∈ p.modules.toList) :
    (definedIn m).answer? p = some (m.functions.filter fun f => !p.isDeclaration f) := by
  refine answer?_filter fun f hf => ?_
  simp [answer?_isDeclaration (hp.hasFunction_of_mem_module hm hf)]

section Ids

variable {p : Program}

theorem answer?_valueIds : valueIds.answer? p = some p.valueIds := rfl

theorem answer?_functionIds : functionIds.answer? p = some p.functionIds := rfl

theorem answer?_modules : modules.answer? p = some p.modules.toList := by
  have heach : ∀ i ∈ List.range p.modules.size,
      (module ⟨i⟩).answer? p = some (p.modules.getD i ⟨0, "", [], [], []⟩) := by
    intro i hi
    simp [Program.module?, Array.getD, List.mem_range.1 hi]
  simp only [modules, answer?_bind, answer?_counts, Option.bind_some, Program.counts,
    answer?_each heach, Option.some.injEq]
  refine List.ext_getElem (by simp) fun i hi hi' => ?_
  simp only [Array.length_toList] at hi'
  simp [Array.getD, hi']

end Ids

end Query

end CallTargets
