import CallTargets.Proofs.View

/-!
# Names that records lead to

On a valid program the names that are found in records of types, values and functions are in
range again.
-/

namespace CallTargets

namespace Ty

variable {ty : Ty} {u : TypeId}

theorem mem_parts_of_pointee? (h : ty.pointee? = some u) : u ∈ ty.parts := by
  cases ty <;> simp_all [pointee?, parts]

theorem mem_parts_of_fields? (h : u ∈ ty.fields?.getD []) : u ∈ ty.parts := by
  cases ty <;> simp_all [fields?, parts]

theorem mem_parts_of_element? {index : Option Int} (h : ty.element? index = some u) :
    u ∈ ty.parts := by
  unfold element? at h
  split at h
  · split at h
    · cases h
    · exact List.mem_of_getElem? h
  · cases h
  · cases h
    exact List.mem_cons_self
  · cases h
    exact List.mem_cons_self
  · cases h

end Ty

namespace Program

variable {p : Program} {f : FunctionId} {site : CallSite} {v : ValueId}

theorem exists_type {t : TypeId} (h : p.HasType t) : ∃ ty, p.types.get? t = some ty :=
  ⟨p.types.types[t.index], Array.getElem?_eq_getElem h⟩

theorem exists_global {g : GlobalId} (h : p.HasGlobal g) : ∃ global, p.global? g = some global :=
  ⟨p.globals[g.index], Array.getElem?_eq_getElem h⟩

theorem exists_module {m : ModuleId} (h : p.HasModule m) : ∃ module, p.module? m = some module :=
  ⟨p.modules[m.index], Array.getElem?_eq_getElem h⟩

theorem hasModule_of_eq_some {m : ModuleId} {module : Module} (h : p.module? m = some module) :
    p.HasModule m := (Array.getElem?_eq_some_iff.1 h).1

theorem type?_eq_typeOf (hv : p.HasValue v) : p.type? v = some (p.typeOf v) := by
  obtain ⟨x, hx⟩ := exists_value hv
  simp [typeOf, type?, hx]

theorem isDeclaration_of_mem_instructionsOf (h : v ∈ p.instructionsOf f) :
    p.isDeclaration f = false := by
  unfold instructionsOf at h
  unfold isDeclaration
  cases hf : p.function? f with
  | none => rfl
  | some fn =>
    rw [hf] at h
    cases hblocks : fn.blocks with
    | nil => simp [Function.instructions, hblocks] at h
    | cons b bs => simp [Function.isDeclaration, hblocks]

theorem id_of_callSite? (h : p.callSite? v = some site) : site.id = v := by
  unfold callSite? at h
  split at h
  · cases h
    rfl
  · cases h

theorem callSite?_of_mem_callSites (h : site ∈ p.callSites f) :
    p.callSite? site.id = some site := by
  obtain ⟨v, -, hsite⟩ := List.mem_filterMap.1 h
  rwa [id_of_callSite? hsite]

/-- The calls of a program, module by module and function by function. -/
def calls (p : Program) : List CallSite :=
  (p.modules.toList.flatMap Module.functions).flatMap p.callSites

theorem hasValue_site (h : site ∈ p.callSites f) : p.HasValue site.id :=
  hasValue_of_mem_operands (mem_operands_callee (callSite?_of_mem_callSites h))

namespace Valid

variable {p : Program} (hp : p.Valid) {v : ValueId} {t u : TypeId}
include hp

theorem hasType_part {part : TypeId} {ty : Ty} (ht : p.types.get? t = some ty)
    (hpart : part ∈ ty.parts) : p.HasType part := (hp.records.type ht part hpart).1

theorem caller_eq (h : site ∈ p.callSites f) : site.caller = f := by
  obtain ⟨v, hv, hsite⟩ := List.mem_filterMap.1 h
  unfold instructionsOf at hv
  cases hf : p.function? f with
  | none =>
    rw [hf] at hv
    cases hv
  | some fn =>
    rw [hf] at hv
    obtain ⟨b, hb, hv⟩ := List.mem_flatMap.1 hv
    obtain ⟨place, hplace⟩ := List.mem_iff_getElem?.1 hb
    obtain ⟨-, i, hi, hfunction, -⟩ := ((hp.records.function hf).block place b hplace).instr v hv
    unfold callSite? at hsite
    rw [hi] at hsite
    split at hsite
    · rename_i heq
      cases heq
      cases hsite
      exact hfunction
    · cases hsite

theorem hasType_of_value {x : Value} (hx : p.value? v = some x) : p.HasType x.type :=
  (hp.records.value hx).type

theorem hasType_typeOf (hv : p.HasValue v) : p.HasType (p.typeOf v) := by
  obtain ⟨x, hx⟩ := exists_value hv
  rw [typeOf, type?, hx]
  exact hp.hasType_of_value hx

theorem hasType_of_element? {index : Option Int} (h : p.types.element? t index = some u) :
    p.HasType u := by
  obtain ⟨ty, hty, hu⟩ := Option.bind_eq_some_iff.1 h
  exact hp.hasType_part hty (Ty.mem_parts_of_element? hu)

theorem hasType_of_pointeeOf? (h : p.types.pointee? t = some u) : p.HasType u := by
  obtain ⟨ty, hty, hu⟩ := Option.bind_eq_some_iff.1 h
  exact hp.hasType_part hty (Ty.mem_parts_of_pointee? hu)

theorem hasType_of_pointee? (h : p.pointee? v = some u) : p.HasType u := by
  obtain ⟨t, -, hu⟩ := Option.bind_eq_some_iff.1 h
  exact hp.hasType_of_pointeeOf? hu

theorem hasType_of_functionPointee? (h : p.functionPointee? v = some u) : p.HasType u := by
  obtain ⟨t, -, hu⟩ := Option.bind_eq_some_iff.1 h
  exact hp.hasType_of_pointeeOf? (Option.filter_eq_some_iff.1 hu).1

theorem hasType_innermost (ht : p.HasType t) : p.HasType (p.types.innermost t) := by
  have hgo : ∀ n t, p.HasType t → p.HasType (TypeTable.innermost.go p.types n t) := by
    intro n
    induction n with
    | zero => exact fun _ ht => ht
    | succ n ih =>
      intro t ht
      unfold TypeTable.innermost.go
      split
      · rename_i hpointee
        exact ih _ (hp.hasType_of_pointeeOf? hpointee)
      · exact ht
  exact hgo _ t ht

theorem hasType_of_gep? {g : Gep} (h : p.gep? v = some g) : p.HasType g.source := by
  rcases gep?_eq_some_iff.1 h with h | h
  · exact hp.kindOk h
  · obtain ⟨i, hi, hop⟩ := opcode?_eq_some_iff.1 h
    have hok := (hp.kindOk hi).2.2
    rwa [hop] at hok

theorem hasType_of_call {call : Call} (h : p.opcode? v = some (.call call)) :
    p.HasType call.type := by
  obtain ⟨i, hi, hop⟩ := opcode?_eq_some_iff.1 h
  have hok := (hp.kindOk hi).2.2
  rwa [hop] at hok

theorem hasFunction_of_mem_module {m : Module} (hm : m ∈ p.modules.toList) (hf : f ∈ m.functions) :
    p.HasFunction f :=
  (hp.records.module (hp.module?_id hm)).functions f hf

theorem hasGlobal_of_mem_module {m : Module} (hm : m ∈ p.modules.toList) {g : GlobalId}
    (hg : g ∈ m.globals) : p.HasGlobal g :=
  (hp.records.module (hp.module?_id hm)).globals g hg

theorem hasValue_instruction (hv : v ∈ p.instructionsOf f) : p.HasValue v := by
  cases hf : p.function? f with
  | none => simp [instructionsOf, hf] at hv
  | some fn =>
    rw [instructionsOf, hf, Option.map_some, Option.getD_some] at hv
    obtain ⟨b, hb, hv⟩ := List.mem_flatMap.1 hv
    obtain ⟨i, hi, rfl⟩ := List.mem_iff_getElem.1 hb
    exact (((hp.records.function hf).block i _ (List.getElem?_eq_getElem hi)).instr v hv).1

theorem hasValue_calleeOf (h : site ∈ p.callSites f) : p.HasValue site.call.callee :=
  hp.hasValue_callee (callSite?_of_mem_callSites h)

theorem hasValue_stripUpTo (hv : p.HasValue v) (n : Nat) : p.HasValue (p.stripUpTo n v) := by
  induction n generalizing v with
  | zero => exact hv
  | succ n ih =>
    unfold stripUpTo
    split
    · rename_i hcast
      split
      · exact ih (hp.hasValue_of_cast? hcast)
      · exact hv
    · exact hv

theorem hasValue_strip (hv : p.HasValue v) : p.HasValue (p.strip v) := hp.hasValue_stripUpTo hv _

end Valid

end Program

end CallTargets
