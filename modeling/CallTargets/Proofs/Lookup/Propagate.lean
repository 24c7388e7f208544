import CallTargets.Proofs.Lookup.Confine

/-!
# Queries that record copies between layers

Stores and conversions let functions pass from layer to layer, as queries, and so does all
that a module contributes.
-/

namespace CallTargets

namespace Query

/-! ## Queries -/

section Propagate

variable (index : View.Index)

def propagateTo (g : Gathered) (ptr : ValueId) (source : Layer TypeKey) : Query Gathered :=
  recordChain index g ptr fun facts l => facts.propagate l source

def escapeTo (g : Gathered) (ptr : ValueId) : Query Gathered := recordChain index g ptr Facts.escape

def layersOf (v : ValueId) : Query (List (Layer TypeId)) := do
  match (← nextLayers (← valueIds) v).2 with
  | .answered (layers, _) => return layers
  | .exhausted _ => return []

def isSettled (v : ValueId) : Query Bool := do
  return (← const? v).any fun c => c.isData || c.isAggregate

/-- A pointer behind which no layers are known is copied to what another one points to. -/
def propagatePointer (g : Gathered) (store ptr value : ValueId) : Query Gathered := do
  match ← functionPointee? (← strip value) with
  | some t =>
    if (← baseFunction? value).isSome then return g
    else
      let g ← propagateTo index g ptr (← layer index ⟨t, .any⟩)
      if store ∈ g.tracedStores then return g else escapeTo index g ptr
  | none => if ← isPointer value then escapeTo index g ptr else return g

def propagateStore (g : Gathered) (store ptr value : ValueId) : Query Gathered := do
  if ← isSettled value then return g
  else
    match ← layersOf value with
    | l :: ls => fold (fun g l => do propagateTo index g ptr (← layer index l)) g (l :: ls)
    | [] =>
      match ← baseType? g.aliases value with
      | some t => propagateTo index g ptr (← layer index ⟨t, .any⟩)
      | none => propagatePointer index g store ptr value

def isMemcpy (callee : ValueId) : Query Bool := do
  match ← baseFunction? callee with
  | some f => return Text.startsWith (← functionName f) "llvm.memcpy"
  | none => return false

def copy? (v : ValueId) : Query (Option (ValueId × ValueId)) := do
  match ← opcode? v with
  | some (.store value ptr) => return some (ptr, value)
  | some (.call { callee, args := ptr :: value :: _, .. }) =>
    return if ← isMemcpy callee then some (ptr, value) else none
  | _ => return none

def conversions (f : FunctionId) : Query (OrdSet ValueId) := do
  fold (fun found v => do
    let found := if (← cast? v).isSome then found.insert v else found
    return found.insertMany (← filter (fun operand => do
      return (← const? operand).isSome && (← bitCast? operand).isSome) (← operands v))) ∅
    (← instructionsOf f)

/-- The type is that of memory without structure. -/
def isUntyped : TypeId → Query Bool := ofType fun
  | .void | .integer _ => true
  | _ => false

/-- The type that a conversion makes untyped or takes from untyped memory. -/
def reinterpretation? (source target : TypeId) : Query (Option (TypeId × Bool)) := do
  let inner ← innermost source
  let outer ← innermost target
  match ← ofType Ty.isPointer source, ← ofType Ty.isPointer target with
  | true, true =>
    if (← ofType Ty.isStruct inner) && (← isUntyped outer) then return some (inner, false)
    else if (← ofType Ty.isStruct outer) && (← isUntyped inner) then return some (outer, false)
    else return none
  | true, false => return if ← ofType Ty.isInteger target then some (inner, true) else none
  | false, true => return if ← ofType Ty.isInteger source then some (outer, true) else none
  | false, false => return none

/-- The struct that a conversion makes untyped or takes from untyped memory. -/
def reinterpreted? (source target : TypeId) : Query (Option (TypeId × Bool)) := do
  match ← reinterpretation? source target with
  | some found => return if ← ofType Ty.isStruct found.1 then some found else none
  | none => return none

def propagateCast (g : Gathered) (v : ValueId) : Query Gathered := do
  match ← cast? v with
  | some (_, operand) =>
    match ← reinterpreted? (← typeOf operand) (← typeOf v) with
    | some (t, throughInteger) =>
      let key ← typeKey index t
      let g := g.record (·.cap key)
      return if throughInteger then g.record (·.escape ⟨key, .any⟩) else g
    | none => return g
  | none => return g

def propagateInstr (g : Gathered) (v : ValueId) : Query Gathered := do
  match ← copy? v with
  | some (ptr, value) => propagateStore index g v ptr value
  | none => return g

def propagateIn (g : Gathered) (f : FunctionId) : Query Gathered := do
  let g ← fold (propagateInstr index) g (← instructionsOf f)
  fold (propagateCast index) g (← conversions f).toList

def gatherFunction (flow : Option Flow) (g : Gathered) (f : FunctionId) : Query Gathered := do
  let g ← collectAliases g f
  let g ← confineIn index flow g f
  propagateIn index g f

def gather (flow : Option Flow) (g : Gathered) (m : Module) : Query Gathered := do
  let g ← fold (confineInit index) g m.globals
  fold (gatherFunction index flow) g (← definedIn m)

/-- Puts definitions in the place of declarations. -/
def linkGathered (g : Gathered) : Query Gathered := do
  let confined ← mapValues g.facts.confined fun fields =>
    mapValues fields fun functions => image functions (definitionOf index)
  let stored ← image g.facts.stored (definitionOf index)
  return { g with facts := { g.facts with confined, stored } }

end Propagate

/-! ## Answers -/

section Types

variable {p : Program} (hp : p.Valid) {s t : TypeId} (hs : p.HasType s) (ht : p.HasType t)

include ht in
theorem answer?_isUntyped : (isUntyped t).answer? p = some (Gathered.isUntyped p.types t) := by
  obtain ⟨ty, hty⟩ := Program.exists_type ht
  cases ty <;> simp [isUntyped, ofType, Gathered.isUntyped, hty]

include hp hs ht

theorem answer?_reinterpretation? : (reinterpretation? s t).answer? p =
    some (Gathered.reinterpretation? p.types s t) := by
  have hinner := hp.hasType_innermost hs
  have houter := hp.hasType_innermost ht
  simp only [reinterpretation?, Gathered.reinterpretation?, answer?_bind,
    answer?_innermost hp hs, answer?_innermost hp ht, answer?_isPointerType hs,
    answer?_isPointerType ht, Option.bind_some]
  cases p.types.isPointer s <;> cases p.types.isPointer t
  · rfl
  · simp [answer?_isIntegerType hs]
  · simp [answer?_isIntegerType ht]
  · simp only [answer?_bind, answer?_ite, answer?_isStructType hinner,
      answer?_isStructType houter, answer?_isUntyped hinner, answer?_isUntyped houter,
      Option.bind_some, answer?_pure]
    split
    · rfl
    · split <;> rfl

theorem answer?_reinterpreted? : (reinterpreted? s t).answer? p =
    some (Gathered.reinterpreted? p.types s t) := by
  simp only [reinterpreted?, Gathered.reinterpreted?, answer?_bind,
    answer?_reinterpretation? hp hs ht, Option.bind_some]
  cases hfound : Gathered.reinterpretation? p.types s t with
  | none => rfl
  | some found =>
    have hrange := hp.hasType_of_reinterpretation? hs ht hfound
    cases hstruct : p.types.isStruct found.1 <;>
      simp [answer?_isStructType hrange, hstruct, Option.filter]

end Types

section Propagate

variable {view : View} (hview : view.Valid) {g : Gathered} (hg : g.InRange view.program)
  {v : ValueId} {f : FunctionId}
include hview

theorem answer?_propagateTo (hg : g.InRange view.program) (hv : view.program.HasValue v)
    (source : Layer TypeKey) :
    (propagateTo view.index g v source).answer? view.program = some (g.propagateTo view v source) :=
  answer?_recordChain hview hg hv _

theorem answer?_escapeTo (hg : g.InRange view.program) (hv : view.program.HasValue v) :
    (escapeTo view.index g v).answer? view.program = some (g.escapeTo view v) :=
  answer?_recordChain hview hg hv _

theorem answer?_layersOf (v : ValueId) :
    (layersOf v).answer? view.program = some (Gathered.layersOf view.program v) := by
  simp only [layersOf, Gathered.layersOf, answer?_bind, answer?_valueIds, Option.bind_some,
    answer?_nextLayers hview.program fun u hu => Program.mem_valueIds.1 hu]
  cases (view.program.nextLayers view.program.valueIds v).2 <;> rfl

omit hview in
theorem answer?_isSettled (hv : view.program.HasValue v) :
    (isSettled v).answer? view.program = some (Gathered.isSettled view.program v) := by
  simp [isSettled, answer?_const? hv, Gathered.isSettled]

theorem answer?_propagatePointer (hg : g.InRange view.program) (store : ValueId)
    {value ptr : ValueId} (hvalue : view.program.HasValue value)
    (hptr : view.program.HasValue ptr) :
    (propagatePointer view.index g store ptr value).answer? view.program =
      some (Gathered.propagatePointer view g store ptr value) := by
  have hp := hview.program
  simp only [propagatePointer, Gathered.propagatePointer, answer?_bind, answer?_strip hvalue hp,
    answer?_functionPointee? (hp.hasValue_strip hvalue) hp, Option.bind_some]
  cases hpointee : view.program.functionPointee? (view.program.strip value) with
  | none =>
    simp only [answer?_bind, answer?_ite, answer?_isPointer hvalue hp, Option.bind_some,
      answer?_escapeTo hview hg hptr, answer?_pure]
    cases view.program.isPointer value <;> rfl
  | some t =>
    have ht : view.program.HasType t := hp.hasType_of_functionPointee? hpointee
    have hcopied : (g.propagateTo view ptr (view.layer ⟨t, .any⟩)).InRange view.program :=
      hg.notes (.propagateTo trivial _)
    simp only [answer?_bind, answer?_ite, answer?_baseFunction? hvalue hp, Option.bind_some,
      answer?_wholeLayer hview ht, answer?_propagateTo hview hg hptr,
      answer?_escapeTo hview hcopied hptr, answer?_pure]
    cases (view.program.baseFunction? value).isSome with
    | true => rfl
    | false =>
      simp only [Bool.false_eq_true, if_false]
      split <;> rfl

theorem answer?_propagateStore (hg : g.InRange view.program) (store : ValueId)
    {value ptr : ValueId} (hvalue : view.program.HasValue value)
    (hptr : view.program.HasValue ptr) :
    (propagateStore view.index g store ptr value).answer? view.program =
      some (g.propagateStore view store ptr value) := by
  have hp := hview.program
  simp only [propagateStore, Gathered.propagateStore, answer?_bind, answer?_ite,
    answer?_isSettled hvalue, answer?_layersOf hview, Option.bind_some]
  cases Gathered.isSettled view.program value with
  | true => rfl
  | false =>
    simp only [Bool.false_eq_true, if_false]
    cases hlayers : Gathered.layersOf view.program value with
    | cons l ls =>
      have hrange : view.program.HasLayers (l :: ls) := hlayers ▸ hp.hasLayers_layersOf hvalue
      refine answer?_fold_of_keeps (fun g l _ hg => hg.notes (.propagateTo trivial (view.layer l)))
        (fun g l hl hg => ?_) hg
      simp [answer?_layer hview (hrange l hl), answer?_propagateTo hview hg hptr]
    | nil =>
      simp only [answer?_bind, answer?_baseType? hp hg.aliases, Option.bind_some]
      cases hbase : view.program.baseType? g.aliases value with
      | none => exact answer?_propagatePointer hview hg store hvalue hptr
      | some t =>
        simp [answer?_wholeLayer hview (hp.hasType_of_baseType? hbase),
          answer?_propagateTo hview hg hptr]

omit hview in
theorem answer?_isMemcpy (hp : view.program.Valid) (hv : view.program.HasValue v) :
    (isMemcpy v).answer? view.program = some ((view.program.baseFunction? v).any fun f =>
      Text.startsWith (view.program.functionName f) "llvm.memcpy") := by
  simp only [isMemcpy, answer?_bind, answer?_baseFunction? hv hp, Option.bind_some]
  cases hbase : view.program.baseFunction? v with
  | none => rfl
  | some f => simp [answer?_functionName (hp.hasFunction_base hbase)]

theorem answer?_copy? (hv : view.program.HasValue v) :
    (copy? v).answer? view.program = some (Gathered.copy? view.program v) := by
  simp only [copy?, Gathered.copy?, answer?_bind, answer?_opcode? hv, Option.bind_some]
  cases hop : view.program.opcode? v with
  | none => rfl
  | some op =>
    cases op with
    | call call =>
      obtain ⟨callee, args, type, sret⟩ := call
      have hcallee : view.program.HasValue callee :=
        hview.program.hasValue_of_opcode? hop (List.mem_append_right _ List.mem_cons_self)
      rcases args with _ | ⟨ptr, _ | ⟨value, rest⟩⟩
      · rfl
      · rfl
      · simp only [answer?_bind, answer?_isMemcpy hview.program hcallee, Option.bind_some,
          answer?_pure]
        cases view.program.baseFunction? callee with
        | none => rfl
        | some f =>
          cases hname : Text.startsWith (view.program.functionName f) "llvm.memcpy" <;>
            simp [Option.filter, hname]
    | _ => rfl

theorem answer?_conversions (hf : view.program.HasFunction f) :
    (conversions f).answer? view.program = some (Gathered.conversions view.program f) := by
  simp only [conversions, answer?_bind, answer?_instructionsOf hf, Option.bind_some]
  refine answer?_fold (fun found v hv => ?_) ∅
  have hv := hview.program.hasValue_instruction hv
  have hconstant : ∀ u ∈ view.program.operands v, (do
      return (← const? u).isSome && (← bitCast? u).isSome : Query Bool).answer? view.program =
        some ((view.program.const? u).isSome && (view.program.bitCast? u).isSome) := fun u hu => by
    have hu := hview.program.hasValue_operand hu
    simp [answer?_const? hu, answer?_bitCast? hu]
  simp [answer?_cast? hv, answer?_operands hv, answer?_filter hconstant]

theorem answer?_propagateCast (hv : view.program.HasValue v) :
    (propagateCast view.index g v).answer? view.program = some (g.propagateCast view v) := by
  have hp := hview.program
  simp only [propagateCast, Gathered.propagateCast, answer?_bind, answer?_cast? hv,
    Option.bind_some]
  cases hcast : view.program.cast? v with
  | none => rfl
  | some cast =>
    obtain ⟨op, operand⟩ := cast
    have hoperand := hp.hasValue_of_cast? hcast
    have hsource := hp.hasType_typeOf hoperand
    have htarget := hp.hasType_typeOf hv
    simp only [answer?_bind, answer?_typeOf hoperand, answer?_typeOf hv, Option.bind_some,
      answer?_reinterpreted? hp hsource htarget]
    cases hfound : Gathered.reinterpreted? view.program.types (view.program.typeOf operand)
        (view.program.typeOf v) with
    | none => rfl
    | some found =>
      rw [Gathered.reinterpreted?] at hfound
      have hrange := hp.hasType_of_reinterpretation? hsource htarget
        (Option.filter_eq_some_iff.1 hfound).1
      obtain ⟨t, throughInteger⟩ := found
      simp only [answer?_bind, answer?_typeKey hview hrange, Option.bind_some, answer?_pure]

theorem answer?_propagateInstr (hg : g.InRange view.program) (hv : view.program.HasValue v) :
    (propagateInstr view.index g v).answer? view.program =
      some (Gathered.propagateInstr view g v) := by
  simp only [propagateInstr, Gathered.propagateInstr, answer?_bind, answer?_copy? hview hv,
    Option.bind_some]
  cases hcopy : Gathered.copy? view.program v with
  | none => rfl
  | some copy =>
    have hoperand := hview.program.hasValue_of_copy? hcopy
    exact answer?_propagateStore hview hg v hoperand.2 hoperand.1

theorem answer?_propagateIn (hg : g.InRange view.program) (hf : view.program.HasFunction f) :
    (propagateIn view.index g f).answer? view.program = some (g.propagateIn view f) := by
  have hcopies : (fold (propagateInstr view.index) g (view.program.instructionsOf f)).answer?
      view.program =
        some ((view.program.instructionsOf f).foldl (Gathered.propagateInstr view) g) := by
    refine answer?_fold_of_keeps ?_ (fun g v hv (hg : g.InRange view.program) =>
      answer?_propagateInstr hview hg (hview.program.hasValue_instruction hv)) hg
    exact fun _ v _ hg => hg.notes (.propagateInstr trivial fun _ _ => trivial)
  simp only [propagateIn, Gathered.propagateIn, answer?_bind, answer?_instructionsOf hf,
    answer?_conversions hview hf, hcopies, Option.bind_some]
  exact answer?_fold (fun g v hv =>
    answer?_propagateCast hview (hview.program.hasValue_of_mem_conversions hv)) _

end Propagate

section Gather

variable {view : View} (hview : view.Valid) {g : Gathered} (hg : g.InRange view.program)
  {flow : Option Flow} (hflow : ∀ fl, flow = some fl → fl.InRange view.program)
include hview

include hg hflow in
theorem answer?_gatherFunction {f : FunctionId} (hf : view.program.HasFunction f) :
    (gatherFunction view.index flow g f).answer? view.program =
      some (Gathered.function view flow g f) := by
  have haliases := hg.collectAliases hview.program f
  simp only [gatherFunction, answer?_bind, answer?_collectAliases hview hf, Option.bind_some,
    answer?_confineIn hview haliases hflow hf]
  exact answer?_propagateIn hview (haliases.confineIn hview hflow f) hf

include hg hflow in
theorem answer?_gather {m : Module} (hm : m ∈ view.program.modules.toList) :
    (gather view.index flow g m).answer? view.program = some (g.module view flow m) := by
  have hglobals : (fold (confineInit view.index) g m.globals).answer? view.program =
      some (m.globals.foldl (fun g id => g.confineInit view id) g) :=
    answer?_fold (fun _ id hid =>
      answer?_confineInit hview (hview.program.hasGlobal_of_mem_module hm hid)) g
  simp only [gather, Gathered.module, answer?_bind, hglobals, answer?_definedIn hview.program hm,
    Option.bind_some]
  refine answer?_fold_of_keeps (fun _ f _ hg => hg.function hview hflow f) (fun _ f hf hg =>
    answer?_gatherFunction hview hg hflow (hview.program.hasFunction_of_mem_module hm
      (List.mem_of_mem_filter hf))) ?_
  exact hg.notes (.foldl fun id _ => .confineInit hview.program.kindOk id)

include hg in
theorem answer?_linkGathered :
    (linkGathered view.index g).answer? view.program = some (g.linked view) := by
  have himage : ∀ {functions : OrdSet FunctionId}, (∀ f ∈ functions, view.program.HasFunction f) →
      (image functions (definitionOf view.index)).answer? view.program =
        some (functions.image view.definitionOf) := fun h =>
    answer?_image fun f hf => answer?_definitionOf hview (h f hf)
  have hconfined : (mapValues g.facts.confined fun fields => mapValues fields fun functions =>
      image functions (definitionOf view.index)).answer? view.program =
        some (g.facts.confined.mapValues fun _ fields => fields.mapValues fun _ s =>
          s.image view.definitionOf) :=
    answer?_mapValues fun e he => answer?_mapValues fun e' he' =>
      himage (hg.facts.confined e he e' he')
  simp only [linkGathered, answer?_bind, hconfined, himage hg.facts.stored, Option.bind_some,
    answer?_pure]
  rfl

end Gather

end Query

end CallTargets
