import CallTargets.Proofs.Lookup.Flow
import CallTargets.Proofs.Lookup.Walk

/-!
# Queries that confine functions to layers

Initial values, stores and calls confine functions to the layers behind pointers, as queries.
They are answered as long as all that was gathered is in range.
-/

namespace CallTargets

namespace Query

/-! ## Queries -/

section Confine

variable (index : View.Index)

def recordChain (g : Gathered) (v : ValueId)
    (change : Facts TypeKey → Layer TypeKey → Facts TypeKey) : Query Gathered := do
  let (layers, complete) ← typeChain g.aliases v
  let layers ← each layers (layer index)
  let cap := if complete then none else layers.getLast?.map Layer.type
  return g.record fun facts => layers.foldl change (facts.capAny cap)

def confineTarget (g : Gathered) (target : ValueId) (f : FunctionId) : Query Gathered := do
  if ← isIntrinsic f then return g
  else recordChain index (g.record (·.markStored f)) target fun facts l => facts.confine l f

def pointsToByte (v : ValueId) : Query Bool := do
  match ← pointee? v with
  | some t => return (← type t) = .integer 8
  | none => return false

def pointsToComposite (v : ValueId) : Query Bool := do
  match ← pointee? v with
  | some t => ofType Ty.isComposite t
  | none => return false

def aliasOf? (v : ValueId) : Query (Option ValueId) := do
  match ← opcode? v with
  | some (.cast _ operand) =>
    if (← opcode? operand).any Opcode.isCall && (← pointsToByte operand)
        && (← pointsToComposite v) then
      return some operand
    else return none
  | _ => return none

/-- Remembers results of calls that have one conversion of that kind only. -/
def collectAliases (g : Gathered) (f : FunctionId) : Query Gathered := do
  let found : OrdMap ValueId (Option ValueId) ← fold (fun found v => do
    match ← aliasOf? v with
    | some call => return found.alter call fun
      | none => some v
      | some _ => none
    | none => return found) ∅ (← instructionsOf f)
  let aliases := found.toList.foldl
    (fun known (call, conversion) => conversion.elim known (known.insert call)) g.aliases
  return { g with aliases }

def convertedElement (container operand : ValueId) : Query Gathered.Element := do
  match (← value operand).kind with
  | .function f => return .function f
  | .global inner =>
    if ← ofType Ty.isStruct (← global inner).type then return .capped (← typeOf container)
    else return .other
  | _ => return .nested operand

def plainElement (v : ValueId) : Query Gathered.Element := do
  match ← pointee? v, ← ofValue Value.global? v with
  | some pointee, some _ =>
    return if ← ofType Ty.isStruct pointee then .capped pointee else .other
  | _, _ => return if ← isPointer v then .nested v else .other

def element (container v : ValueId) : Query Gathered.Element := do
  match ← ofValue Value.function? v with
  | some f => return .function f
  | none =>
    if ← isComposite v then return .nested v
    else
      match ← cast? v with
      | some (.bitCast, operand) | some (.ptrToInt, operand) => convertedElement container operand
      | _ => plainElement v

def confineElement (containers : Gathered.Containers) (facts : Facts TypeKey) (v : ValueId)
    (f : FunctionId) : Query (Facts TypeKey) := do
  if ← isIntrinsic f then return facts
  else
    fold (fun facts (container, slot) => do
      return facts.confine ⟨← typeKey index (← typeOf container), .nth slot⟩ f)
      (facts.markStored f) (containers.around v)

def visitElement (v : ValueId) (state : Facts TypeKey × Gathered.Containers × List ValueId)
    (e : ValueId × Nat) : Query (Facts TypeKey × Gathered.Containers × List ValueId) := do
  let (facts, containers, next) := state
  let containers := containers.insert e.1 (v, e.2)
  match ← element v e.1 with
  | .function f => return (← confineElement index containers facts e.1 f, containers, next)
  | .nested inner => return (facts, containers, next ++ [inner])
  | .capped t => return (facts.cap (← typeKey index t), containers, next)
  | .other => return (facts, containers, next)

def visitAggregate (state : Facts TypeKey × Gathered.Containers) (v : ValueId) :
    Query (Visit ValueId (Facts TypeKey × Gathered.Containers) Empty) := do
  let (facts, containers, next) ← fold (visitElement index v) (state.1, state.2, [])
    ((← elements? v).getD []).zipIdx
  return .goOn (facts, containers) next

def confineInit (g : Gathered) (id : GlobalId) : Query Gathered := do
  let global ← global id
  match global.init with
  | some init =>
    if Gathered.linkerLists.contains global.name || (← elements? init).isNone then return g
    else
      let (facts, _) ← explore .oldest (visitAggregate index) (fun s _ => s) (← valueIds) [init]
        (g.facts, ∅)
      return { g with facts }
  | none => return g

def traceBy? (flow : Option Flow) (v : ValueId) : Query (Option Trace) :=
  match flow with
  | some flow => trace? index flow v
  | none => return none

def confineStore (flow : Option Flow) (g : Gathered) (store value ptr : ValueId) :
    Query Gathered := do
  match ← baseFunction? value with
  | some f => confineTarget index g ptr f
  | none =>
    if (← functionPointee? (← strip value)).isNone then return g
    else
      match ← traceBy? index flow value with
      | some trace =>
        if trace.functions.isEmpty then return g
        else
          let g ← fold (fun g f => confineTarget index g ptr f) g trace.functions.toList
          return { g with tracedStores := g.tracedStores.insert store }
      | none => return g

def confineUse (param : ValueId) (f : FunctionId) (g : Gathered) (user : ValueId) :
    Query Gathered := do
  match ← opcode? user with
  | some (.store value ptr) => if value = param then confineTarget index g ptr f else return g
  | _ => if (← bitCast? user).isSome then confineTarget index g user f else return g

def confineParam (g : Gathered) (param : ValueId) (f : FunctionId) : Query Gathered := do
  fold (confineUse index param f) g (← users param)

/-- The function whose address an argument is, unless the compiler knows it. -/
def passedFunction? (arg : ValueId) : Query (Option FunctionId) := do
  match ← ofValue Value.function? arg with
  | some f => return if ← isIntrinsic f then none else some f
  | none => return none

def confineArg (call : Call) (g : Gathered) (arg : ValueId × Nat) : Query Gathered := do
  match ← passedFunction? arg.1 with
  | some f =>
    match ← baseFunction? call.callee with
    | none => confineTarget index g arg.1 f
    | some callee =>
      let callee ← function (← definitionOf index callee)
      if callee.isDeclaration then return g
      else
        match callee.params[arg.2]? with
        | some param => confineParam index g param f
        | none => return g
  | none => return g

def confineArgs (g : Gathered) (call : Call) : Query Gathered :=
  fold (confineArg index call) g call.args.zipIdx

/-- Confines the functions that an instruction stores or passes. -/
def confineInstr (flow : Option Flow) (g : Gathered) (v : ValueId) : Query Gathered := do
  match ← opcode? v with
  | some (.store value ptr) => confineStore index flow g v value ptr
  | some (.call call) => confineArgs index g call
  | _ => return g

def confineIn (flow : Option Flow) (g : Gathered) (f : FunctionId) : Query Gathered := do
  fold (confineInstr index flow) g (← instructionsOf f)

end Confine

/-! ## Answers -/

section Layers

variable {view : View} (hview : view.Valid) {g : Gathered} (hg : g.InRange view.program)
  {v : ValueId} (hv : view.program.HasValue v) {f : FunctionId}
include hview

section Chain

include hg hv

theorem answer?_recordChain (change : Facts TypeKey → Layer TypeKey → Facts TypeKey) :
    (recordChain view.index g v change).answer? view.program =
      some (g.recordChain view v change) := by
  have hlayers : view.program.HasLayers (view.program.typeChain g.aliases v).1 :=
    hview.program.hasLayers_typeChain g.aliases hv
  simp only [recordChain, answer?_bind, Option.bind_some, answer?_layers hview hlayers,
    answer?_typeChain hview.program hg.aliases hv]
  rfl

theorem answer?_confineTarget (hf : view.program.HasFunction f) :
    (confineTarget view.index g v f).answer? view.program = some (g.confineTarget view v f) := by
  have hmarked : (g.record (·.markStored f)).InRange view.program :=
    hg.notes (.note (r := .stored f) hf)
  simp only [confineTarget, Gathered.confineTarget, answer?_bind, answer?_ite,
    answer?_isIntrinsic hf, Option.bind_some, answer?_recordChain hview hmarked hv]
  cases view.program.isIntrinsic f <;> rfl

end Chain

theorem answer?_pointsToByte (hv : view.program.HasValue v) :
    (pointsToByte v).answer? view.program =
      some ((view.program.pointee? v).bind view.program.types.get? = some (.integer 8) : Bool) := by
  simp only [pointsToByte, answer?_bind, answer?_pointee? hv hview.program, Option.bind_some]
  cases hpointee : view.program.pointee? v with
  | none => rfl
  | some t =>
    obtain ⟨ty, hty⟩ := Program.exists_type (hview.program.hasType_of_pointee? hpointee)
    simp [hty]

theorem answer?_pointsToComposite (hv : view.program.HasValue v) :
    (pointsToComposite v).answer? view.program =
      some ((view.program.pointee? v).any view.program.types.isComposite) := by
  simp only [pointsToComposite, answer?_bind, answer?_pointee? hv hview.program, Option.bind_some]
  cases hpointee : view.program.pointee? v with
  | none => rfl
  | some t => exact answer?_isCompositeType (hview.program.hasType_of_pointee? hpointee)

theorem answer?_aliasOf? (hv : view.program.HasValue v) :
    (aliasOf? v).answer? view.program = some (Gathered.aliasOf? view.program v) := by
  simp only [aliasOf?, Gathered.aliasOf?, answer?_bind, answer?_opcode? hv, Option.bind_some]
  cases hop : view.program.opcode? v with
  | none => rfl
  | some op =>
    cases op with
    | cast op operand =>
      have hoperand := hview.program.hasValue_of_opcode? hop List.mem_cons_self
      simp only [answer?_bind, answer?_opcode? hoperand, answer?_pointsToByte hview hoperand,
        answer?_pointsToComposite hview hv, Option.bind_some, answer?_ite, answer?_pure]
      split <;> rfl
    | _ => rfl

theorem answer?_collectAliases (hf : view.program.HasFunction f) :
    (collectAliases g f).answer? view.program = some (g.collectAliases view.program f) := by
  simp only [collectAliases, Gathered.collectAliases, Gathered.recover, answer?_bind,
    answer?_instructionsOf hf, Option.bind_some]
  refine congrArg (Option.bind · _) (answer?_fold (fun found v hv => ?_) ∅)
  simp only [answer?_bind, answer?_aliasOf? hview (hview.program.hasValue_instruction hv),
    Option.bind_some]
  cases Gathered.aliasOf? view.program v <;> rfl

section Element

variable {container : ValueId} (hcontainer : view.program.HasValue container)
include hv

theorem answer?_plainElement :
    (plainElement v).answer? view.program = some (Gathered.plainElement view.program v) := by
  have hglobal : (ofValue Value.global? v).answer? view.program =
      some ((view.program.value? v).bind Value.global?) :=
    answer?_ofValue hv fun hx => by rw [hx, Option.bind_some]
  simp only [plainElement, Gathered.plainElement, answer?_bind, hglobal, Option.bind_some,
    answer?_pointee? hv hview.program]
  cases hpointee : view.program.pointee? v with
  | none => simp [answer?_isPointer hv hview.program]
  | some t =>
    cases (view.program.value? v).bind Value.global? with
    | none => simp [answer?_isPointer hv hview.program]
    | some g => simp [answer?_isStructType (hview.program.hasType_of_pointee? hpointee)]

include hcontainer

theorem answer?_convertedElement : (convertedElement container v).answer? view.program =
    some (Gathered.convertedElement view.program container v) := by
  obtain ⟨x, hx⟩ := Program.exists_value hv
  have hok := (hview.program.records.value hx).kind
  simp only [convertedElement, Gathered.convertedElement, answer?_bind, answer?_value, hx,
    Option.bind_some, Option.map_some]
  cases hkind : x.kind with
  | global inner =>
    rw [hkind] at hok
    obtain ⟨global, hglobal⟩ := Program.exists_global hok
    simp only [answer?_bind, answer?_global, hglobal, Option.bind_some, answer?_ite,
      answer?_isStructType (hview.program.records.global hglobal).type,
      answer?_typeOf hcontainer, answer?_pure, Option.map_some, Option.any_some]
    cases view.program.types.isStruct global.type <;> rfl
  | _ => rfl

theorem answer?_element : (element container v).answer? view.program =
    some (Gathered.element view.program container v) := by
  have hp := hview.program
  simp only [element, Gathered.element, answer?_bind, answer?_functionAt hv, Option.bind_some]
  cases (view.program.value? v).bind Value.function? with
  | some f => rfl
  | none =>
    simp only [answer?_bind, answer?_ite, answer?_isComposite hv hp, answer?_cast? hv,
      Option.bind_some]
    cases view.program.isComposite v with
    | true => rfl
    | false =>
      cases hcast : view.program.cast? v with
      | none => exact answer?_plainElement hview hv
      | some cast =>
        obtain ⟨op, operand⟩ := cast
        cases op with
        | bitCast | ptrToInt =>
          exact answer?_convertedElement hview (hp.hasValue_of_cast? hcast) hcontainer
        | _ => exact answer?_plainElement hview hv

end Element

theorem answer?_confineElement {containers : Gathered.Containers}
    (hcontainers : containers.InRange view.program) (facts : Facts TypeKey) (v : ValueId)
    (hf : view.program.HasFunction f) :
    (confineElement view.index containers facts v f).answer? view.program =
      some (Gathered.confineElement view containers facts v f) := by
  have hconfine : (fold (fun facts (container, slot) => do
        return Facts.confine facts ⟨← typeKey view.index (← typeOf container), .nth slot⟩ f)
        (facts.markStored f) (containers.around v)).answer? view.program =
      some ((containers.around v).foldl (fun facts (container, slot) =>
        facts.confine ⟨view.typeKey (view.program.typeOf container), .nth slot⟩ f)
        (facts.markStored f)) := by
    refine answer?_fold ?_ _
    rintro facts ⟨container, slot⟩ he
    have hcontainer := hcontainers.around he
    simp [answer?_typeOf hcontainer,
      answer?_typeKey hview (hview.program.hasType_typeOf hcontainer)]
  simp only [confineElement, Gathered.confineElement, answer?_bind, answer?_ite,
    answer?_isIntrinsic hf, Option.bind_some, hconfine]
  cases view.program.isIntrinsic f <;> rfl

theorem answer?_visitElement (hv : view.program.HasValue v)
    {state : Facts TypeKey × Gathered.Containers × List ValueId}
    (hstate : state.2.1.InRange view.program) {e : ValueId × Nat}
    (he : view.program.HasValue e.1) :
    (visitElement view.index v state e).answer? view.program =
      some (Gathered.visitElement view v state e) := by
  have hcontainers : Gathered.Containers.InRange view.program (state.2.1.insert e.1 (v, e.2)) :=
    OrdMap.All.insert hstate (show view.program.HasValue (v, e.2).1 from hv)
  have hrange : (Gathered.element view.program v e.1).InRange view.program :=
    Gathered.inRange_element hview.program hv
  simp only [visitElement, Gathered.visitElement, answer?_bind, answer?_element hview he hv,
    Option.bind_some]
  cases helement : Gathered.element view.program v e.1 with
  | function f =>
    rw [helement] at hrange
    simp [answer?_confineElement hview hcontainers _ _ hrange]
  | capped t =>
    rw [helement] at hrange
    simp [answer?_typeKey hview hrange]
  | _ => rfl

theorem answer?_visitAggregate (hv : view.program.HasValue v)
    {state : Facts TypeKey × Gathered.Containers} (hstate : state.2.InRange view.program) :
    (visitAggregate view.index state v).answer? view.program =
      some (Gathered.visitAggregate view state v) := by
  have helements : ∀ e ∈ ((view.program.elements? v).getD []).zipIdx,
      view.program.HasValue e.1 := by
    intro e he
    cases helements : view.program.elements? v with
    | none => simp [helements] at he
    | some elements =>
      rw [helements, Option.getD_some] at he
      exact hview.program.hasValue_of_const? (Program.const?_of_elements? helements)
        (List.fst_mem_of_mem_zipIdx he)
  simp only [visitAggregate, Gathered.visitAggregate, answer?_bind, answer?_elements? hv,
    Option.bind_some]
  rw [answer?_fold_of_keeps
    (fun s e _ hs => Gathered.InRange.containers_visitElement hv hs e)
    (fun s e he hs => answer?_visitElement hview hv hs (helements e he)) hstate]
  rfl

theorem answer?_confineInit {id : GlobalId} (hid : view.program.HasGlobal id) :
    (confineInit view.index g id).answer? view.program = some (g.confineInit view id) := by
  obtain ⟨global, hglobal⟩ := Program.exists_global hid
  obtain ⟨name, module, type, value, init, linkage, isConstant⟩ := global
  cases init with
  | none => simp [confineInit, Gathered.confineInit, hglobal]
  | some init =>
    have hinit := (hview.program.records.global hglobal).init init rfl
    have hsearch : (explore .oldest (visitAggregate view.index) (fun s _ => s)
        view.program.valueIds [init] (g.facts, ∅)).answer? view.program =
          some ((Gathered.aggregateSearch view).explore view.program.valueIds [init]
            (g.facts, ∅)) :=
      answer?_explore_of_keeps (Gathered.aggregateSearch view)
        (Gathered.InRange.keeps_aggregateSearch view)
        (fun hinv hv => answer?_visitAggregate hview (hinv.1 _ hv) hinv.2)
        ⟨fun v hv => Program.mem_valueIds.1 hv, .empty⟩
    simp only [confineInit, Gathered.confineInit, answer?_bind, answer?_global, hglobal,
      Option.bind_some, answer?_elements? hinit, answer?_ite, answer?_valueIds, hsearch,
      answer?_pure]
    split <;> rfl

section Stores

variable {flow : Option Flow} (hflow : ∀ fl, flow = some fl → fl.InRange view.program)

omit hview in
theorem answer?_traceBy? (hview : view.Valid) (v : ValueId) :
    (traceBy? view.index flow v).answer? view.program = some (flow.bind (view.trace? · v)) := by
  cases flow with
  | none => rfl
  | some fl => exact answer?_trace? hview fl v

include hg

include hflow in
theorem answer?_confineStore (store : ValueId) {value ptr : ValueId}
    (hvalue : view.program.HasValue value) (hptr : view.program.HasValue ptr) :
    (confineStore view.index flow g store value ptr).answer? view.program =
      some (g.confineStore view flow store value ptr) := by
  have hp := hview.program
  simp only [confineStore, Gathered.confineStore, answer?_bind, answer?_baseFunction? hvalue hp,
    Option.bind_some]
  cases hbase : view.program.baseFunction? value with
  | some f => exact answer?_confineTarget hview hg hptr (hp.hasFunction_base hbase)
  | none =>
    simp only [answer?_bind, answer?_ite, answer?_strip hvalue hp,
      answer?_functionPointee? (hp.hasValue_strip hvalue) hp, answer?_traceBy? hview,
      Option.bind_some]
    cases (view.program.functionPointee? (view.program.strip value)).isNone with
    | true => rfl
    | false =>
      cases htrace : flow.bind (view.trace? · value) with
      | none => rfl
      | some trace =>
        obtain ⟨fl, hfl, htrace⟩ := Option.bind_eq_some_iff.1 htrace
        have hfunctions : ∀ f ∈ trace.functions.toList, view.program.HasFunction f := fun f hf =>
          Flow.hasFunction_of_trace? hview (hflow fl hfl) htrace hf
        have hfold : (fold (fun g f => confineTarget view.index g ptr f) g
            trace.functions.toList).answer? view.program = some (trace.functions.toList.foldl
              (fun g f => g.confineTarget view ptr f) g) :=
          answer?_fold_of_keeps
            (fun _ f hf hg => hg.notes (.confineTarget trivial (hfunctions f hf)))
            (fun _ f hf hg => answer?_confineTarget hview hg hptr (hfunctions f hf)) hg
        simp only [answer?_ite, answer?_bind, answer?_pure, hfold, Option.bind_some,
          Bool.false_eq_true, if_false]
        cases trace.functions.isEmpty <;> rfl

theorem answer?_confineUse (param : ValueId) (hf : view.program.HasFunction f)
    (hv : view.program.HasValue v) :
    (confineUse view.index param f g v).answer? view.program =
      some (Gathered.confineUse view param f g v) := by
  have hcast : (do
      if (← bitCast? v).isSome then confineTarget view.index g v f else return g :
        Query Gathered).answer? view.program =
      some (if (view.program.bitCast? v).isSome then g.confineTarget view v f else g) := by
    simp only [answer?_bind, answer?_bitCast? hv, answer?_ite, Option.bind_some,
      answer?_confineTarget hview hg hv hf, answer?_pure]
    cases (view.program.bitCast? v).isSome <;> rfl
  simp only [confineUse, Gathered.confineUse, answer?_bind, answer?_opcode? hv, Option.bind_some]
  cases hop : view.program.opcode? v with
  | none => exact hcast
  | some op =>
    cases op with
    | store value ptr =>
      have hptr := hview.program.hasValue_of_opcode? hop (List.mem_cons_of_mem _ List.mem_cons_self)
      simp only [answer?_ite, answer?_confineTarget hview hg hptr hf, answer?_pure]
      split <;> rfl
    | _ => exact hcast

theorem answer?_confineParam {param : ValueId} (hparam : view.program.HasValue param)
    (hf : view.program.HasFunction f) :
    (confineParam view.index g param f).answer? view.program =
      some (g.confineParam view param f) := by
  simp only [confineParam, Gathered.confineParam, answer?_bind,
    answer?_usersOf hparam hview.program, Option.bind_some]
  exact answer?_fold_of_keeps (fun _ u _ hg => hg.notes (.confineUse hf fun _ _ => trivial))
    (fun _ u hu hg => answer?_confineUse hview hg param hf (hview.program.hasValue_user hu)) hg

omit hg in
theorem answer?_passedFunction? (hv : view.program.HasValue v) :
    (passedFunction? v).answer? view.program =
      some (((view.program.value? v).bind Value.function?).filter
        fun f => !view.program.isIntrinsic f) := by
  simp only [passedFunction?, answer?_bind, answer?_functionAt hv, Option.bind_some]
  cases hfunction : (view.program.value? v).bind Value.function? with
  | none => rfl
  | some f =>
    have hf : view.program.HasFunction f :=
      hview.program.kindOk (Program.function?_bind_eq_some_iff.1 hfunction)
    cases hintrinsic : view.program.isIntrinsic f <;>
      simp [answer?_isIntrinsic hf, hintrinsic, Option.filter]

theorem answer?_confineArg {call : Call} (hcallee : view.program.HasValue call.callee)
    {arg : ValueId × Nat} (harg : view.program.HasValue arg.1) :
    (confineArg view.index call g arg).answer? view.program =
      some (Gathered.confineArg view call g arg) := by
  have hp := hview.program
  simp only [confineArg, Gathered.confineArg, answer?_bind, answer?_passedFunction? hview harg,
    Option.bind_some]
  cases hpassed : ((view.program.value? arg.1).bind Value.function?).filter
      fun f => !view.program.isIntrinsic f with
  | none => rfl
  | some f =>
    have hf : view.program.HasFunction f := hp.kindOk
      (Program.function?_bind_eq_some_iff.1 (Option.filter_eq_some_iff.1 hpassed).1)
    simp only [answer?_bind, answer?_baseFunction? hcallee hp, Option.bind_some]
    cases hbase : view.program.baseFunction? call.callee with
    | none => exact answer?_confineTarget hview hg harg hf
    | some callee =>
      have hcallee := hp.hasFunction_base hbase
      obtain ⟨fn, hfn⟩ := Program.exists_function (hview.hasFunction_definitionOf hcallee)
      simp only [answer?_bind, answer?_definitionOf hview hcallee, answer?_function, hfn,
        Option.bind_some, Option.map_some, answer?_ite]
      cases hbody : fn.isDeclaration with
      | true => simp [Option.filter, hbody]
      | false =>
        simp only [Option.filter, hbody, Bool.not_false, if_true, Bool.false_eq_true, if_false]
        cases hparam : fn.params[arg.2]? with
        | none => rfl
        | some param =>
          exact answer?_confineParam hview hg ((hp.records.function hfn).param _ _ hparam).1 hf

theorem answer?_confineArgs {call : Call} (hcall : view.program.opcode? v = some (.call call)) :
    (confineArgs view.index g call).answer? view.program = some (g.confineArgs view call) := by
  have hoperand : ∀ u ∈ call.args ++ [call.callee], view.program.HasValue u := fun u hu =>
    hview.program.hasValue_of_opcode? hcall hu
  rw [confineArgs, Gathered.confineArgs]
  exact answer?_fold_of_keeps (fun _ arg _ hg =>
    hg.notes (.confineArg hview.program.kindOk fun _ _ _ => trivial))
    (fun _ arg harg hg => answer?_confineArg hview hg
      (hoperand _ (List.mem_append_right _ List.mem_cons_self))
      (hoperand _ (List.mem_append_left _ (List.fst_mem_of_mem_zipIdx harg)))) hg

include hflow

theorem answer?_confineInstr (hv : view.program.HasValue v) :
    (confineInstr view.index flow g v).answer? view.program =
      some (Gathered.confineInstr view flow g v) := by
  simp only [confineInstr, Gathered.confineInstr, answer?_bind, answer?_opcode? hv,
    Option.bind_some]
  cases hop : view.program.opcode? v with
  | none => rfl
  | some op =>
    have hoperand : ∀ u ∈ op.operands, view.program.HasValue u := fun u hu =>
      hview.program.hasValue_of_opcode? hop hu
    cases op with
    | store value ptr =>
      exact answer?_confineStore hview hg hflow v (hoperand value List.mem_cons_self)
        (hoperand ptr (List.mem_cons_of_mem _ List.mem_cons_self))
    | call call => exact answer?_confineArgs hview hg hop
    | _ => rfl

theorem answer?_confineIn (hf : view.program.HasFunction f) :
    (confineIn view.index flow g f).answer? view.program = some (g.confineIn view flow f) := by
  simp only [confineIn, Gathered.confineIn, answer?_bind, answer?_instructionsOf hf,
    Option.bind_some]
  exact answer?_fold_of_keeps (fun _ v _ hg => hg.confineInstr hview hflow v)
    (fun _ v hv hg => answer?_confineInstr hview hg hflow (hview.program.hasValue_instruction hv))
    hg

end Stores

end Layers

end Query

end CallTargets
