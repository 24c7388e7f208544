import CallTargets.Proofs.Flow.Confined
import CallTargets.Proofs.Flow.Params
import CallTargets.Proofs.Lookup.View

/-!
# Queries about the flow of function pointers

Tracing, the functions passed to parameters, and confined functions, as queries. They are
answered for every valid view.
-/

namespace CallTargets

/-! ## Queries -/

namespace Query

def isSlot (v : ValueId) : Query Bool := do
  match (← value v).kind with
  | .global _ => return true
  | .instr i => return i.opcode.isAlloca
  | _ => return false

def isPrivateUse (slot user : ValueId) : Query Bool := do
  match ← opcode? user with
  | some (.load _) => return true
  | some (.store value ptr) => return ptr = slot && value ≠ slot
  | _ => return false

def privateStores? (slot : ValueId) : Query (Option (List ValueId)) := do
  if ← isSlot slot then
    let users ← users slot
    if ← all users (isPrivateUse slot) then
      return some (← filter (fun user => do return (← store? user).isSome) users)
    else return none
  else return none

def initOf? (v : ValueId) : Query (Option ValueId) := do
  match (← value v).global? with
  | some g => return (← global g).init
  | none => return none

def returned (f : FunctionId) : Query (List ValueId) := do
  filterMap (fun v => do
    match ← opcode? v with
    | some (.ret value) => return value
    | _ => return none) (← instructionsOf f)

section Trace

variable (index : View.Index) (flow : Flow)

def back (s : Trace.Progress) (v : ValueId) : Query (Visit ValueId Trace.Progress Unit) := do
  match (← value v).kind with
  | .function f =>
    if ← isIntrinsic f then return .goOn s []
    else return .goOn (s.reaches [← definitionOf index f]) []
  | .const .null | .const .undef => return .goOn s []
  | .const (.cast op operand) => return if op.keepsPointer then .goOn s [operand] else .stop ()
  | .argument f place =>
    match flow.known? f place with
    | some functions => return .goOn (s.reaches functions.toList) []
    | none => return .stop ()
  | .instr i =>
    match i.opcode with
    | .cast op operand => return if op.keepsPointer then .goOn s [operand] else .stop ()
    | .phi incoming => return .goOn s incoming.reverse
    | .select _ ifTrue ifFalse => return .goOn s [ifFalse, ifTrue]
    | .load ptr =>
      let slot ← strip ptr
      match ← privateStores? slot with
      | some stores =>
        let stored ← filterMap (fun store => do return (← store? store).map Prod.fst) stores
        return .goOn (s.through stores) (stored ++ (← initOf? slot).toList).reverse
      | none => return .stop ()
    | .call call =>
      match ← directTarget? index call.callee with
      | some f =>
        let s := s.through [v]
        if s.entered.contains f then return .goOn s []
        else return .goOn { s with entered := f :: s.entered } (← returned f).reverse
      | none => return .stop ()
    | _ => return .stop ()
  | _ => return .stop ()

def trace? (v : ValueId) : Query (Option Trace) := do
  match (← search .newest (back index flow) (fun s _ => s) (← valueIds) [v] {}).2 with
  | .answered () => return none
  | .exhausted s => return some s.trace

end Trace

section Params

variable (index : View.Index)

def defined : Query (List FunctionId) := do
  filter (fun f => do return !(← isDeclaration f)) (← functionIds)

def directCalls (defined : List FunctionId) : Query Adjacency := do
  let calls ← each defined fun f => do
    filterMap (fun site => do
      return (← directTarget? index site.call.callee).bind (defined.idxOf? ·)) (← callSites f)
  return calls.toArray

def flowStart (defined : List FunctionId) (calls : Adjacency) : Query Flow := do
  let params ← fold (fun params (id, place) => do
    let f ← function id
    fold (fun params (param, index) => do
      if (← functionPointee? param).isSome then
        return params.insert (id, index)
          (if Flow.isOpen calls.toList.flatten place f then .unknown else .known ∅)
      else return params) params f.params.zipIdx) ∅ defined.zipIdx
  return { params }

/-- Merges what one argument passes, and tells whether anything changed. -/
def pass (flow : Flow) (callee : FunctionId) (place : Nat) (arg : ValueId) :
    Query (Flow × Bool) := do
  match flow.params.get? (callee, place) with
  | some old =>
    let new := old.merge ((← trace? index flow arg).map Trace.functions)
    return ({ params := flow.params.insert (callee, place) new }, old ≠ new)
  | none => return (flow, false)

/-- Merges what the direct calls of a function pass, and tells whose parameters changed. -/
def visit (flow : Flow) (caller : FunctionId) : Query (Flow × OrdSet FunctionId) := do
  fold (fun state site => do
    match ← directTarget? index site.call.callee with
    | some callee =>
      fold (fun (flow, changed) (arg, place) => do
        let (flow, isNew) ← pass index flow callee place arg
        return (flow, if isNew then changed.insert callee else changed)) state
        site.call.args.zipIdx
    | none => return state) (flow, ∅) (← callSites caller)

/-- Visits functions of a component until nothing new arrives. -/
def settle (all members queue : List FunctionId) (flow : Flow) : Query Flow :=
  match queue with
  | [] => return flow
  | f :: queue => do
    let next ← visit index flow f
    if _h : next.1.room all < flow.room all then
      let again := next.2.toList.filter fun g => members.contains g && !queue.contains g
      settle all members (queue ++ again) next.1
    else settle all members queue flow
termination_by (flow.room all, queue.length)
decreasing_by
  · exact Prod.Lex.left _ _ ‹_›
  · exact Prod.Lex.right _ (by simp)

/-- The functions passed to the parameters of a program. -/
def flow : Query Flow := do
  let defined ← defined
  let calls ← directCalls index defined
  fold (fun flow component => do
    let members := component.filterMap (defined[·]?)
    settle index (← functionIds) members members flow) (← flowStart defined calls)
    calls.components.reverse

end Params

section Confined

variable (index : View.Index) (flow : Flow)

def isPlainCall (v : ValueId) (call : Call) : Query Bool := do
  let place ← match ← baseFunction? call.callee with
    | some f => do pure (callbackPlace? (← functionName f))
    | none => pure none
  return call.args.zipIdx.all fun (arg, i) => arg ≠ v || place = some i

def invokedUse? (v user : ValueId) : Query (Option (List ValueId)) := do
  match ← opcode? user with
  | some (.call call) =>
    if call.callee = v && !call.args.contains v && (← trace? index flow v).isSome then
      return some []
    else return none
  | some (.cast op _) => return if op.keepsPointer then some [user] else none
  | some (.phi _) => return some [user]
  | some (.select condition _ _) => return if condition ≠ v then some [user] else none
  | _ => return none

def visitUses (use : ValueId → ValueId → Query (Option (List ValueId))) (v : ValueId) :
    Query (Visit ValueId Unit Unit) := do
  match (← each (← users v) (use v)).mapM id with
  | some next => return .goOn () next.flatten
  | none => return .stop ()

def usesPass (use : ValueId → ValueId → Query (Option (List ValueId))) (v : ValueId) :
    Query Bool := do
  match (← search .newest (fun _ => visitUses use) (fun s _ => s) (← valueIds) [v] ()).2 with
  | .answered _ => return false
  | .exhausted _ => return true

def isCallSlot (slot : ValueId) : Query Bool := do
  if (← privateStores? slot).isSome then
    let loads ← filter (fun user => do return (← load? user).isSome) (← users slot)
    all loads (usesPass (invokedUse? index flow))
  else return false

def confinedUse? (v user : ValueId) : Query (Option (List ValueId)) := do
  match (← value user).kind with
  | .instr i =>
    match i.opcode with
    | .call call => return if ← isPlainCall v call then some [] else none
    | .store stored ptr =>
      if stored = v && ptr ≠ v && (← isCallSlot index flow ptr) then return some []
      else return none
    | _ => return none
  | .global g =>
    let global ← global g
    if global.init = some v && !global.linkage.isExternal && (← isCallSlot index flow user) then
      return some []
    else return none
  | .const (.cast op _) => return if op.keepsPointer then some [user] else none
  | _ => return none

def isConfined (f : FunctionId) : Query Bool := do
  usesPass (confinedUse? index flow) (← function f).value

end Confined

end Query

/-! ## Answers -/

theorem Program.Valid.hasValue_privateStores? {p : Program} (hp : p.Valid) {v u : ValueId}
    {stores : List ValueId} (hstores : p.privateStores? v = some stores) (hu : u ∈ stores) :
    p.HasValue u := by
  unfold privateStores? at hstores
  split at hstores
  · cases hstores
    exact hp.hasValue_user (List.mem_filter.1 hu).1
  · cases hstores

namespace Query

section Trace

variable {p : Program} (hp : p.Valid) {v : ValueId} (hv : p.HasValue v)

include hv in
theorem answer?_isSlot : (isSlot v).answer? p = some (p.isSlot v) := by
  obtain ⟨x, hx⟩ := Program.exists_value hv
  simp only [isSlot, Program.isSlot, hx, answer?_bind, answer?_value, Option.bind_some,
    Option.map_some]
  cases x.kind <;> rfl

include hv in
theorem answer?_isPrivateUse (slot : ValueId) :
    (isPrivateUse slot v).answer? p = some (p.isPrivateUse slot v) := by
  simp only [isPrivateUse, Program.isPrivateUse, answer?_bind, answer?_opcode? hv,
    Option.bind_some]
  cases p.opcode? v with
  | none => rfl
  | some op => cases op <;> rfl

include hp hv

theorem answer?_privateStores? : (privateStores? v).answer? p = some (p.privateStores? v) := by
  have huses : ∀ u ∈ p.usersOf v, (isPrivateUse v u).answer? p = some (p.isPrivateUse v u) :=
    fun u hu => answer?_isPrivateUse (hp.hasValue_user hu) v
  have hstores : ∀ u ∈ p.usersOf v, (do return (← store? u).isSome : Query Bool).answer? p =
      some (p.store? u).isSome := fun u hu => by simp [answer?_store? (hp.hasValue_user hu)]
  simp only [privateStores?, Program.privateStores?, answer?_bind, answer?_ite, answer?_isSlot hv,
    answer?_usersOf hv hp, answer?_all huses, answer?_filter hstores, Option.bind_some]
  cases p.isSlot v <;> cases (p.usersOf v).all (p.isPrivateUse v) <;> rfl

theorem answer?_initOf? : (initOf? v).answer? p = some (p.initOf? v) := by
  obtain ⟨x, hx⟩ := Program.exists_value hv
  simp only [initOf?, Program.initOf?, hx, answer?_bind, answer?_value, Option.bind_some]
  cases hglobal : x.global? with
  | none => rfl
  | some g =>
    have hkind : (p.value? v).map Value.kind = some (.global g) :=
      Program.global?_bind_eq_some_iff.1 (by rw [hx, Option.bind_some, hglobal])
    obtain ⟨global, hg⟩ := Program.exists_global (hp.kindOk hkind)
    simp [hg]

omit hv in
theorem answer?_returned {f : FunctionId} (hf : p.HasFunction f) :
    (returned f).answer? p = some (p.returned f) := by
  simp only [returned, answer?_bind, answer?_instructionsOf hf, Option.bind_some]
  refine answer?_filterMap fun v hv => ?_
  simp only [answer?_bind, answer?_opcode? (hp.hasValue_instruction hv), Option.bind_some]
  cases p.opcode? v with
  | none => rfl
  | some op => cases op <;> rfl

end Trace

section Trace

variable {view : View} (hview : view.Valid) {v : ValueId} (hv : view.program.HasValue v)
  (flow : Flow)
include hview hv

theorem answer?_back (s : Trace.Progress) :
    (back view.index flow s v).answer? view.program = some (Trace.back view flow s v) := by
  have hp := hview.program
  obtain ⟨x, hx⟩ := Program.exists_value hv
  have hkind : (view.program.value? v).map Value.kind = some x.kind := by rw [hx]; rfl
  have hok := hp.kindOk hkind
  simp only [back, Trace.back, hx, answer?_bind, answer?_value, Option.bind_some, Option.map_some]
  cases hk : x.kind with
  | function f =>
    rw [hk] at hok
    simp only [answer?_bind, answer?_ite, answer?_isIntrinsic hok, Option.bind_some,
      answer?_definitionOf hview hok, answer?_pure]
    split <;> rfl
  | argument f place => 
    dsimp only
    cases flow.known? f place <;> rfl
  | global g => rfl
  | const c => cases c <;> rfl
  | instr i =>
    have hop : view.program.opcode? v = some i.opcode :=
      Program.opcode?_eq_some_iff.2 ⟨i, by rw [hkind, hk], rfl⟩
    dsimp only
    cases hi : i.opcode with
    | load ptr =>
      have hslot := hp.hasValue_strip (hp.hasValue_of_opcode? (hi ▸ hop) List.mem_cons_self)
      simp only [answer?_bind, Option.bind_some, answer?_privateStores? hp hslot,
        answer?_strip (hp.hasValue_of_opcode? (hi ▸ hop) List.mem_cons_self) hp]
      cases hstores : view.program.privateStores? (view.program.strip ptr) with
      | none => rfl
      | some stores =>
        have hstored : ∀ u ∈ stores, (do return (← store? u).map Prod.fst : Query _).answer?
            view.program = some ((view.program.store? u).map Prod.fst) := by
          intro u hu
          simp [answer?_store? (hp.hasValue_privateStores? hstores hu)]
        simp [answer?_filterMap hstored, answer?_initOf? hp hslot]
    | call call =>
      have hcallee : view.program.HasValue call.callee :=
        hp.hasValue_of_opcode? (hi ▸ hop) (List.mem_append_right _ List.mem_cons_self)
      simp only [answer?_bind, Option.bind_some, answer?_directTarget? hview hcallee]
      cases htarget : view.directTarget? call.callee with
      | none => rfl
      | some f =>
        simp only [answer?_bind, answer?_ite, answer?_pure, Option.bind_some,
          answer?_returned hp (hview.directTarget htarget).1]
        split <;> rfl
    | _ => rfl

omit hv in
theorem answer?_trace? (v : ValueId) :
    (trace? view.index flow v).answer? view.program = some (view.trace? flow v) := by
  have hvisit : ∀ s, ∀ u ∈ view.program.valueIds,
      (back view.index flow s u).answer? view.program = some (Trace.back view flow s u) :=
    fun s u hu => answer?_back hview (Program.mem_valueIds.1 hu) flow s
  have hsearch : (search .newest (back view.index flow) (fun s _ => s) view.program.valueIds [v]
      {}).answer? view.program = some ((Trace.search view flow).run view.program.valueIds [v] {}) :=
    answer?_search (Trace.search view flow) hvisit [v] {}
  simp only [trace?, answer?_bind, answer?_valueIds, Option.bind_some, hsearch, View.trace?]
  cases ((Trace.search view flow).run view.program.valueIds [v] {}).2 <;> rfl

end Trace

section Params

variable {view : View} (hview : view.Valid)
include hview

omit hview in
theorem answer?_defined : defined.answer? view.program = some (Flow.defined view.program) := by
  simp only [defined, answer?_bind, answer?_functionIds, Option.bind_some]
  refine answer?_filter fun f hf => ?_
  simp [answer?_isDeclaration (Program.mem_functionIds.1 hf)]

theorem answer?_directCalls {fs : List FunctionId} (hfs : ∀ f ∈ fs, view.program.HasFunction f) :
    (directCalls view.index fs).answer? view.program = some (Flow.directCalls view fs) := by
  have hone : ∀ f ∈ fs, (do filterMap (fun site => do
        return (← directTarget? view.index site.call.callee).bind (fs.idxOf? ·)) (← callSites f) :
        Query (List Nat)).answer? view.program =
      some ((view.program.callSites f).filterMap fun site =>
        (view.directTarget? site.call.callee).bind (fs.idxOf? ·)) := by
    intro f hf
    simp only [answer?_bind, answer?_callSites (hfs f hf) hview.program, Option.bind_some]
    refine answer?_filterMap fun site hsite => ?_
    simp [answer?_directTarget? hview (hview.program.hasValue_calleeOf hsite)]
  simp only [directCalls, answer?_bind, answer?_each hone, Option.bind_some, answer?_pure]
  rfl

theorem answer?_flowStart {fs : List FunctionId} (hfs : ∀ f ∈ fs, view.program.HasFunction f)
    (calls : Adjacency) :
    (flowStart fs calls).answer? view.program = some (Flow.start view.program fs calls) := by
  rw [flowStart, answer?_bind]
  refine congrArg (Option.bind · _) (answer?_fold ?_ ∅)
  rintro params ⟨id, place⟩ hid
  obtain ⟨fn, hfn⟩ := Program.exists_function (hfs id (List.fst_mem_of_mem_zipIdx hid))
  simp only [answer?_bind, answer?_function, hfn, Option.bind_some]
  refine answer?_fold ?_ params
  rintro params ⟨param, index⟩ hparam
  have hv := ((hview.program.records.function hfn).param index param
    (List.mk_mem_zipIdx_iff_getElem?.1 hparam)).1
  simp only [answer?_bind, answer?_functionPointee? hv hview.program, Option.bind_some,
    answer?_ite, answer?_pure]
  split <;> rfl

theorem answer?_pass (flow : Flow) (callee : FunctionId) (place : Nat) (arg : ValueId) :
    (pass view.index flow callee place arg).answer? view.program =
      some (Flow.pass view flow callee place arg) := by
  unfold pass Flow.pass
  cases flow.params.get? (callee, place) with
  | none => rfl
  | some old => simp [answer?_trace? hview]

theorem answer?_visit (flow : Flow) {caller : FunctionId}
    (hcaller : view.program.HasFunction caller) :
    (visit view.index flow caller).answer? view.program = some (Flow.visit view flow caller) := by
  simp only [visit, answer?_bind, answer?_callSites hcaller hview.program, Option.bind_some]
  refine answer?_fold ?_ (flow, ∅)
  rintro ⟨flow, changed⟩ site hsite
  simp only [answer?_bind, answer?_directTarget? hview (hview.program.hasValue_calleeOf hsite),
    Option.bind_some]
  cases view.directTarget? site.call.callee with
  | none => rfl
  | some callee =>
    refine answer?_fold ?_ (flow, changed)
    rintro ⟨flow, changed⟩ ⟨arg, place⟩ -
    simp [answer?_pass hview]

theorem answer?_settle {members queue : List FunctionId} {flow : Flow}
    (hmembers : ∀ f ∈ members, view.program.HasFunction f)
    (hqueue : ∀ f ∈ queue, view.program.HasFunction f) :
    (settle view.index view.program.functionIds members queue flow).answer? view.program =
      some (Flow.settle view members queue flow) := by
  fun_induction Flow.settle view members queue flow with
  | case1 flow => simp [settle]
  | case2 flow f queue next hlt again ih =>
    rw [settle]
    simp only [answer?_bind, answer?_visit hview flow (hqueue f List.mem_cons_self),
      Option.bind_some]
    rw [dif_pos hlt]
    refine ih fun g hg => ?_
    rcases List.mem_append.1 hg with hg | hg
    · exact hqueue g (List.mem_cons_of_mem f hg)
    · have hmember := (List.mem_filter.1 hg).2
      simp only [Bool.and_eq_true, List.contains_iff_mem] at hmember
      exact hmembers g hmember.1
  | case3 flow f queue next hlt ih =>
    rw [settle]
    simp only [answer?_bind, answer?_visit hview flow (hqueue f List.mem_cons_self),
      Option.bind_some]
    rw [dif_neg hlt]
    exact ih fun g hg => hqueue g (List.mem_cons_of_mem f hg)

theorem answer?_flow : (flow view.index).answer? view.program = some (Flow.ofView view) := by
  have hdefined : ∀ f ∈ Flow.defined view.program, view.program.HasFunction f := fun f hf =>
    (Flow.mem_defined.1 hf).1
  simp only [flow, answer?_bind, answer?_defined, Option.bind_some,
    answer?_directCalls hview hdefined, answer?_flowStart hview hdefined]
  rw [Flow.ofView, Flow.rounds, List.foldl_map]
  refine answer?_fold (fun flow component _ => ?_) _
  have hmembers : ∀ f ∈ component.filterMap ((Flow.defined view.program)[·]?),
      view.program.HasFunction f := by
    intro f hf
    obtain ⟨i, -, hi⟩ := List.mem_filterMap.1 hf
    exact hdefined f (List.mem_of_getElem? hi)
  simp only [answer?_bind, answer?_functionIds, Option.bind_some]
  exact answer?_settle hview hmembers hmembers

end Params

section Confined

variable {view : View} (hview : view.Valid) (flow : Flow) {u v : ValueId}
include hview

theorem answer?_isPlainCall {call : Call} (hcallee : view.program.HasValue call.callee) :
    (isPlainCall v call).answer? view.program = some (view.isPlainCall v call) := by
  simp only [isPlainCall, View.isPlainCall, answer?_bind,
    answer?_baseFunction? hcallee hview.program, Option.bind_some]
  cases hbase : view.program.baseFunction? call.callee with
  | none => rfl
  | some f => simp [answer?_functionName (hview.program.hasFunction_base hbase)]

theorem answer?_invokedUse? (hu : view.program.HasValue u) :
    (invokedUse? view.index flow v u).answer? view.program =
      some (view.invokedUse? flow v u) := by
  simp only [invokedUse?, View.invokedUse?, answer?_bind, answer?_opcode? hu, Option.bind_some]
  cases view.program.opcode? u with
  | none => rfl
  | some op =>
    cases op with
    | call call =>
      simp only [answer?_bind, answer?_trace? hview, Option.bind_some, answer?_ite, answer?_pure]
      split <;> rfl
    | _ => rfl

theorem answer?_usesPass {use : ValueId → ValueId → Query (Option (List ValueId))}
    {found : ValueId → ValueId → Option (List ValueId)}
    (huse : ∀ v, ∀ u ∈ view.program.usersOf v, (use v u).answer? view.program = some (found v u))
    (v : ValueId) :
    (usesPass use v).answer? view.program =
      some (match ((View.useSearch view.program found).run view.program.valueIds [v] ()).2 with
        | .answered _ => false
        | .exhausted _ => true) := by
  have hvisit : ∀ s, ∀ v ∈ view.program.valueIds, (visitUses use v).answer? view.program =
      some ((View.useSearch view.program found).visit s v) := by
    intro s v hv
    simp only [visitUses, answer?_bind, answer?_usersOf (Program.mem_valueIds.1 hv) hview.program,
      answer?_each (huse v), Option.bind_some, View.useSearch, List.mapM_map, Function.id_comp]
    cases (view.program.usersOf v).mapM (found v) <;> rfl
  have hsearch : (search .newest (fun _ => visitUses use) (fun s _ => s) view.program.valueIds [v]
      ()).answer? view.program =
        some ((View.useSearch view.program found).run view.program.valueIds [v] ()) :=
    answer?_search (View.useSearch view.program found) hvisit [v] ()
  simp only [usesPass, answer?_bind, answer?_valueIds, Option.bind_some, hsearch]
  cases ((View.useSearch view.program found).run view.program.valueIds [v] ()).2 <;> rfl

theorem answer?_isOnlyInvoked (v : ValueId) :
    (usesPass (invokedUse? view.index flow) v).answer? view.program =
      some (view.isOnlyInvoked flow v) :=
  answer?_usesPass hview (fun _ _ hu =>
    answer?_invokedUse? hview flow (hview.program.hasValue_user hu)) v

theorem answer?_isCallSlot (hv : view.program.HasValue v) :
    (isCallSlot view.index flow v).answer? view.program = some (view.isCallSlot flow v) := by
  have hloads : ∀ u ∈ view.program.usersOf v, (do return (← load? u).isSome : Query Bool).answer?
      view.program = some (view.program.load? u).isSome := fun u hu => by
    simp [answer?_load? (hview.program.hasValue_user hu)]
  simp only [isCallSlot, View.isCallSlot, answer?_bind, answer?_privateStores? hview.program hv,
    answer?_ite, answer?_usersOf hv hview.program, Option.bind_some, answer?_filter hloads,
    answer?_all fun u _ => answer?_isOnlyInvoked hview flow u]
  cases (view.program.privateStores? v).isSome <;> rfl

theorem answer?_confinedUse? (hu : view.program.HasValue u) :
    (confinedUse? view.index flow v u).answer? view.program =
      some (view.confinedUse? flow v u) := by
  have hp := hview.program
  obtain ⟨x, hx⟩ := Program.exists_value hu
  have hkind : (view.program.value? u).map Value.kind = some x.kind := by rw [hx]; rfl
  simp only [confinedUse?, View.confinedUse?, hx, answer?_bind, answer?_value, Option.bind_some,
    Option.map_some]
  cases hk : x.kind with
  | instr i =>
    have hop : view.program.opcode? u = some i.opcode :=
      Program.opcode?_eq_some_iff.2 ⟨i, by rw [hkind, hk], rfl⟩
    dsimp only
    cases hi : i.opcode with
    | call call =>
      have hcallee : view.program.HasValue call.callee :=
        hp.hasValue_of_opcode? (hi ▸ hop) (List.mem_append_right _ List.mem_cons_self)
      simp [answer?_isPlainCall hview hcallee]
    | store stored ptr =>
      have hptr : view.program.HasValue ptr :=
        hp.hasValue_of_opcode? (hi ▸ hop) (List.mem_cons_of_mem _ List.mem_cons_self)
      simp only [answer?_bind, answer?_isCallSlot hview flow hptr, Option.bind_some, answer?_ite,
        answer?_pure]
      split <;> rfl
    | _ => rfl
  | global g =>
    rw [hk] at hkind
    obtain ⟨global, hg⟩ := Program.exists_global (hp.kindOk hkind)
    simp only [answer?_bind, answer?_global, hg, answer?_isCallSlot hview flow hu,
      Option.bind_some, answer?_ite, answer?_pure]
    split <;> rfl
  | const c => cases c <;> rfl
  | _ => rfl

theorem answer?_isConfined {f : FunctionId} (hf : view.program.HasFunction f) :
    (isConfined view.index flow f).answer? view.program = some (view.isConfined flow f) := by
  obtain ⟨fn, hfn⟩ := Program.exists_function hf
  simp only [isConfined, View.isConfined, answer?_bind, answer?_function, hfn, Option.bind_some]
  exact answer?_usesPass hview (fun _ _ hu =>
    answer?_confinedUse? hview flow (hview.program.hasValue_user hu)) fn.value

end Confined

end Query

end CallTargets
