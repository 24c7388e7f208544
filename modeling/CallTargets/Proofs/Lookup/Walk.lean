import CallTargets.Layer.Refine
import CallTargets.Proofs.Layer.Range
import CallTargets.Proofs.Lookup.View

/-!
# Queries about the layers behind a pointer

Walks to address computations, the chains of layers that they lead to, and the refinement of
candidates by layers, as queries.
-/

namespace CallTargets

/-! ## Queries -/

namespace Query

/-- The layers that indices select, innermost first, and the type they lead to. -/
def indexLayers (t : TypeId) : List GepIndex → Query (List (Layer TypeId) × TypeId)
  | [] => return ([], t)
  | index :: rest => do
    match ← ofType (·.element? index.const?) t with
    | some next =>
      let (layers, last) ← indexLayers next rest
      return (layers ++ [⟨t, .ofIndex index⟩], last)
    | none => return ([⟨t, .ofIndex index⟩], t)

def isFirstField (v : ValueId) (first : TypeId) : Query Bool := do
  any (← users v) fun user => do
    return (← bitCast? user).isSome && (← pointee? user) = some first

def gepLayers (v : ValueId) (g : Gep) : Query (List (Layer TypeId)) := do
  let (layers, last) ← indexLayers g.source g.indices.tail
  match (← ofType Ty.fields? last).bind List.head? with
  | some first => return if ← isFirstField v first then ⟨last, .nth 0⟩ :: layers else layers
  | none => return layers

def isRoot (v : ValueId) : Query Bool := do
  match (← value v).kind with
  | .argument .. | .global _ => return true
  | .instr i => return i.opcode.isAlloca
  | _ => return false

def walkBack? (v : ValueId) : Query (Option (List ValueId)) := do
  match ← opcode? v with
  | some (.load ptr) => return some [ptr]
  | some (.select _ ifTrue _) => return some [ifTrue]
  | some (.phi incoming) => return some incoming
  | some (.unary operand) => return some [operand]
  | _ => return (← bitCast? v).map fun operand => [operand]

def walkStep (root : Option ValueId) (v : ValueId) :
    Query (Visit ValueId (Option ValueId) (List (Layer TypeId) × ValueId)) := do
  if ← isArgument v then return .goOn (some v) []
  else
    match ← gep? v with
    | some g => return .stop (← gepLayers v g, g.base)
    | none =>
      match ← walkBack? v with
      | some next => return .goOn root next
      | none => return .goOn (if ← isRoot v then some v else none) []

def nextLayers (fresh : List ValueId) (v : ValueId) :
    Query (List ValueId × Outcome (Option ValueId) (List (Layer TypeId) × ValueId)) :=
  search .newest walkStep (fun _ v => some v) fresh [v] (some v)

def layersFrom (fresh : List ValueId) (v : ValueId) :
    Query (List (Layer TypeId) × Option ValueId) := do
  match ← nextLayers fresh v with
  | (left, .answered (layers, base)) =>
    if _h : left.length < fresh.length then
      let (outer, root) ← layersFrom left base
      return (layers ++ outer, root)
    else return (layers, none)
  | (_, .exhausted root) => return ([], root)
termination_by fresh.length

section Chain

variable (aliases : OrdMap ValueId ValueId)

def compositeHere? (v : ValueId) : Query (Option TypeId) := do
  let t ← typeOf v
  if ← ofType Ty.isComposite t then return some t
  else
    match ← ofType Ty.pointee? t with
    | some pointee =>
      if ← ofType Ty.isComposite pointee then return some pointee
      else
        match aliases.get? v with
        | some conversion => Query.pointee? conversion
        | none => return none
    | none => return none

def typedBehind (v : ValueId) : Query (List ValueId) := do
  match ← opcode? v with
  | some (.select _ ifTrue _) => return [ifTrue]
  | some (.phi incoming) => return incoming
  | some (.load ptr) => return [ptr]
  | _ => return (← bitCast? v).toList

def compositeStep (v : ValueId) : Query (Visit ValueId Unit TypeId) := do
  match ← compositeHere? aliases v with
  | some t => return .stop t
  | none => return .goOn () (← typedBehind v)

def baseType? (v : ValueId) : Query (Option TypeId) := do
  let found ← search .newest (fun _ => compositeStep aliases) (fun s _ => s) (← valueIds) [v] ()
  match found.2 with
  | .answered t => return some t
  | .exhausted _ => return none

def isClosedRoot (root : ValueId) : Query Bool := do
  let isOpen := (← isArgument root) && (← isPointer root)
  let isStored ← any (← users root) fun user => do
    return (← store? user).any fun (_, ptr) => ptr = root
  return !isOpen && !isStored

def typeChain (v : ValueId) : Query (List (Layer TypeId) × Bool) := do
  let base := (← baseType? aliases v).map fun t => (⟨t, .nth 0⟩ : Layer TypeId)
  match ← layersFrom (← valueIds) v with
  | (layers, some root) => return (base.toList ++ layers, ← isClosedRoot root)
  | (layers, none) => return (base.toList ++ layers, false)

end Chain

section Refine

variable (index : View.Index) (facts : Facts TypeKey) (max : Nat)

/-- Narrows the targets by all layers behind a value. -/
def walk (type : TypeKey) (fresh : List ValueId) (v : ValueId) (r : Refinement) :
    Query (Refinement × Stop) := do
  if max ≤ r.depth then return (r, .limit)
  else if facts.isCapped (r.last type) then return (r, .capped (r.last type))
  else
    match ← nextLayers fresh v with
    | (_, .exhausted _) => return (r, .noLayers)
    | (left, .answered (layers, base)) =>
      if layers.isEmpty then return (r, .noLayers)
      else
        match r.narrow facts max (← each layers (layer index)) with
        | (r, some stop) => return (r, stop)
        | (r, none) =>
          if _h : left.length < fresh.length then walk type left base r
          else return (r, .noLayers)
termination_by fresh.length

def refineBy (kept : Matches) (baseline : OrdSet FunctionId) (call : Option Call) :
    Query (Resolution × Matches) := do
  match call with
  | some call =>
    if baseline.isEmpty then
      return ({ baseline, steps := [], stop := .noCandidates, targets := baseline }, kept)
    else
      let (r, stop) ← walk index facts max (← typeKey index call.type) (← valueIds) call.callee
        { targets := baseline, kept }
      return ({ baseline, steps := r.steps, stop, targets := r.targets }, r.kept)
  | none => return ({ baseline, steps := [], stop := .noCandidates, targets := baseline }, kept)

end Refine

end Query

/-! ## Answers -/

namespace Query

section Walk

variable {p : Program} (hp : p.Valid) {v : ValueId} (hv : p.HasValue v)

include hp

theorem answer?_indexLayers {t : TypeId} (ht : p.HasType t) (indices : List GepIndex) :
    (indexLayers t indices).answer? p = some (Program.indexLayers p.types t indices) := by
  induction indices generalizing t with
  | nil => rfl
  | cons index rest ih =>
    simp only [indexLayers, Program.indexLayers, TypeTable.element?, answer?_bind,
      answer?_ofType_bind ht, Option.bind_some]
    cases hnext : (p.types.get? t).bind (·.element? index.const?) with
    | none => rfl
    | some next => simp [ih (hp.hasType_of_element? hnext)]

include hv

theorem answer?_isFirstField (first : TypeId) :
    (isFirstField v first).answer? p = some (p.isFirstField v first) := by
  simp only [isFirstField, answer?_bind, answer?_usersOf hv hp, Option.bind_some]
  refine answer?_any fun u hu => ?_
  have hu := hp.hasValue_user hu
  simp [answer?_bitCast? hu, answer?_pointee? hu hp]

theorem answer?_gepLayers {g : Gep} (hg : p.gep? v = some g) :
    (gepLayers v g).answer? p = some (p.gepLayers v g) := by
  have hsource := hp.hasType_of_gep? hg
  have hlast := (hp.hasLayers_indexLayers hsource g.indices.tail).2
  simp only [gepLayers, Program.gepLayers, TypeTable.fields?, answer?_bind,
    answer?_indexLayers hp hsource, answer?_ofType_bind hlast, Option.bind_some]
  cases ((p.types.get? _).bind Ty.fields?).bind List.head? with
  | none => rfl
  | some first => simp [answer?_isFirstField hp hv]

omit hp in
theorem answer?_isRoot : (isRoot v).answer? p = some (p.isRoot v) := by
  obtain ⟨x, hx⟩ := Program.exists_value hv
  simp only [isRoot, Program.isRoot, hx, answer?_bind, answer?_value, Option.bind_some,
    Option.map_some]
  cases x.kind <;> rfl

omit hp in
theorem answer?_walkBack? : (walkBack? v).answer? p = some (p.walkBack? v) := by
  simp only [walkBack?, Program.walkBack?, answer?_bind, answer?_opcode? hv, Option.bind_some]
  cases p.opcode? v with
  | none => simp [answer?_bitCast? hv]
  | some op => cases op <;> simp [answer?_bitCast? hv]

theorem answer?_walkStep (root : Option ValueId) :
    (walkStep root v).answer? p = some (p.layerWalk.visit root v) := by
  simp only [walkStep, Program.layerWalk, answer?_bind, answer?_ite, answer?_isArgument hv,
    answer?_gep? hv, Option.bind_some]
  split
  · rfl
  · cases hg : p.gep? v with
    | some g => simp [answer?_gepLayers hp hv hg]
    | none =>
      simp only [answer?_bind, answer?_walkBack? hv, Option.bind_some]
      cases p.walkBack? v with
      | some next => rfl
      | none => simp [answer?_isRoot hv]

omit hv in
theorem answer?_nextLayers {fresh : List ValueId} (hfresh : ∀ u ∈ fresh, p.HasValue u)
    (v : ValueId) : (nextLayers fresh v).answer? p = some (p.nextLayers fresh v) :=
  answer?_search p.layerWalk (fun root u hu => answer?_walkStep hp (hfresh u hu) root) [v] (some v)

omit hv in
theorem answer?_layersFrom {fresh : List ValueId} (hfresh : ∀ u ∈ fresh, p.HasValue u)
    (v : ValueId) : (layersFrom fresh v).answer? p = some (p.layersFrom fresh v) := by
  fun_induction Program.layersFrom p fresh v with
  | case1 fresh v left layers base hnext hlt outer root heq ih =>
    rw [layersFrom]
    simp only [answer?_bind, answer?_nextLayers hp hfresh, hnext, Option.bind_some]
    rw [dif_pos hlt]
    simp only [answer?_bind]
    rw [ih fun u hu => hfresh u (Search.mem_of_mem_run hnext hu)]
    simp [heq]
  | case2 fresh v left layers base hnext hlt =>
    rw [layersFrom]
    simp only [answer?_bind, answer?_nextLayers hp hfresh, hnext, Option.bind_some]
    rw [dif_neg hlt]
    rfl
  | case3 fresh v left root hnext =>
    rw [layersFrom]
    simp [answer?_nextLayers hp hfresh, hnext]

end Walk

section Chain

variable {p : Program} (hp : p.Valid) {aliases : OrdMap ValueId ValueId}
  (haliases : aliases.All fun _ w => p.HasValue w) {v : ValueId} (hv : p.HasValue v)
include hp haliases hv

theorem answer?_compositeHere? : (compositeHere? aliases v).answer? p =
    some (Program.compositeSearch.here? p aliases v) := by
  have ht := hp.hasType_typeOf hv
  simp only [compositeHere?, Program.compositeSearch.here?, answer?_bind, answer?_ite,
    answer?_typeOf hv, Program.type?_eq_typeOf hv, answer?_isCompositeType ht,
    answer?_pointeeOf? ht, Option.bind_some, Option.bind_eq_bind]
  cases p.types.isComposite (p.typeOf v) with
  | true => rfl
  | false =>
    cases hu : p.types.pointee? (p.typeOf v) with
    | none => rfl
    | some u =>
      simp only [answer?_bind, answer?_ite,
        answer?_isCompositeType (hp.hasType_of_pointeeOf? hu), Option.bind_some]
      cases p.types.isComposite u with
      | true => rfl
      | false =>
        cases halias : aliases.get? v with
        | none => rfl
        | some w => exact answer?_pointee? (haliases.of_get? halias) hp

omit hp haliases in
theorem answer?_typedBehind :
    (typedBehind v).answer? p = some (Program.compositeSearch.next p v) := by
  simp only [typedBehind, Program.compositeSearch.next, answer?_bind, answer?_opcode? hv,
    Option.bind_some]
  cases p.opcode? v with
  | none => simp [answer?_bitCast? hv]
  | some op => cases op <;> simp [answer?_bitCast? hv]

omit hv in
theorem answer?_baseType? (v : ValueId) :
    (baseType? aliases v).answer? p = some (p.baseType? aliases v) := by
  have hvisit : ∀ s, ∀ u ∈ p.valueIds,
      (compositeStep aliases u).answer? p = some ((p.compositeSearch aliases).visit s u) := by
    intro s u hu
    have hu := Program.mem_valueIds.1 hu
    simp only [compositeStep, Program.compositeSearch, answer?_bind,
      answer?_compositeHere? hp haliases hu, Option.bind_some]
    cases Program.compositeSearch.here? p aliases u with
    | some t => rfl
    | none => simp [answer?_typedBehind hu]
  have hsearch : (search .newest (fun _ => compositeStep aliases) (fun s _ => s) p.valueIds [v]
      ()).answer? p = some ((p.compositeSearch aliases).run p.valueIds [v] ()) :=
    answer?_search (p.compositeSearch aliases) hvisit [v] ()
  simp only [baseType?, Program.baseType?, answer?_bind, answer?_valueIds, Option.bind_some,
    hsearch]
  cases ((p.compositeSearch aliases).run p.valueIds [v] ()).2 <;> rfl

omit haliases in
theorem answer?_isClosedRoot : (isClosedRoot v).answer? p = some (p.isClosedRoot v) := by
  have hstores : ∀ u ∈ p.usersOf v, (do return (← store? u).any fun (_, ptr) => ptr = v :
      Query Bool).answer? p = some ((p.store? u).any fun (_, ptr) => ptr = v) := fun u hu => by
    simp [answer?_store? (hp.hasValue_user hu)]
  simp only [isClosedRoot, Program.isClosedRoot, answer?_bind, answer?_isArgument hv,
    answer?_isPointer hv hp, answer?_usersOf hv hp, answer?_any hstores, Option.bind_some,
    answer?_pure]

theorem answer?_typeChain : (typeChain aliases v).answer? p = some (p.typeChain aliases v) := by
  have hroot := (hp.of_layersFrom p.valueIds hv).2
  simp only [typeChain, Program.typeChain, answer?_bind, answer?_baseType? hp haliases,
    answer?_valueIds, answer?_layersFrom hp fun u hu => Program.mem_valueIds.1 hu,
    Option.bind_some]
  rcases hlayers : p.layersFrom p.valueIds v with ⟨layers, root⟩
  cases root with
  | none => rfl
  | some root => simp [answer?_isClosedRoot hp (hroot root (by rw [hlayers]))]

end Chain

section Refine

variable {view : View} (hview : view.Valid) {facts : Facts TypeKey} {max : Nat}
include hview

theorem answer?_layers {layers : List (Layer TypeId)} (hlayers : view.program.HasLayers layers) :
    (each layers (layer view.index)).answer? view.program = some (layers.map view.layer) :=
  answer?_each fun l hl => answer?_layer hview (hlayers l hl)

theorem answer?_walk {type : TypeKey} {fresh : List ValueId}
    (hfresh : ∀ u ∈ fresh, view.program.HasValue u) {v : ValueId} (hv : view.program.HasValue v)
    (r : Refinement) :
    (walk view.index facts max type fresh v r).answer? view.program =
      some (r.walk view facts max type fresh v) := by
  fun_induction Refinement.walk view facts max type fresh v r with
  | case1 fresh v r hlimit =>
    rw [walk, if_pos hlimit]
    rfl
  | case2 fresh v r hlimit hcapped =>
    rw [walk, if_neg hlimit, if_pos hcapped]
    rfl
  | case3 fresh v r hlimit hcapped left root hnext =>
    rw [walk, if_neg hlimit, if_neg hcapped]
    simp [answer?_nextLayers hview.program hfresh, hnext]
  | case4 fresh v r hlimit hcapped left layers base hnext hempty =>
    rw [walk, if_neg hlimit, if_neg hcapped]
    simp only [answer?_bind, answer?_nextLayers hview.program hfresh, hnext, Option.bind_some]
    rw [if_pos hempty]
    rfl
  | case5 fresh v r hlimit hcapped left layers base hnext hempty r' stop hnarrow =>
    have hlayers := (hview.program.of_nextLayers_answered hv hnext).1
    rw [walk, if_neg hlimit, if_neg hcapped]
    simp only [answer?_bind, answer?_nextLayers hview.program hfresh, hnext, Option.bind_some]
    rw [if_neg hempty]
    simp [answer?_layers hview hlayers, hnarrow]
  | case6 fresh v r hlimit hcapped left layers base hnext hempty r' hnarrow hlt ih =>
    obtain ⟨hlayers, hbase⟩ := hview.program.of_nextLayers_answered hv hnext
    rw [walk, if_neg hlimit, if_neg hcapped]
    simp only [answer?_bind, answer?_nextLayers hview.program hfresh, hnext, Option.bind_some]
    rw [if_neg hempty]
    simp only [answer?_bind, answer?_layers hview hlayers, hnarrow, Option.bind_some]
    rw [dif_pos hlt]
    exact ih (fun u hu => hfresh u (Search.mem_of_mem_run hnext hu)) hbase
  | case7 fresh v r hlimit hcapped left layers base hnext hempty r' hnarrow hlt =>
    have hlayers := (hview.program.of_nextLayers_answered hv hnext).1
    rw [walk, if_neg hlimit, if_neg hcapped]
    simp only [answer?_bind, answer?_nextLayers hview.program hfresh, hnext, Option.bind_some]
    rw [if_neg hempty]
    simp only [answer?_bind, answer?_layers hview hlayers, hnarrow, Option.bind_some]
    rw [dif_neg hlt]
    rfl

theorem answer?_refineBy (kept : Matches) (baseline : OrdSet FunctionId) {call : Option Call}
    (hcall : ∀ c, call = some c → view.program.HasType c.type ∧ view.program.HasValue c.callee) :
    (refineBy view.index facts max kept baseline call).answer? view.program =
      some (view.refine facts max kept baseline call) := by
  cases call with
  | none => rfl
  | some call =>
    obtain ⟨htype, hcallee⟩ := hcall call rfl
    have hwalk : ∀ type r, (walk view.index facts max type view.program.valueIds call.callee
        r).answer? view.program =
          some (r.walk view facts max type view.program.valueIds call.callee) :=
      fun type r => answer?_walk hview (fun u hu => Program.mem_valueIds.1 hu) hcallee r
    simp only [refineBy, View.refine, answer?_ite, answer?_bind, answer?_typeKey hview htype,
      answer?_valueIds, hwalk, Option.bind_some, answer?_pure]
    cases baseline.isEmpty <;> rfl

end Refine

end Query

end CallTargets
