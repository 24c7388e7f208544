import CallTargets.Proofs.Analysis.Phases
import CallTargets.Proofs.Flow.Trace
import Mathlib

/-!
# Calls of confined functions

The answers to calls without a trace leave confined functions out, so a confined function
is found by an indirect call exactly if the call can be traced to it
(`mem_resolveIndirect_iff`). That loses nothing as long as the function's address travels in
sight of the check for confinement (`traced_of_travels`): the check follows the uses of the
address that the function itself has. It does not look at the address of a declaration that
stands for the function, nor at a second address of a variable that the function initialises,
and it takes every function with the name of a library function that calls back for that
library function. By these ways an address can get to a call that is not traced
(`outOfSight`).
-/

namespace CallTargets

/-! ## Checking uses -/

theorem exists_of_mapM_eq_some {α β : Type} {f : α → Option β} {as : List α} {bs : List β}
    (h : as.mapM f = some bs) : ∀ a ∈ as, ∃ b ∈ bs, f a = some b := by
  induction as generalizing bs with
  | nil => exact fun a ha => by cases ha
  | cons a as ih =>
    simp only [List.mapM_cons, Option.pure_def, Option.bind_eq_bind, Option.bind_eq_some_iff,
      Option.some.injEq] at h
    obtain ⟨b, hb, bs', hbs', rfl⟩ := h
    intro a' ha'
    rcases List.mem_cons.1 ha' with rfl | ha'
    · exact ⟨b, List.mem_cons_self, hb⟩
    · obtain ⟨b', hmem, hb'⟩ := ih hbs' a' ha'
      exact ⟨b', List.mem_cons_of_mem b hmem, hb'⟩

namespace View

variable {view : View} {flow : Flow} {f : FunctionId} {u v w : ValueId}

def useSearch (p : Program) (use : ValueId → ValueId → Option (List ValueId)) :
    Search ValueId Unit Unit where
  turn := .newest
  visit := fun _ v =>
    match (p.usersOf v).mapM (use v) with
    | some next => .goOn () next.flatten
    | none => .stop ()

def UsesPass (p : Program) (use : ValueId → ValueId → Option (List ValueId))
    (Seen : ValueId → Prop) : Prop :=
  ∀ v, Seen v → ∀ u ∈ p.usersOf v, ∃ next, use v u = some next ∧
    ∀ w ∈ next, p.HasValue w → Seen w

theorem exists_usesPass {p : Program} {use : ValueId → ValueId → Option (List ValueId)}
    (hv : p.HasValue v)
    (hrun : ((useSearch p use).run p.valueIds [v] ()).2 = .exhausted ()) :
    ∃ Seen, Seen v ∧ UsesPass p use Seen := by
  have hrun' : (useSearch p use).run p.valueIds [v] () =
      (((useSearch p use).run p.valueIds [v] ()).1, .exhausted ()) := Prod.ext rfl hrun
  obtain ⟨Seen, hstart, hclosed⟩ := Search.closed_of_exhausted p.nodup_valueIds hrun'
  refine ⟨Seen, hstart v List.mem_cons_self (Program.mem_valueIds.2 hv), fun w hw u hu => ?_⟩
  obtain ⟨next, hvisit, hnext⟩ := hclosed w hw
  simp only [useSearch] at hvisit
  split at hvisit
  · rename_i found hfound
    cases hvisit
    obtain ⟨part, hpart, huse⟩ := exists_of_mapM_eq_some hfound u hu
    exact ⟨part, huse, fun x hx hhas =>
      hnext x (List.mem_flatten.2 ⟨part, hpart, hx⟩) (Program.mem_valueIds.2 hhas)⟩
  · cases hvisit

theorem usesPass_of_isOnlyInvoked (hv : view.program.HasValue v)
    (h : view.isOnlyInvoked flow v = true) :
    ∃ Seen, Seen v ∧ UsesPass view.program (view.invokedUse? flow) Seen := by
  refine exists_usesPass hv ?_
  unfold isOnlyInvoked at h
  dsimp only at h
  split at h
  · cases h
  · assumption

theorem function?_of_isConfined (h : view.isConfined flow f = true) :
    ∃ fn, view.program.function? f = some fn := by
  cases hf : view.program.function? f with
  | some fn => exact ⟨fn, rfl⟩
  | none => simp [isConfined, hf] at h

theorem usesPass_of_isConfined {fn : Function} (hf : view.program.function? f = some fn)
    (hv : view.program.HasValue fn.value) (h : view.isConfined flow f = true) :
    ∃ Seen, Seen fn.value ∧ UsesPass view.program (view.confinedUse? flow) Seen := by
  refine exists_usesPass hv ?_
  simp only [isConfined, hf] at h
  split at h
  · cases h
  · assumption

end View

/-! ## How addresses travel -/

/-- Which ways of travelling count. -/
structure Route where
  start : ValueId → Prop
  address : ValueId → GlobalId → Prop
  argument : Call → Nat → Prop

/-- The pointers that a value may become: by conversions and joins, through variables, and
into and out of functions that are called directly. -/
inductive View.Travels (view : View) (route : Route) : ValueId → Prop where
  | start {v : ValueId} : route.start v → Travels view route v
  | cast {v w : ValueId} {op : CastOp} : Travels view route w →
      view.program.cast? v = some (op, w) → op.keepsPointer = true → Travels view route v
  | phi {v w : ValueId} {incoming : List ValueId} : Travels view route w →
      view.program.opcode? v = some (.phi incoming) → w ∈ incoming → Travels view route v
  | select {v w condition ifTrue ifFalse : ValueId} : Travels view route w →
      view.program.opcode? v = some (.select condition ifTrue ifFalse) →
      w = ifTrue ∨ w = ifFalse → Travels view route v
  | load {v w ptr store : ValueId} : Travels view route w →
      view.program.store? store = some (w, ptr) → view.program.load? v = some ptr →
      Travels view route v
  | init {v w ptr : ValueId} {g : GlobalId} {global : Global} : Travels view route w →
      view.program.global? g = some global → global.init = some w → route.address ptr g →
      view.program.load? v = some ptr → Travels view route v
  | argument {v w c : ValueId} {site : CallSite} {callee : FunctionId} {fn : Function}
      {index : Nat} : Travels view route w → view.program.callSite? c = some site →
      view.directTarget? site.call.callee = some callee → site.call.args[index]? = some w →
      route.argument site.call index → view.program.function? callee = some fn →
      fn.params[index]? = some v → Travels view route v
  | result {v w : ValueId} {site : CallSite} {callee : FunctionId} : Travels view route w →
      w ∈ view.program.returned callee → view.program.callSite? v = some site →
      view.directTarget? site.call.callee = some callee → Travels view route v

/-- All ways: from any address of the function or of a declaration that stands for it. -/
def Route.every (view : View) (f : FunctionId) : Route where
  start v := ∃ g, (view.program.value? v).map Value.kind = some (.function g) ∧
    view.definitionOf g = f
  address ptr g := (view.program.value? ptr).map Value.kind = some (.global g)
  argument _ _ := True

/-- The ways that the check for confinement looks at: from the function's own address, through
a variable's own address, and to no function with the name of one that calls back. -/
def Route.inSight (view : View) (f : FunctionId) : Route where
  start v := ∃ fn, view.program.function? f = some fn ∧ v = fn.value
  address ptr g := (view.program.global? g).map Global.value = some ptr
  argument call index := ∀ g, view.program.baseFunction? call.callee = some g →
    callbackPlace? (view.program.functionName g) ≠ some index

/-! ## Addresses in sight -/

namespace Program

variable {p : Program} {u v : ValueId}

theorem Valid.mem_usersOf_operand (h : p.Valid) (hv : v ∈ p.operands u) : u ∈ p.usersOf v :=
  h.mem_usersOf.2 ⟨h.hasValue_operand hv, .inl hv⟩

theorem Valid.mem_usersOf_init (h : p.Valid) {g : GlobalId} {global : Global}
    (hg : p.global? g = some global) (hinit : global.init = some v) :
    global.value ∈ p.usersOf v :=
  h.mem_usersOf.2 ⟨(h.records.global hg).init v hinit,
    .inr ⟨global, Array.mem_of_getElem? hg, hinit, rfl⟩⟩

end Program

section Sight

variable {view : View} (hp : view.program.Valid) {flow : Flow} {f : FunctionId} {fn : Function}
  {u v w : ValueId}

inductive View.IsAddress (view : View) (fn : Function) : ValueId → Prop where
  | self : IsAddress view fn fn.value
  | cast {v w : ValueId} {op : CastOp} : IsAddress view fn w →
      (view.program.value? v).map Value.kind = some (.const (.cast op w)) →
      op.keepsPointer = true → IsAddress view fn v

/-- A pointer that is only used to be called, and that may come from a value. -/
def View.IsInvoked (view : View) (flow : Flow) (origin v : ValueId) : Prop :=
  view.ComesFrom v origin ∧
    ∃ Seen, Seen v ∧ View.UsesPass view.program (view.invokedUse? flow) Seen

include hp in
theorem View.IsAddress.seen {Seen : ValueId → Prop} (hself : Seen fn.value)
    (hseen : UsesPass view.program (view.confinedUse? flow) Seen) (hv : view.IsAddress fn v) :
    Seen v := by
  induction hv with
  | self => exact hself
  | cast hw hkind hop ih =>
    rename_i v w op
    have huser : v ∈ view.program.usersOf w := by
      refine hp.mem_usersOf_operand ?_
      rw [Program.operands_of_const hkind]
      exact List.mem_cons_self
    obtain ⟨next, huse, hnext⟩ := hseen w ih v huser
    simp only [confinedUse?, hkind, hop, if_true, Option.some.injEq] at huse
    subst huse
    exact hnext v List.mem_cons_self (hp.hasValue_user huser)

theorem View.IsAddress.comesFrom (hv : view.IsAddress fn v) : view.ComesFrom v fn.value := by
  induction hv with
  | self => exact .refl
  | cast hw hkind hop ih =>
    refine .head ?_ ih
    simp only [Search.Leads, origins, hkind, hop, if_true]
    exact List.mem_cons_self

include hp in
theorem View.IsInvoked.step {origin : ValueId} (h : view.IsInvoked flow origin w)
    (huser : v ∈ view.program.usersOf w) (hfrom : w ∈ view.origins v)
    (hnext : ∀ next, view.invokedUse? flow w v = some next → next = [v]) :
    view.IsInvoked flow origin v := by
  obtain ⟨hcomes, Seen, hw, hseen⟩ := h
  obtain ⟨next, huse, hclosed⟩ := hseen w hw v huser
  obtain rfl := hnext next huse
  exact ⟨.head hfrom hcomes, Seen, hclosed v List.mem_cons_self (hp.hasValue_user huser), hseen⟩

theorem View.IsInvoked.use_ne_none {origin : ValueId} (h : view.IsInvoked flow origin w)
    (huser : v ∈ view.program.usersOf w) : view.invokedUse? flow w v ≠ none := by
  obtain ⟨-, Seen, hw, hseen⟩ := h
  obtain ⟨next, huse, -⟩ := hseen w hw v huser
  simp [huse]

theorem Program.strip_of_isSlot {p : Program} (h : p.isSlot v = true) : p.strip v = v := by
  rw [strip, stripUpTo, cast?_of_isSlot h]

include hp in
theorem View.isInvoked_of_isCallSlot {ptr : ValueId} (hslot : view.isCallSlot flow ptr = true)
    (hload : view.program.load? v = some ptr) (hheld : w ∈ view.program.heldIn ptr)
    {origin : ValueId} (hw : view.ComesFrom w origin) : view.IsInvoked flow origin v := by
  have hop := Program.opcode?_of_load? hload
  have huser : v ∈ view.program.usersOf ptr := by
    refine hp.mem_usersOf_operand ?_
    rw [Program.operands_of_opcode hop]
    exact List.mem_cons_self
  simp only [isCallSlot, Bool.and_eq_true, List.all_eq_true, List.mem_filter] at hslot
  obtain ⟨hprivate, hloads⟩ := hslot
  refine ⟨.head ?_ hw, usesPass_of_isOnlyInvoked (hp.hasValue_user huser)
    (hloads v ⟨huser, by simp [hload]⟩)⟩
  have hstrip : view.program.strip ptr = ptr := by
    refine Program.strip_of_isSlot ?_
    unfold Program.privateStores? at hprivate
    split at hprivate
    · rename_i h
      exact (Bool.and_eq_true_iff.1 h).1
    · cases hprivate
  obtain ⟨i, hkind, hiop⟩ := Program.opcode?_eq_some_iff.1 hop
  simp only [Search.Leads, origins, hkind, hiop, hstrip]
  exact hheld

theorem View.confinedUse?_of_opcode {op : Opcode} (hop : view.program.opcode? u = some op)
    (huse : view.confinedUse? flow v u ≠ none) :
    (∃ call, op = .call call ∧ view.isPlainCall v call = true) ∨
      ∃ ptr, op = .store v ptr ∧ view.isCallSlot flow ptr = true := by
  obtain ⟨i, hkind, rfl⟩ := Program.opcode?_eq_some_iff.1 hop
  simp only [confinedUse?, hkind] at huse
  split at huse
  · rename_i call hcall
    refine .inl ⟨call, hcall, ?_⟩
    by_contra hplain
    simp [hplain] at huse
  · rename_i stored ptr hstore
    have hcond : (stored = v && ptr ≠ v && view.isCallSlot flow ptr) = true := by
      by_contra hcond
      rw [if_neg hcond] at huse
      exact huse rfl
    simp only [Bool.and_eq_true, decide_eq_true_eq] at hcond
    obtain ⟨⟨rfl, -⟩, hslot⟩ := hcond
    exact .inr ⟨ptr, hstore, hslot⟩
  · exact absurd rfl huse

theorem View.not_isPlainCall {call : Call} {index : Nat} (harg : call.args[index]? = some w)
    (hplace : ∀ g, view.program.baseFunction? call.callee = some g →
      callbackPlace? (view.program.functionName g) ≠ some index) :
    ¬ view.isPlainCall w call = true := by
  intro hplain
  simp only [isPlainCall, List.all_eq_true] at hplain
  have := hplain (w, index) (List.mk_mem_zipIdx_iff_getElem?.2 harg)
  simp only [ne_eq, not_true_eq_false, decide_false, Bool.false_or, decide_eq_true_eq,
    Option.bind_eq_some_iff] at this
  obtain ⟨g, hg, hcallback⟩ := this
  exact hplace g hg hcallback

variable {Seen : ValueId → Prop} (hf : view.program.function? f = some fn)
  (hself : Seen fn.value) (hseen : View.UsesPass view.program (view.confinedUse? flow) Seen)

include hp hself hseen in
theorem View.IsAddress.use_ne_none (hv : view.IsAddress fn v) (hu : u ∈ view.program.usersOf v) :
    view.confinedUse? flow v u ≠ none := by
  obtain ⟨next, huse, -⟩ := hseen v (hv.seen hp hself hseen) u hu
  simp [huse]

/-- A pointer in sight: a constant conversion of the function's address, or one that may come
from the address and is only used to be called. -/
def View.InSight (view : View) (flow : Flow) (fn : Function) (v : ValueId) : Prop :=
  view.IsAddress fn v ∨ view.IsInvoked flow fn.value v

include hp hself hseen in
theorem View.InSight.use (hw : view.InSight flow fn w) {op : Opcode}
    (hop : view.program.opcode? u = some op) (hmem : w ∈ op.operands) :
    (∃ call, op = .call call ∧ (view.isPlainCall w call = true ∨ w ∉ call.args)) ∨
      (∃ ptr, op = .store w ptr ∧ view.IsAddress fn w ∧ view.isCallSlot flow ptr = true) ∨
      (view.IsInvoked flow fn.value w ∧ view.invokedUse? flow w u = some [u]) := by
  have huser : u ∈ view.program.usersOf w :=
    hp.mem_usersOf_operand (by rwa [Program.operands_of_opcode hop])
  rcases hw with hw | hw
  · rcases confinedUse?_of_opcode hop (hw.use_ne_none hp hself hseen huser) with
      ⟨call, hcall, hplain⟩ | ⟨ptr, hstore, hslot⟩
    · exact .inl ⟨call, hcall, .inl hplain⟩
    · exact .inr (.inl ⟨ptr, hstore, hw, hslot⟩)
  · have hne := hw.use_ne_none huser
    cases op with
    | call call =>
      refine .inl ⟨call, rfl, .inr fun hargs => hne ?_⟩
      simp [invokedUse?, hop, hargs]
    | cast castOp operand =>
      refine .inr (.inr ⟨hw, ?_⟩)
      simp only [invokedUse?, hop] at hne ⊢
      split at hne <;> simp_all
    | phi incoming => exact .inr (.inr ⟨hw, by simp [invokedUse?, hop]⟩)
    | select condition ifTrue ifFalse =>
      refine .inr (.inr ⟨hw, ?_⟩)
      simp only [invokedUse?, hop] at hne ⊢
      split at hne <;> simp_all
    | _ => simp [invokedUse?, hop] at hne

include hp hself hseen in
theorem View.InSight.join (hw : view.InSight flow fn w) {op : Opcode}
    (hop : view.program.opcode? v = some op) (hmem : w ∈ op.operands)
    (hcall : ∀ call, op ≠ .call call) (hstore : ∀ value ptr, op ≠ .store value ptr)
    (hfrom : w ∈ view.origins v) : view.InSight flow fn v := by
  rcases hw.use hp hself hseen hop hmem with ⟨call, h, -⟩ | ⟨ptr, h, -⟩ | ⟨hinvoked, huse⟩
  · exact absurd h (hcall call)
  · exact absurd h (hstore w ptr)
  · have huser : v ∈ view.program.usersOf w :=
      hp.mem_usersOf_operand (by rwa [Program.operands_of_opcode hop])
    refine .inr (hinvoked.step hp huser hfrom fun next hnext => ?_)
    exact Option.some.inj (hnext.symm.trans huse)

include hp hself hseen in
theorem View.InSight.cast {op : CastOp} (hw : view.InSight flow fn w)
    (hcast : view.program.cast? v = some (op, w)) (hop : op.keepsPointer = true) :
    view.InSight flow fn v := by
  rcases Program.cast?_eq_some_iff.1 hcast with hkind | hopcode
  · rcases hw with hw | hw
    · exact .inl (.cast hw hkind hop)
    · -- a constant is no use that a pointer which is only called may have
      have huser : v ∈ view.program.usersOf w :=
        hp.mem_usersOf_operand (by simp [Program.operands_of_const hkind, Const.operands])
      refine absurd ?_ (hw.use_ne_none huser)
      simp [invokedUse?, Program.opcode?_eq_none hkind (by simp)]
  · obtain ⟨i, hkind, hiop⟩ := Program.opcode?_eq_some_iff.1 hopcode
    exact hw.join hp hself hseen hopcode (by simp [Opcode.operands]) (by simp) (by simp)
      (by simp [origins, hkind, hiop, hop])

include hp hself hseen in
theorem View.InSight.load {ptr store : ValueId} (hw : view.InSight flow fn w)
    (hstore : view.program.store? store = some (w, ptr))
    (hload : view.program.load? v = some ptr) : view.InSight flow fn v := by
  have hop := Program.opcode?_of_store? hstore
  rcases hw.use hp hself hseen hop (by simp [Opcode.operands]) with
    ⟨_, hcon, -⟩ | ⟨ptr', hptr, haddress, hslot⟩ | ⟨-, huse⟩
  · cases hcon
  · cases hptr
    refine .inr (isInvoked_of_isCallSlot hp hslot hload ?_ haddress.comesFrom)
    simp only [isCallSlot, Bool.and_eq_true] at hslot
    obtain ⟨stores, hstores⟩ := Option.isSome_iff_exists.1 hslot.1
    have hmem : store ∈ stores := by
      unfold Program.privateStores? at hstores
      split at hstores
      · cases hstores
        refine List.mem_filter.2 ⟨hp.mem_usersOf_operand ?_, by simp [hstore]⟩
        simp [Program.operands_of_opcode hop, Opcode.operands]
      · cases hstores
    simp only [Program.heldIn, hstores]
    exact List.mem_append_left _ (List.mem_filterMap.2 ⟨store, hmem, by simp [hstore]⟩)
  · simp [invokedUse?, hop] at huse

include hp hself hseen in
theorem View.InSight.init {g : GlobalId} {global : Global} (hw : view.InSight flow fn w)
    (hg : view.program.global? g = some global) (hinit : global.init = some w)
    (hload : view.program.load? v = some global.value) : view.InSight flow fn v := by
  have huser := hp.mem_usersOf_init hg hinit
  have hkind := Program.global?_bind_eq_some_iff.1 (hp.records.global hg).value
  rcases hw with hw | hw
  · have hne := hw.use_ne_none hp hself hseen huser
    simp only [confinedUse?, hkind, hg] at hne
    have hslot : view.isCallSlot flow global.value = true := by
      by_contra hslot
      simp [hslot] at hne
    refine .inr (isInvoked_of_isCallSlot hp hslot hload ?_ hw.comesFrom)
    simp only [isCallSlot, Bool.and_eq_true] at hslot
    obtain ⟨stores, hstores⟩ := Option.isSome_iff_exists.1 hslot.1
    simp only [Program.heldIn, hstores]
    refine List.mem_append_right _ (Option.mem_toList.2 ?_)
    simp [Program.initOf?, (hp.records.global hg).value, hg, hinit]
  · refine absurd ?_ (hw.use_ne_none huser)
    simp [invokedUse?, Program.opcode?_eq_none hkind (by simp)]

include hp hf hself hseen in
/-- If all uses of a function's address are in sight, so is all that becomes of it on the ways
that count. -/
theorem View.Travels.inSight (h : view.Travels (Route.inSight view f) v) :
    view.InSight flow fn v := by
  induction h with
  | start hstart =>
    obtain ⟨fn', hf', rfl⟩ := hstart
    cases hf.symm.trans hf'
    exact .inl .self
  | cast _ hcast hop ih => exact ih.cast hp hself hseen hcast hop
  | phi _ hop hmem ih =>
    obtain ⟨i, hkind, hiop⟩ := Program.opcode?_eq_some_iff.1 hop
    exact ih.join hp hself hseen hop hmem (by simp) (by simp) (by simpa [origins, hkind, hiop])
  | select _ hop hmem ih =>
    obtain ⟨i, hkind, hiop⟩ := Program.opcode?_eq_some_iff.1 hop
    refine ih.join hp hself hseen hop ?_ (by simp) (by simp) ?_
    · simp only [Opcode.operands, List.mem_cons, List.not_mem_nil, or_false]
      exact .inr hmem
    · simpa [origins, hkind, hiop] using hmem
  | load _ hstore hload ih => exact ih.load hp hself hseen hstore hload
  | init _ hg hinit haddress hload ih =>
    obtain ⟨global', hg', rfl⟩ := Option.map_eq_some_iff.1 haddress
    cases hg.symm.trans hg'
    exact ih.init hp hself hseen hg hinit hload
  | argument _ hsite htarget harg hroute hfn hparam ih =>
    have hmem := List.mem_of_getElem? harg
    have hop := Program.opcode?_of_callSite? hsite
    rcases ih.use hp hself hseen hop (List.mem_append_left _ hmem) with
      ⟨call, hcall, hplain | hargs⟩ | ⟨_, hcon, -⟩ | ⟨-, huse⟩
    · cases hcall
      exact absurd hplain (not_isPlainCall harg hroute)
    · cases hcall
      exact absurd hmem hargs
    · cases hcon
    · simp only [invokedUse?, hop] at huse
      split at huse <;> cases huse
  | result _ hret hsite htarget ih =>
    obtain ⟨r, hop⟩ := Program.exists_of_mem_returned hret
    rcases ih.use hp hself hseen hop (by simp [Opcode.operands]) with
      ⟨_, hcon, -⟩ | ⟨_, hcon, -⟩ | ⟨-, huse⟩
    · cases hcon
    · cases hcon
    · simp [invokedUse?, hop] at huse

include hp hf in
theorem Program.Valid.kind_address :
    (view.program.value? fn.value).map Value.kind = some (.function f) :=
  Program.function?_bind_eq_some_iff.1 (hp.records.function hf).value

include hp hf in
theorem View.IsAddress.of_comesFrom (hv : view.IsAddress fn v) (hu : view.ComesFrom v u) :
    view.IsAddress fn u := by
  induction hu with
  | refl => exact hv
  | tail _ hstep ih =>
    cases ih with
    | self => simp [Search.Leads, origins, hp.kind_address hf] at hstep
    | cast hw hkind hop =>
      simp only [Search.Leads, origins, hkind, hop, if_true, List.mem_singleton] at hstep
      rwa [hstep]

include hp hf in
theorem View.IsAddress.brings_ne_unknown (hv : view.IsAddress fn v) :
    view.brings flow v ≠ .unknown := by
  cases hv with
  | self => simp [brings, hp.kind_address hf]
  | cast hw hkind hop => simp [brings, hkind, hop]

theorem View.InSight.comesFrom (hv : view.InSight flow fn v) : view.ComesFrom v fn.value :=
  hv.elim IsAddress.comesFrom And.left

include hp hf in
theorem View.InSight.isSome_trace? {c : ValueId} {site : CallSite}
    (hsite : view.program.callSite? c = some site)
    (hv : view.InSight flow fn site.call.callee) :
    (view.trace? flow site.call.callee).isSome := by
  rcases hv with hv | hv
  · rw [Option.isSome_iff_ne_none]
    intro hnone
    obtain ⟨u, hu, hunknown⟩ := exists_unknown_of_trace? hnone
    exact (hv.of_comesFrom hp hf hu).brings_ne_unknown hp hf hunknown
  · have hop := Program.opcode?_of_callSite? hsite
    have huser : c ∈ view.program.usersOf site.call.callee :=
      hp.mem_usersOf_operand (Program.mem_operands_callee hsite)
    have hne := hv.use_ne_none huser
    simp only [invokedUse?, hop] at hne
    split at hne
    · rename_i h
      exact (Bool.and_eq_true_iff.1 h).2
    · exact absurd rfl hne

include hp hf in
theorem View.traced_of_travels (hconfined : view.isConfined flow f = true)
    (hself : view.definitionOf f = f) (hintrinsic : view.program.isIntrinsic f = false)
    {c : ValueId} {site : CallSite} (hsite : view.program.callSite? c = some site)
    (htravels : view.Travels (Route.inSight view f) site.call.callee) :
    ∃ trace, view.trace? flow site.call.callee = some trace ∧ f ∈ trace.functions := by
  obtain ⟨Seen, hstart, hseen⟩ :=
    usesPass_of_isConfined hf (hp.records.function hf).hasValue hconfined
  have hsight := htravels.inSight hp hf hstart hseen
  obtain ⟨trace, htrace⟩ := Option.isSome_iff_exists.1 (hsight.isSome_trace? hp hf hsite)
  have hle := brings_le_of_trace? hp (hp.hasValue_callee hsite) htrace hsight.comesFrom
  simp only [brings, hp.kind_address hf, hintrinsic, hself] at hle
  exact ⟨trace, htrace, hle f (OrdSet.mem_ofList.2 List.mem_cons_self)⟩

end Sight

/-! ## Answers -/

namespace Analysis

variable {a : Analysis} {f : FunctionId} {c : ValueId} {site : CallSite}

theorem mem_traced_iff (hsite : a.view.program.callSite? c = some site) :
    f ∈ a.traced c ↔ f ∈ a.candidates c ∧
      ∃ trace, a.view.trace? a.knownFlow site.call.callee = some trace ∧ f ∈ trace.functions := by
  unfold traced
  simp only [hsite]
  cases htrace : a.view.trace? a.knownFlow site.call.callee with
  | none => simp
  | some trace => simp [and_comm]

theorem mem_resolveIndirect_iff (options : LayerOptions) (hf : f ∈ a.confined)
    (hsite : a.view.program.callSite? c = some site) (hcandidate : f ∈ a.candidates c) :
    f ∈ (a.resolveIndirect (.pointerFlow options) c).1 ↔
      ∃ trace, a.view.trace? a.knownFlow site.call.callee = some trace ∧ f ∈ trace.functions := by
  rw [← and_iff_right (b := ∃ trace, _ ∧ _) hcandidate, ← mem_traced_iff hsite]
  simp only [resolveIndirect]
  split
  · rename_i hempty
    have hnone : f ∉ a.traced c := by
      rw [← OrdSet.mem_toList, List.isEmpty_iff.1 hempty]
      exact List.not_mem_nil
    refine iff_of_false (fun hmem => ?_) hnone
    have hleft := (OrdSet.mem_filter.1 hmem).2
    rw [(SameFacts.refine options a c).confined] at hleft
    simp [hf] at hleft
  · exact Iff.rfl

end Analysis

namespace Strategy

variable {strategy : Strategy} {p : Program} {a : Analysis} {f : FunctionId} {c : ValueId}
  {site : CallSite}

/-- A confined function has all uses of its address in sight; it is no declaration that stands
for another function. -/
theorem Running.confined [Hasher] (hp : p.Valid) (ha : strategy.Running p a) (hf : f ∈ a.confined) :
    a.view = (View.ofProgram p).link ∧ a.view.isConfined a.knownFlow f = true ∧
      a.view.definitionOf f = f ∧ p.isIntrinsic f = false := by
  have hview : (View.ofProgram p).link.Valid := (View.valid_ofProgram hp).link
  by_cases hne : p.modules.toList = []
  · have hids : p.moduleIds = [] := by simp [Program.moduleIds, hne]
    rw [ha.same.confined, Strategy.prepared, hids] at hf
    exact absurd hf (OrdSet.not_mem_empty f)
  · have hsame := ha.same_ready hp hne
    have hmem := hsame.confined ▸ hf
    simp only [ready] at hmem
    split at hmem
    · obtain ⟨hcandidate, hconfined⟩ := OrdSet.mem_filter.1 hmem
      obtain ⟨g, hg, rfl⟩ := OrdSet.mem_image.1 hcandidate
      rw [hsame.knownFlow, hsame.view]
      refine ⟨rfl, hconfined, hview.definitionOf_definitionOf g, ?_⟩
      refine (hview.isIntrinsic_definitionOf g).trans ?_
      obtain ⟨fn, hfn, hcand⟩ := (Option.any_eq_true _ _).1 (Store.isCandidate_of_mem hg)
      simp only [Store.isCandidate, Bool.and_eq_true, Bool.not_eq_true'] at hcand
      simp only [Program.isIntrinsic, hfn, Option.any_some]
      exact hcand.1.2
    · exact absurd hmem (OrdSet.not_mem_empty f)

/-- Answers leave out a confined candidate exactly if the call cannot be traced to it, and
never if the function's address travels to the call in sight. -/
theorem Running.mem_resolveIndirect_confined [Hasher] (hp : p.Valid) {options : LayerOptions}
    (hstrategy : strategy.indirect = .pointerFlow options) (ha : strategy.Running p a)
    (hf : f ∈ a.confined) (hsite : p.callSite? c = some site) (hcandidate : f ∈ a.candidates c) :
    (f ∈ (a.resolveIndirect strategy.indirect c).1 ↔
      (∀ u, a.view.ComesFrom site.call.callee u → a.view.brings a.knownFlow u ≠ .unknown) ∧
      ∃ u functions, a.view.ComesFrom site.call.callee u ∧
        a.view.brings a.knownFlow u = .known functions ∧ f ∈ functions) ∧
    (a.view.Travels (Route.inSight a.view f) site.call.callee →
      f ∈ (a.resolveIndirect strategy.indirect c).1) := by
  obtain ⟨hview, hconfined, hself, hintrinsic⟩ := ha.confined hp hf
  have hprogram : a.view.program = p := by rw [hview]; rfl
  rw [← hprogram] at hp hsite hintrinsic
  rw [hstrategy, Analysis.mem_resolveIndirect_iff options hf hsite hcandidate]
  refine ⟨View.exists_trace?_iff hp (hp.hasValue_callee hsite), fun htravels => ?_⟩
  obtain ⟨fn, hfn⟩ := View.function?_of_isConfined hconfined
  exact View.traced_of_travels hp hfn hconfined hself hintrinsic hsite htravels

open Sample in
/-- The address of `f` gets to calls in `signal` and in `main`: to the first one, 11, as the
argument that `signal` is given, then through a slot that holds the declaration of `f`, 16,
through a second address of the variable that `f` initialises, 21, and through a slot that is
only used to call it, 25. -/
def outOfSight : Program :=
  let function (name : String) (t m : Nat) (params : List ValueId) (blocks : List Block)
      (address : Nat) : Function := ⟨name, ⟨t⟩, ⟨m⟩, .external, params, blocks, ⟨address⟩, false⟩
  Program.withUses
    { types := ⟨#[.void, .function 0 [] false, .pointer 1, .pointer 2,
        .function 0 [3] false, .pointer 4, .function 0 [2, 2] false, .pointer 6,
        .pointer 7]⟩
      values := #[value 2 (.function 0), value 2 (.function 1), value 5 (.function 2),
        value 7 (.function 3), value 2 (.function 4), value 3 (.argument 2 0),
        value 2 (.argument 3 0), value 2 (.argument 3 1), value 3 (.global 0),
        value 3 (.global 0), value 8 (.global 1),
        instr 0 3 (.call ⟨7, [], 1, false⟩),
        instr 3 4 (.alloca 2), instr 0 4 (.store 1 12),
        instr 0 4 (.call ⟨2, [12], 4, false⟩), instr 2 4 (.load 12),
        instr 0 4 (.call ⟨15, [], 1, false⟩),
        instr 0 4 (.call ⟨3, [18, 0], 6, false⟩), value 2 (.const .null),
        instr 0 4 (.call ⟨2, [9], 4, false⟩), instr 2 4 (.load 9),
        instr 0 4 (.call ⟨20, [], 1, false⟩),
        instr 3 4 (.alloca 2), instr 0 4 (.store 0 22), instr 2 4 (.load 22),
        instr 0 4 (.call ⟨24, [], 1, false⟩)]
      functions := #[function "f" 1 0 [] [⟨0, []⟩] 0, function "f" 1 1 [] [] 1,
        function "esc" 4 1 [5] [] 2, function "signal" 6 0 [6, 7] [⟨0, [11]⟩] 3,
        function "main" 1 1 [] [⟨0, [12, 13, 14, 15, 16, 17, 19, 20, 21, 22,
          23, 24, 25]⟩] 4]
      globals := #[⟨"g", 1, 2, 8, some 0, .internal, false⟩,
        ⟨"h", 0, 7, 10, some 3, .internal, false⟩]
      modules := #[⟨0, "a", [0, 3], [1], []⟩, ⟨1, "b", [1, 2, 4], [0], []⟩] }

theorem valid_outOfSight : outOfSight.Valid := Program.valid_withUses rfl

def traceFirst : Strategy := ⟨.pointerFlow ⟨10, true⟩, true⟩

attribute [local instance] Hasher.digits

def sightRun : Analysis := (traceFirst.analyze outOfSight).2

theorem running_sightRun : traceFirst.Running outOfSight sightRun :=
  traceFirst.running_analyze outOfSight

theorem same_sightRun : Analysis.SameFacts (traceFirst.ready outOfSight) sightRun :=
  running_sightRun.same_ready valid_outOfSight (List.cons_ne_nil _ _)

theorem view_sightRun : sightRun.view = (View.ofProgram outOfSight).link := same_sightRun.view

def signalFlow : Flow :=
  ⟨((∅ : OrdMap (FunctionId × Nat) ParamFlow).insert (3, 0) .unknown).insert (3, 1) .unknown⟩

theorem flow_outOfSight : Flow.ofView (View.ofProgram outOfSight).link = signalFlow := by cbv

theorem f_mem_confined : 0 ∈ sightRun.confined := by
  rw [same_sightRun.confined]
  refine OrdSet.mem_filter.2 ⟨?_, ?_⟩
  · have h : ((storeOf (View.ofProgram outOfSight).link outOfSight.modules.toList).linkCandidates
        (View.ofProgram outOfSight).link).addressTaken.toList = [0, 3] := by cbv
    rw [← OrdSet.mem_toList]
    exact h ▸ List.mem_cons_self
  · show (View.ofProgram outOfSight).link.isConfined (Flow.ofView _) 0 = true
    rw [flow_outOfSight]
    cbv

/-- A call without arguments, by its place, its function and what it calls. -/
def plainCall (c caller callee : Nat) : CallSite :=
  ⟨⟨c⟩, ⟨caller⟩, ⟨⟨callee⟩, [], 1, false⟩, none⟩

theorem f_mem_candidates {c caller callee : Nat}
    (hsite : outOfSight.callSite? ⟨c⟩ = some (plainCall c caller callee)) :
    0 ∈ sightRun.candidates ⟨c⟩ := by
  have h : (((storeOf (View.ofProgram outOfSight).link outOfSight.modules.toList).linkCandidates
      (View.ofProgram outOfSight).link).withSignature
        ((View.ofProgram outOfSight).link.signature 1)).toList = [0] := by cbv
  rw [Analysis.candidates, same_sightRun.view]
  simp only [show (traceFirst.ready outOfSight).view.program.callSite? ⟨c⟩ = _ from hsite,
    Store.withSignature, same_sightRun.candidates.buckets]
  exact OrdSet.mem_toList.1 (h ▸ List.mem_cons_self)

theorem mem_resolveIndirect_inSight :
    0 ∈ sightRun.confined ∧ 0 ∈ sightRun.candidates 25 ∧
      sightRun.view.Travels (Route.inSight sightRun.view 0) 24 ∧
      0 ∈ (sightRun.resolveIndirect traceFirst.indirect 25).1 := by
  have hsite : outOfSight.callSite? 25 = some (plainCall 25 4 24) := rfl
  have hstore : outOfSight.store? 23 = some (0, 22) := rfl
  have hload : outOfSight.load? 24 = some 22 := rfl
  have htravels : sightRun.view.Travels (Route.inSight sightRun.view 0) 24 := by
    have hf : (outOfSight.function? 0).map Function.value = some 0 := by cbv
    obtain ⟨fn, hfn, hvalue⟩ := Option.map_eq_some_iff.1 hf
    rw [view_sightRun]
    exact .load (.start ⟨fn, hfn, hvalue.symm⟩) hstore hload
  have hcandidate := f_mem_candidates hsite
  exact ⟨f_mem_confined, hcandidate, htravels, (running_sightRun.mem_resolveIndirect_confined
    valid_outOfSight rfl f_mem_confined hsite hcandidate).2 htravels⟩

/-- `f` is confined and gets to three calls that do not find it. -/
theorem not_mem_resolveIndirect_outOfSight :
    outOfSight.Valid ∧ 0 ∈ sightRun.confined ∧
      ∀ c ∈ [11, 16, 21], ∃ site, outOfSight.callSite? c = some site ∧
        Dispatch.isVirtual outOfSight site.call = false ∧ 0 ∈ sightRun.candidates c ∧
        sightRun.view.Travels (Route.every sightRun.view 0) site.call.callee ∧
        0 ∉ (sightRun.resolveIndirect traceFirst.indirect c).1 := by
  have hlost {c caller callee : Nat}
      (hsite : outOfSight.callSite? ⟨c⟩ = some (plainCall c caller callee))
      (htrace : (View.ofProgram outOfSight).link.trace? signalFlow ⟨callee⟩ = none) :
      0 ∉ (sightRun.resolveIndirect traceFirst.indirect ⟨c⟩).1 := by
    rw [traceFirst, Analysis.mem_resolveIndirect_iff _ f_mem_confined
      (by rw [view_sightRun]; exact hsite) (f_mem_candidates hsite)]
    rintro ⟨t, ht, -⟩
    rw [view_sightRun, same_sightRun.knownFlow.trans flow_outOfSight] at ht
    cases ht.symm.trans htrace
  have haddress (v f : Nat) (hkind : (outOfSight.value? ⟨v⟩).map Value.kind = some (.function ⟨f⟩))
      (hdefinition : (View.ofProgram outOfSight).link.definitionOf ⟨f⟩ = 0) :
      sightRun.view.Travels (Route.every sightRun.view 0) ⟨v⟩ := by
    rw [view_sightRun]
    exact .start ⟨⟨f⟩, hkind, hdefinition⟩
  have hown := haddress 0 0 rfl (by cbv)
  rw [view_sightRun] at haddress hown ⊢
  refine ⟨valid_outOfSight, f_mem_confined, fun c hc => ?_⟩
  simp only [List.mem_cons, List.not_mem_nil, or_false] at hc
  rcases hc with rfl | rfl | rfl
  · have hsite : outOfSight.callSite? 11 = some (plainCall 11 3 7) := rfl
    refine ⟨_, hsite, rfl, f_mem_candidates hsite, ?_, hlost hsite (by cbv)⟩
    have hpass : outOfSight.callSite? 17 =
      some ⟨17, 4, ⟨3, [18, 0], 6, false⟩, none⟩ := rfl
    have htarget : (View.ofProgram outOfSight).link.directTarget? 3 = some 3 := by cbv
    have hparams : (outOfSight.function? 3).map Function.params = some [6, 7] := by cbv
    obtain ⟨fn, hfn, hparams⟩ := Option.map_eq_some_iff.1 hparams
    refine .argument hown hpass htarget (show _ = some _ from rfl)
      trivial hfn (?_ : fn.params[1]? = _)
    rw [hparams]
    rfl
  · have hsite : outOfSight.callSite? 16 = some (plainCall 16 4 15) := rfl
    refine ⟨_, hsite, rfl, f_mem_candidates hsite, ?_, hlost hsite (by cbv)⟩
    have hstore : outOfSight.store? 13 = some (1, 12) := rfl
    have hload : outOfSight.load? 15 = some 12 := rfl
    exact .load (haddress 1 1 rfl (by cbv)) hstore hload
  · have hsite : outOfSight.callSite? 21 = some (plainCall 21 4 20) := rfl
    refine ⟨_, hsite, rfl, f_mem_candidates hsite, ?_, hlost hsite (by cbv)⟩
    have hinit : (outOfSight.global? 0).map Global.init = some (some 0) := rfl
    have hload : outOfSight.load? 20 = some 9 := rfl
    have hptr : (outOfSight.value? 9).map Value.kind = some (.global 0) := rfl
    obtain ⟨g, hg, hinit⟩ := Option.map_eq_some_iff.1 hinit
    exact .init hown hg hinit hptr hload

end Strategy

end CallTargets
