import CallTargets.Proofs.Flow.Trace
import CallTargets.Proofs.View
import Mathlib

/-!
# Traces and definitions

The definitions of a pointer are told by rules (`View.Origin`), one for each way in which a value
gets to be another one, and the values about which nothing can be told by others
(`View.OutOfSight`). A slot counts as private by the values that have it as an operand and
the variables that it initialises (`Program.IsPrivate`), not by what is kept about its uses.

A trace is exact reachability over these rules (`View.trace?_exact`).
-/

namespace CallTargets

open Relation

/-! ## Private slots -/

namespace Program

variable {p : Program} {slot v w : ValueId}

/-- A variable that is loaded from and stored into, and nothing else: it is not stored itself,
and no other variable begins with its address. -/
structure IsPrivate (p : Program) (slot : ValueId) : Prop where
  isSlot : p.isSlot slot = true
  used : ∀ u, slot ∈ p.operands u → p.opcode? u = some (.load slot) ∨
    ∃ w, w ≠ slot ∧ p.opcode? u = some (.store w slot)
  init : ∀ g ∈ p.globals, g.init ≠ some slot

theorem hasValue_of_isSlot (h : p.isSlot slot = true) : p.HasValue slot := by
  cases hval : p.value? slot with
  | none => simp [isSlot, hval] at h
  | some val => exact hasValue_of_eq_some hval

theorem isPrivateUse_iff {u : ValueId} (hu : slot ∈ p.operands u) :
    p.isPrivateUse slot u = true ↔ p.opcode? u = some (.load slot) ∨
      ∃ w, w ≠ slot ∧ p.opcode? u = some (.store w slot) := by
  unfold isPrivateUse
  split
  · rename_i ptr hop
    rw [operands_of_opcode hop] at hu
    obtain rfl : slot = ptr := List.mem_singleton.1 hu
    exact iff_of_true rfl (.inl hop)
  · rename_i value ptr hop
    simp [hop, and_comm]
  · rename_i hload hstore
    refine iff_of_false Bool.false_ne_true ?_
    rintro (hop | ⟨w, -, hop⟩)
    · exact hload _ hop
    · exact hstore _ _ hop

theorem Valid.opcode?_global (hp : p.Valid) {g : Global} (hg : g ∈ p.globals) :
    p.opcode? g.value = none := by
  obtain ⟨i, hi, rfl⟩ := Array.mem_iff_getElem.1 hg
  have hok := hp.records.global (i := ⟨i⟩) (Array.getElem?_eq_getElem hi)
  exact opcode?_eq_none (global?_bind_eq_some_iff.1 hok.value) fun _ h => by cases h

theorem Valid.all_isPrivateUse_iff (hp : p.Valid) (hslot : p.HasValue slot) :
    (p.usersOf slot).all (p.isPrivateUse slot) = true ↔
      (∀ u, slot ∈ p.operands u → p.isPrivateUse slot u = true) ∧
        ∀ g ∈ p.globals, g.init ≠ some slot := by
  rw [List.all_eq_true]
  constructor
  · intro hall
    refine ⟨fun u hu => hall u (hp.mem_usersOf.2 ⟨hslot, .inl hu⟩), fun g hg hinit => ?_⟩
    have huse := hall g.value (hp.mem_usersOf.2 ⟨hslot, .inr ⟨g, hg, hinit, rfl⟩⟩)
    simp [isPrivateUse, hp.opcode?_global hg] at huse
  · rintro ⟨hused, hinit⟩ u hu
    obtain ⟨-, hop | ⟨g, hg, hslot, -⟩⟩ := hp.mem_usersOf.1 hu
    · exact hused u hop
    · exact absurd hslot (hinit g hg)

theorem Valid.isPrivate_iff (hp : p.Valid) :
    p.IsPrivate slot ↔ (p.privateStores? slot).isSome = true := by
  have hsome : (p.privateStores? slot).isSome = true ↔
      p.isSlot slot = true ∧ (p.usersOf slot).all (p.isPrivateUse slot) = true := by
    unfold privateStores?
    split <;> simp_all
  rw [hsome]
  constructor
  · rintro ⟨hslot, hused, hinit⟩
    refine ⟨hslot, (hp.all_isPrivateUse_iff (hasValue_of_isSlot hslot)).2 ⟨fun u hu => ?_, hinit⟩⟩
    exact (isPrivateUse_iff hu).2 (hused u hu)
  · rintro ⟨hslot, hall⟩
    obtain ⟨hused, hinit⟩ := (hp.all_isPrivateUse_iff (hasValue_of_isSlot hslot)).1 hall
    exact ⟨hslot, fun u hu => (isPrivateUse_iff hu).1 (hused u hu), hinit⟩

theorem initOf?_eq_some_iff : p.initOf? v = some w ↔
    ∃ g global, (p.value? v).map Value.kind = some (.global g) ∧ p.global? g = some global ∧
      global.init = some w := by
  simp only [initOf?, Option.bind_eq_some_iff]
  constructor
  · rintro ⟨global, ⟨g, hg, hglobal⟩, hinit⟩
    exact ⟨g, global, global?_bind_eq_some_iff.1 (Option.bind_eq_some_iff.2 hg), hglobal, hinit⟩
  · rintro ⟨g, global, hg, hglobal, hinit⟩
    exact ⟨global, ⟨g, Option.bind_eq_some_iff.1 (global?_bind_eq_some_iff.2 hg), hglobal⟩, hinit⟩

theorem Valid.mem_heldIn (hp : p.Valid) : w ∈ p.heldIn slot ↔ p.IsPrivate slot ∧
    ((∃ store, p.opcode? store = some (.store w slot)) ∨ p.initOf? slot = some w) := by
  unfold heldIn
  cases hstores : p.privateStores? slot with
  | none =>
    refine iff_of_false List.not_mem_nil fun h => ?_
    simpa [hstores] using hp.isPrivate_iff.1 h.1
  | some stores =>
    have hprivate : p.IsPrivate slot := hp.isPrivate_iff.2 (by rw [hstores]; rfl)
    have hvalue := hasValue_of_isSlot hprivate.isSlot
    -- the stores are the users of the slot that store
    have hstored : (∃ store ∈ stores, (p.store? store).map Prod.fst = some w) ↔
        ∃ store, p.opcode? store = some (.store w slot) := by
      have heq : (p.usersOf slot).filter (fun u => (p.store? u).isSome) = stores := by
        unfold privateStores? at hstores
        split at hstores
        · exact Option.some.inj hstores
        · cases hstores
      constructor
      · rintro ⟨store, hmem, hw⟩
        obtain ⟨⟨value, ptr⟩, hstore, rfl⟩ := Option.map_eq_some_iff.1 hw
        have hop := opcode?_of_store? hstore
        rw [← heq, List.mem_filter] at hmem
        obtain ⟨-, huse | ⟨g, hg, hinit, -⟩⟩ := hp.mem_usersOf.1 hmem.1
        · rcases hprivate.used store huse with hload | ⟨w, -, hstore'⟩
          · cases hop.symm.trans hload
          · cases hop.symm.trans hstore'
            exact ⟨store, hop⟩
        · exact absurd hinit (hprivate.init g hg)
      · rintro ⟨store, hop⟩
        have hstore : p.store? store = some (w, slot) := by rw [store?, hop]
        have huse : slot ∈ p.operands store := by
          rw [operands_of_opcode hop]
          exact List.mem_cons_of_mem w List.mem_cons_self
        refine ⟨store, ?_, by rw [hstore]; rfl⟩
        rw [← heq, List.mem_filter, hstore]
        exact ⟨hp.mem_usersOf.2 ⟨hvalue, .inl huse⟩, rfl⟩
    rw [List.mem_append, List.mem_filterMap, hstored, Option.mem_toList]
    exact (and_iff_right hprivate).symm

theorem mem_returned {f : FunctionId} : w ∈ p.returned f ↔
    ∃ ret ∈ p.instructionsOf f, p.opcode? ret = some (.ret (some w)) := by
  unfold returned
  rw [List.mem_filterMap]
  refine exists_congr fun ret => and_congr_right fun _ => ?_
  split
  · rename_i value hop
    simp [hop]
  · rename_i hother
    exact iff_of_false (fun h => by cases h) (hother _)

end Program

/-! ## Definitions of a pointer -/

/-- Values of the kind tell what they may point to, or where to look for it. -/
def ValueKind.isTraceable : ValueKind → Bool
  | .argument .. | .function _ | .const .null | .const .undef => true
  | .const (.cast op _) => op.keepsPointer
  | .instr i =>
    match i.opcode with
    | .cast op _ => op.keepsPointer
    | .phi _ | .select .. | .load _ | .call _ => true
    | _ => false
  | _ => false

namespace View

variable {view : View} {flow : Flow} {u v w : ValueId} {f : FunctionId}

inductive Origin (view : View) : ValueId → ValueId → Prop where
  | cast {v w : ValueId} {op : CastOp} (hcast : view.program.cast? v = some (op, w))
      (hop : op.keepsPointer = true) : Origin view v w
  | phi {v w : ValueId} {incoming : List ValueId}
      (hphi : view.program.opcode? v = some (.phi incoming)) (hw : w ∈ incoming) : Origin view v w
  | ifTrue {v w condition other : ValueId}
      (hselect : view.program.opcode? v = some (.select condition w other)) : Origin view v w
  | ifFalse {v w condition other : ValueId}
      (hselect : view.program.opcode? v = some (.select condition other w)) : Origin view v w
  | stored {v w ptr store : ValueId} (hload : view.program.opcode? v = some (.load ptr))
      (hprivate : view.program.IsPrivate (view.program.strip ptr))
      (hstore : view.program.opcode? store = some (.store w (view.program.strip ptr))) :
      Origin view v w
  | init {v w ptr : ValueId} {g : GlobalId} {global : Global}
      (hload : view.program.opcode? v = some (.load ptr))
      (hprivate : view.program.IsPrivate (view.program.strip ptr))
      (hslot : (view.program.value? (view.program.strip ptr)).map Value.kind = some (.global g))
      (hglobal : view.program.global? g = some global) (hinit : global.init = some w) :
      Origin view v w
  | returned {v w ret : ValueId} {c : Call} {f : FunctionId}
      (hcall : view.program.opcode? v = some (.call c))
      (hbase : view.program.baseFunction? c.callee = some f)
      (hbody : view.program.isDeclaration (view.definitionOf f) = false)
      (hmem : ret ∈ view.program.instructionsOf (view.definitionOf f))
      (hret : view.program.opcode? ret = some (.ret (some w))) : Origin view v w

/-- Nothing in the program tells what the pointer is. -/
inductive OutOfSight (view : View) (flow : Flow) : ValueId → Prop where
  | argument {v : ValueId} {f : FunctionId} {place : Nat}
      (hkind : (view.program.value? v).map Value.kind = some (.argument f place))
      (hflow : ∀ fs, flow.params.get? (f, place) ≠ some (.known fs)) : OutOfSight view flow v
  | load {v ptr : ValueId} (hload : view.program.opcode? v = some (.load ptr))
      (hprivate : ¬ view.program.IsPrivate (view.program.strip ptr)) : OutOfSight view flow v
  | call {v : ValueId} {c : Call} (hcall : view.program.opcode? v = some (.call c))
      (hbody : ∀ f, view.program.baseFunction? c.callee = some f →
        view.program.isDeclaration (view.definitionOf f) = true) : OutOfSight view flow v
  | other {v : ValueId} {k : ValueKind}
      (hkind : (view.program.value? v).map Value.kind = some k) (hk : k.isTraceable = false) :
      OutOfSight view flow v

/-- The value itself is the address of a function, or of those that are passed. -/
inductive Yields (view : View) (flow : Flow) : ValueId → FunctionId → Prop where
  | function {v : ValueId} {f : FunctionId}
      (hkind : (view.program.value? v).map Value.kind = some (.function f))
      (hintrinsic : view.program.isIntrinsic f = false) :
      Yields view flow v (view.definitionOf f)
  | argument {v : ValueId} {f : FunctionId} {place : Nat} {fs : OrdSet FunctionId} {g : FunctionId}
      (hkind : (view.program.value? v).map Value.kind = some (.argument f place))
      (hflow : flow.params.get? (f, place) = some (.known fs)) (hg : g ∈ fs) :
      Yields view flow v g

/-! ## Rules and steps -/

theorem directTarget?_eq_some_iff {callee : ValueId} : view.directTarget? callee = some f ↔
    ∃ g, view.program.baseFunction? callee = some g ∧ view.definitionOf g = f ∧
      view.program.isDeclaration f = false := by
  rw [directTarget?, Option.filter_eq_some_iff, Option.map_eq_some_iff, Bool.not_eq_true',
    ← exists_and_right]
  simp only [and_assoc]

theorem origin_iff (hp : view.program.Valid) : view.Origin v w ↔ w ∈ view.origins v := by
  constructor
  · intro h
    cases h with
    | cast hcast hop =>
      rcases Program.cast?_eq_some_iff.1 hcast with hkind | hcast
      · simp [origins, hkind, hop]
      · obtain ⟨i, hkind, hi⟩ := Program.opcode?_eq_some_iff.1 hcast
        simp [origins, hkind, hi, hop]
    | phi hphi hw =>
      obtain ⟨i, hkind, hi⟩ := Program.opcode?_eq_some_iff.1 hphi
      simpa [origins, hkind, hi] using hw
    | ifTrue hselect =>
      obtain ⟨i, hkind, hi⟩ := Program.opcode?_eq_some_iff.1 hselect
      simp [origins, hkind, hi]
    | ifFalse hselect =>
      obtain ⟨i, hkind, hi⟩ := Program.opcode?_eq_some_iff.1 hselect
      simp [origins, hkind, hi]
    | stored hload hprivate hstore =>
      obtain ⟨i, hkind, hi⟩ := Program.opcode?_eq_some_iff.1 hload
      simpa [origins, hkind, hi] using hp.mem_heldIn.2 ⟨hprivate, .inl ⟨_, hstore⟩⟩
    | init hload hprivate hslot hglobal hinit =>
      obtain ⟨i, hkind, hi⟩ := Program.opcode?_eq_some_iff.1 hload
      have hheld := Program.initOf?_eq_some_iff.2 ⟨_, _, hslot, hglobal, hinit⟩
      simpa [origins, hkind, hi] using hp.mem_heldIn.2 ⟨hprivate, .inr hheld⟩
    | returned hcall hbase hbody hmem hret =>
      obtain ⟨i, hkind, hi⟩ := Program.opcode?_eq_some_iff.1 hcall
      have htarget := directTarget?_eq_some_iff.2 ⟨_, hbase, rfl, hbody⟩
      simpa [origins, hkind, hi, htarget] using Program.mem_returned.2 ⟨_, hmem, hret⟩
  · intro hw
    unfold origins at hw
    dsimp only at hw
    split at hw
    · rename_i op operand hkind
      split at hw
      · rename_i hop
        obtain rfl := List.mem_singleton.1 hw
        exact .cast (Program.cast?_eq_some_iff.2 (.inl hkind)) hop
      · cases hw
    · rename_i i hkind
      have hopcode {op : Opcode} (h : i.opcode = op) : view.program.opcode? v = some op :=
        Program.opcode?_eq_some_iff.2 ⟨i, hkind, h⟩
      split at hw
      · rename_i op operand hi
        split at hw
        · rename_i hop
          obtain rfl := List.mem_singleton.1 hw
          exact .cast (Program.cast?_eq_some_iff.2 (.inr (hopcode hi))) hop
        · cases hw
      · rename_i incoming hi
        exact .phi (hopcode hi) hw
      · rename_i condition ifTrue ifFalse hi
        rcases List.mem_cons.1 hw with rfl | hw
        · exact .ifTrue (hopcode hi)
        · obtain rfl := List.mem_singleton.1 hw
          exact .ifFalse (hopcode hi)
      · rename_i ptr hi
        obtain ⟨hprivate, ⟨store, hstore⟩ | hinit⟩ := hp.mem_heldIn.1 hw
        · exact .stored (hopcode hi) hprivate hstore
        · obtain ⟨g, global, hslot, hglobal, hinit⟩ := Program.initOf?_eq_some_iff.1 hinit
          exact .init (hopcode hi) hprivate hslot hglobal hinit
      · rename_i c hi
        cases htarget : view.directTarget? c.callee with
        | none => simp [htarget] at hw
        | some f =>
          obtain ⟨g, hbase, rfl, hbody⟩ := directTarget?_eq_some_iff.1 htarget
          obtain ⟨ret, hmem, hret⟩ := Program.mem_returned.1 (by simpa [htarget] using hw)
          exact .returned (hopcode hi) hbase hbody hmem hret
      · cases hw
    · cases hw

theorem comesFrom_iff (hp : view.program.Valid) :
    ReflTransGen view.Origin v u ↔ view.ComesFrom v u := by
  have hstep : view.Origin = Search.Leads view.origins := by
    ext v w
    exact origin_iff hp
  rw [ComesFrom, hstep]

theorem directTarget?_eq_none_iff {callee : ValueId} : view.directTarget? callee = none ↔
    ∀ f, view.program.baseFunction? callee = some f →
      view.program.isDeclaration (view.definitionOf f) = true := by
  rw [Option.eq_none_iff_forall_ne_some]
  constructor
  · intro hnone f hbase
    by_contra hbody
    exact hnone _ (directTarget?_eq_some_iff.2 ⟨f, hbase, rfl, Bool.eq_false_iff.2 hbody⟩)
  · rintro hdeclared f hf
    obtain ⟨g, hbase, rfl, hbody⟩ := directTarget?_eq_some_iff.1 hf
    rw [hdeclared g hbase] at hbody
    cases hbody

theorem brings_of_not_isTraceable {k : ValueKind}
    (hkind : (view.program.value? v).map Value.kind = some k) (hk : k.isTraceable = false) :
    view.brings flow v = .unknown := by
  cases k with
  | argument | function => cases hk
  | global => simp only [brings, hkind]
  | const c =>
    cases c with
    | null | undef => cases hk
    | cast op operand =>
      rw [ValueKind.isTraceable] at hk
      simp [brings, hkind, hk]
    | _ => simp only [brings, hkind]
  | instr i =>
    cases hi : i.opcode with
    | phi | select | load | call => simp [ValueKind.isTraceable, hi] at hk
    | cast op operand =>
      simp only [ValueKind.isTraceable, hi] at hk
      simp [brings, hkind, hi, hk]
    | _ => simp only [brings, hkind, hi]

theorem outOfSight_iff (hp : view.program.Valid) (hv : view.program.HasValue v) :
    view.OutOfSight flow v ↔ view.brings flow v = .unknown := by
  constructor
  · intro h
    cases h with
    | argument hkind hflow =>
      rename_i f place
      simp only [brings, hkind]
      cases hget : flow.params.get? (f, place) with
      | none => rfl
      | some a =>
        cases a with
        | unknown => rfl
        | known fs => exact absurd hget (hflow fs)
    | load hload hprivate =>
      obtain ⟨i, hkind, hi⟩ := Program.opcode?_eq_some_iff.1 hload
      rw [hp.isPrivate_iff] at hprivate
      simp only [brings, hkind, hi]
      exact if_neg hprivate
    | call hcall hbody =>
      obtain ⟨i, hkind, hi⟩ := Program.opcode?_eq_some_iff.1 hcall
      simp [brings, hkind, hi, directTarget?_eq_none_iff.2 hbody]
    | other hkind hk => exact brings_of_not_isTraceable hkind hk
  · intro h
    obtain ⟨val, hval⟩ := Program.exists_value hv
    have hkind : (view.program.value? v).map Value.kind = some val.kind := by rw [hval]; rfl
    by_cases hk : val.kind.isTraceable = false
    · exact .other hkind hk
    generalize val.kind = k at hkind hk
    cases k with
    | argument f place =>
      refine .argument hkind fun fs hfs => ?_
      simp [brings, hkind, hfs] at h
    | function f => simp [brings, hkind] at h
    | global g => exact absurd rfl hk
    | const c =>
      cases c with
      | null | undef => simp [brings, hkind] at h
      | cast op operand =>
        have hop : op.keepsPointer = true := Bool.eq_true_of_not_eq_false hk
        simp [brings, hkind, hop] at h
      | _ => exact absurd rfl hk
    | instr i =>
      have hopcode {op : Opcode} (h : i.opcode = op) : view.program.opcode? v = some op :=
        Program.opcode?_eq_some_iff.2 ⟨i, hkind, h⟩
      cases hi : i.opcode with
      | load ptr =>
        refine .load (hopcode hi) fun hprivate => ?_
        rw [hp.isPrivate_iff] at hprivate
        simp [brings, hkind, hi, hprivate] at h
      | call c =>
        refine .call (hopcode hi) (directTarget?_eq_none_iff.1 ?_)
        cases htarget : view.directTarget? c.callee with
        | none => rfl
        | some f => simp [brings, hkind, hi, htarget] at h
      | phi | select => simp [brings, hkind, hi] at h
      | cast op operand =>
        have hop : op.keepsPointer = true := by simpa [ValueKind.isTraceable, hi] using hk
        simp [brings, hkind, hi, hop] at h
      | _ => exact absurd (by simp [ValueKind.isTraceable, hi]) hk

theorem yields_iff : view.Yields flow v f ↔
    ∃ fs, view.brings flow v = .known fs ∧ f ∈ fs := by
  constructor
  · intro h
    cases h with
    | function hkind hintrinsic =>
      rename_i g
      exact ⟨.ofList [view.definitionOf g], by simp [brings, hkind, hintrinsic], by simp⟩
    | argument hkind hflow hg => exact ⟨_, by simp [brings, hkind, hflow], hg⟩
  · rintro ⟨fs, hbrings, hf⟩
    rcases mem_of_brings hbrings hf with ⟨g, hkind, hintrinsic, rfl⟩ | ⟨g, place, hkind, hflow⟩
    · exact .function hkind hintrinsic
    · exact .argument hkind hflow hf

/-! ## Traces are exact -/

/-- **A trace is exact.** It fails if and only if some definition of the pointer, over any number
of steps, is out of sight. If it does not, it finds the functions that these definitions yield and
no other one. -/
theorem trace?_exact (hp : view.program.Valid) (hv : view.program.HasValue v) (flow : Flow) :
    (view.trace? flow v = none ↔ ∃ u, ReflTransGen view.Origin v u ∧ view.OutOfSight flow u) ∧
      ∀ trace, view.trace? flow v = some trace → ∀ f, f ∈ trace.functions ↔
        ∃ u, ReflTransGen view.Origin v u ∧ view.Yields flow u f := by
  simp only [comesFrom_iff hp, yields_iff]
  constructor
  · constructor
    · intro hnone
      obtain ⟨u, hu, hunknown⟩ := exists_unknown_of_trace? hnone
      exact ⟨u, hu, (outOfSight_iff hp (ComesFrom.hasValue hp hv hu)).2 hunknown⟩
    · rintro ⟨u, hu, hsight⟩
      have hunknown := (outOfSight_iff hp (ComesFrom.hasValue hp hv hu)).1 hsight
      cases htrace : view.trace? flow v with
      | none => rfl
      | some trace =>
        have hle := brings_le_of_trace? hp hv htrace hu
        rw [hunknown] at hle
        exact absurd hle (ParamFlow.not_unknown_le_known _)
  · intro trace htrace f
    constructor
    · intro hf
      obtain ⟨u, fs, hu, hbrings, hmem⟩ := mem_functions_of_trace? htrace hf
      exact ⟨u, hu, fs, hbrings, hmem⟩
    · rintro ⟨u, hu, fs, hbrings, hmem⟩
      have hle := brings_le_of_trace? hp hv htrace hu
      rw [hbrings] at hle
      exact hle f hmem

open Sample in
/-- `pick` returns what it loads from a variable, or what it is returned by itself. The variable
begins with `f`, and `main` stores itself there, calls `pick`, and calls what that returns. -/
def pickedAgain : Program :=
  let function (name : String) (t : Nat) (body : List ValueId) (address : Nat) : Function :=
    ⟨name, ⟨t⟩, 0, .internal, [], [⟨0, body⟩], ⟨address⟩, false⟩
  Program.withUses
    { types := ⟨#[.void, .function 0 [] false, .pointer 1, .function 2 [] false, .pointer 3,
        .pointer 2]⟩
      values := #[value 5 (.global 0), value 2 (.function 0), value 4 (.function 1),
        value 2 (.function 2), instr 2 1 (.load 0), instr 2 1 (.call ⟨2, [], 3, false⟩),
        instr 2 1 (.phi [4, 5, 6]), instr 0 1 (.ret (some 6)), instr 0 2 (.store 3 0),
        instr 2 2 (.call ⟨2, [], 3, false⟩), instr 0 2 (.call ⟨9, [], 1, false⟩),
        instr 2 2 (.phi [9, 10])]
      functions := #[function "f" 1 [] 1, function "pick" 3 [4, 5, 6, 7] 2,
        function "main" 1 [8, 9, 10, 11] 3]
      globals := #[⟨"slot", 0, 2, 0, some 1, .internal, false⟩]
      modules := #[⟨0, "m", [0, 1, 2], [0], []⟩] }

attribute [local instance] Hasher.digits

/-- What `main` is returned is traced through the recursion to `main` and `f`. Nothing tells what
is returned by the call through it. -/
theorem trace?_exact_pickedAgain :
    pickedAgain.Valid ∧
      (∃ trace, (View.ofProgram pickedAgain).link.trace? {} 9 = some trace ∧
        trace.functions.toList = [0, 2] ∧ ∀ f, f ∈ trace.functions ↔
          ∃ u, ReflTransGen (View.ofProgram pickedAgain).link.Origin 9 u ∧
            (View.ofProgram pickedAgain).link.Yields {} u f) ∧
      (View.ofProgram pickedAgain).link.trace? {} 11 = none ∧
      ∃ u, ReflTransGen (View.ofProgram pickedAgain).link.Origin 11 u ∧
        (View.ofProgram pickedAgain).link.OutOfSight {} u := by
  have hvalid : pickedAgain.Valid := Program.valid_withUses rfl
  have hvalue (n : Nat) (hn : n < 12) : pickedAgain.HasValue ⟨n⟩ := hn
  have hsome : ((View.ofProgram pickedAgain).link.trace? {} 9).map (·.functions.toList) =
      some [0, 2] := by cbv
  have hnone : (View.ofProgram pickedAgain).link.trace? {} 11 = none := by cbv
  obtain ⟨trace, htrace, hfunctions⟩ := Option.map_eq_some_iff.1 hsome
  refine ⟨hvalid, ⟨trace, htrace, hfunctions, ?_⟩, hnone, ?_⟩
  · exact (trace?_exact hvalid (hvalue 9 (by decide)) {}).2 trace htrace
  · exact (trace?_exact hvalid (hvalue 11 (by decide)) {}).1.1 hnone

end View

end CallTargets
