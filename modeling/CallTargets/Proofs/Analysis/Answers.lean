import CallTargets.Proofs.Analysis.Range
import CallTargets.Proofs.Analysis.Relations
import CallTargets.Proofs.Layer.Stored

/-!
# Answers

A run keeps what layers were found to match, for the calls to come, but the answer to a call
depends on what was prepared and on nothing else (`Settled.sameCalls_visit`). So all that a run
records are the answers of the prepared run, call by call (`Running.steps`). The relations between
calls and functions stay in line, and once all calls are answered (`answered_of_base_eq_none`), no
further visit changes them (`Settled.sameCalls_foldl`).
-/

namespace CallTargets

open Relation

/-! ## Runs that know the same -/

namespace Analysis

namespace SameFacts

variable {a b : Analysis} (h : SameFacts a b) (v : ValueId)
include h

theorem traced_eq : b.traced v = a.traced v := by
  unfold Analysis.traced
  simp only [h.view, h.knownFlow, h.sameLayers.candidates_eq]

theorem resolveVirtual_eq (strategy : Strategy) :
    b.resolveVirtual strategy v = a.resolveVirtual strategy v := by
  unfold Analysis.resolveVirtual
  rw [h.view, h.hierarchy]

variable (ha : a.Recalls) (hb : b.Recalls)
include ha hb

theorem resolveIndirect_eq (indirect : Indirect) :
    (b.resolveIndirect indirect v).1 = (a.resolveIndirect indirect v).1 := by
  cases indirect with
  | signature => exact h.sameLayers.candidates_eq v
  | layers options => exact h.sameLayers.targets_refine_eq ha hb options v
  | pointerFlow options =>
    have hconfined : (b.refine options v).2.confined = (a.refine options v).2.confined := by
      rw [(refine options b v).confined, (refine options a v).confined, h.confined]
    simp only [Analysis.resolveIndirect, h.traced_eq, h.sameLayers.targets_refine_eq ha hb,
      hconfined]
    split
    · rfl
    · rfl

end SameFacts

/-! ## Visits as steps -/

theorem sameCalls_count (a : Analysis) (change : Stats → Stats) :
    Store.SameCalls a.store (a.modifyStore (·.count change)).store := .count a.store change

theorem sameCalls_record (a : Analysis) (site : CallSite) (caller : FunctionId)
    (targets : OrdSet FunctionId) :
    Store.SameCalls (a.store.addCall site.id caller targets.toList)
      (a.record site caller targets).store := by
  unfold record
  dsimp only
  split
  · exact .refl _
  · exact sameCalls_count (a.modifyStore (·.addCall site.id caller targets.toList)) _

theorem sameCalls_refine (options : LayerOptions) (a : Analysis) (v : ValueId) :
    Store.SameCalls a.store (a.refine options v).2.store := by
  rw [Analysis.refine]
  unfold countRefined
  dsimp only
  split
  · exact .refl _
  · split
    · exact sameCalls_count { a with kept := _ } _
    · exact sameCalls_count { a with kept := _ } _

theorem sameCalls_resolveIndirect (indirect : Indirect) (a : Analysis) (v : ValueId) :
    Store.SameCalls a.store (a.resolveIndirect indirect v).2.store := by
  cases indirect with
  | signature => exact .refl _
  | layers options => exact sameCalls_refine options a v
  | pointerFlow options =>
    simp only [resolveIndirect]
    split
    · exact sameCalls_refine options a v
    · unfold noteSimple
      split
      · exact .refl _
      · exact sameCalls_count { a with simpleCalls := _ } _

def visit (strategy : Strategy) (a : Analysis) (site : CallSite) : Analysis :=
  a.visitCall strategy site.caller site

end Analysis

namespace Strategy

variable {strategy : Strategy} {p : Program} {a : Analysis} {f : FunctionId} {site : CallSite}

section Runs

variable [Hasher]

/-- What a call may reach, going by what is prepared. -/
def answer (strategy : Strategy) (p : Program) (site : CallSite) : OrdSet FunctionId :=
  let a := strategy.prepared p
  match p.baseFunction? site.call.callee with
  | some callee => .ofList [a.view.definitionOf callee]
  | none =>
    if Dispatch.isVirtual p site.call then a.resolveVirtual strategy site.id
    else (a.resolveIndirect strategy.indirect site.id).1

/-- A run knows what was prepared, and what it keeps is part of that. -/
structure Settled (strategy : Strategy) (p : Program) (a : Analysis) : Prop where
  same : Analysis.SameFacts (strategy.prepared p) a
  recalls : a.Recalls

theorem Running.settled (ha : strategy.Running p a) : strategy.Settled p a := ⟨ha.same, ha.recalls⟩

namespace Settled

theorem modifyStore {change : Store → Store} (hsame : Store.SameCandidates a.store (change a.store))
    (ha : strategy.Settled p a) : strategy.Settled p (a.modifyStore change) :=
  ⟨ha.same.trans (.modifyStore hsame), ha.recalls⟩

theorem resolveIndirect (v : ValueId) (ha : strategy.Settled p a) :
    strategy.Settled p (a.resolveIndirect strategy.indirect v).2 :=
  ⟨ha.same.trans (.resolveIndirect strategy.indirect a v), ha.recalls.resolveIndirect _ v⟩

section Visits

variable (ha : strategy.Settled p a)
include ha

theorem program : a.view.program = p := by
  rw [ha.same.view]
  exact Running.prepared.program

theorem visit (site : CallSite) : strategy.Settled p (a.visit strategy site) :=
  Analysis.keeps_visitCall modifyStore resolveIndirect site.caller site ha

theorem visitFunction (f : FunctionId) : strategy.Settled p (a.visitFunction strategy f) :=
  Analysis.keeps_visitFunction modifyStore resolveIndirect f ha

theorem run (m : ModuleId) : strategy.Settled p (a.run strategy m) :=
  Analysis.keeps_run modifyStore resolveIndirect m ha

theorem sameCalls_visit (hbase : p.baseFunction? site.call.callee = none) :
    Store.SameCalls (a.store.answerCall p site.caller site (strategy.answer p site))
      (a.visit strategy site).store := by
  simp only [Analysis.visit, Analysis.visitCall, answer, Store.answerCall, Store.noteCall,
    ha.program, hbase, Option.isSome_none, Bool.false_eq_true, if_false]
  split
  · have hnoted : strategy.Settled p (a.noteVirtual site.id) := ha.modifyStore ⟨rfl, rfl⟩
    rw [hnoted.same.resolveVirtual_eq]
    refine .trans (.addCall ?_ _ _ _) (Analysis.sameCalls_record _ _ _ _)
    exact ⟨rfl, rfl, rfl, rfl, rfl, rfl⟩
  · have hnoted : strategy.Settled p (a.noteIndirect site.id) := ha.modifyStore ⟨rfl, rfl⟩
    rw [hnoted.same.resolveIndirect_eq _ Running.prepared.recalls hnoted.recalls]
    refine .trans (.addCall ?_ _ _ _) (Analysis.sameCalls_record _ _ _ _)
    exact Analysis.sameCalls_resolveIndirect strategy.indirect (a.noteIndirect site.id) site.id

theorem visit_of_base {callee : FunctionId}
    (hbase : p.baseFunction? site.call.callee = some callee) : a.visit strategy site = a := by
  rw [Analysis.visit, Analysis.visitCall, ha.program, hbase]
  rfl

/-! ### Calls in a row -/

variable (hp : p.Valid)
include hp

theorem visitFunction_eq (f : FunctionId) :
    a.visitFunction strategy f = (p.callSites f).foldl (Analysis.visit strategy) a := by
  rw [Analysis.visitFunction, ha.program]
  refine List.foldl_ext _ _ _ fun b site hsite => ?_
  rw [Analysis.visit, hp.caller_eq hsite]

theorem run_eq {id : ModuleId} {m : Module} (hm : p.module? id = some m) :
    a.run strategy id = (m.functions.flatMap p.callSites).foldl (Analysis.visit strategy) a := by
  rw [Analysis.run, ha.program, hm, List.foldl_flatMap]
  exact foldl_congr_of_inv (I := strategy.Settled p) ha (fun b f _ hb => hb.visitFunction f)
    fun b f _ hb => hb.visitFunction_eq hp f

theorem foldl_run_eq (ms : List ModuleId) : ∃ sites : List CallSite,
    (∀ site ∈ sites, site ∈ p.calls) ∧
      ms.foldl (Analysis.run strategy) a = sites.foldl (Analysis.visit strategy) a := by
  induction ms generalizing a with
  | nil => exact ⟨[], fun _ h => absurd h List.not_mem_nil, rfl⟩
  | cons id ms ih =>
    obtain ⟨sites, hsites, hrest⟩ := ih (ha.run id)
    rw [List.foldl_cons, hrest]
    cases hm : p.module? id with
    | none => exact ⟨sites, hsites, by rw [Analysis.run, ha.program, hm]⟩
    | some m =>
      refine ⟨m.functions.flatMap p.callSites ++ sites, fun site hsite => ?_, ?_⟩
      · rcases List.mem_append.1 hsite with hsite | hsite
        · obtain ⟨f, hf, hsite⟩ := List.mem_flatMap.1 hsite
          have hm := Array.mem_toList_iff.2 (Array.mem_of_getElem? hm)
          exact Program.mem_calls.2 ⟨f, ⟨m, hm, hf⟩, hsite⟩
        · exact hsites site hsite
      · rw [List.foldl_append, ha.run_eq hp hm]

theorem steps_visit (hsite : site ∈ p.calls) :
    ReflTransGen (Store.Step p (strategy.answer p)) a.store (a.visit strategy site).store := by
  obtain ⟨f, hf, hsite⟩ := Program.mem_calls.1 hsite
  cases hbase : p.baseFunction? site.call.callee with
  | some callee => rw [ha.visit_of_base hbase]
  | none =>
    have hvisit := ha.sameCalls_visit hbase
    rw [hp.caller_eq hsite] at hvisit
    exact .tail (.single (.answer hf hsite _)) (.same hvisit)

theorem steps_foldl {sites : List CallSite} (hsites : ∀ site ∈ sites, site ∈ p.calls) :
    ReflTransGen (Store.Step p (strategy.answer p)) a.store
      (sites.foldl (Analysis.visit strategy) a).store := by
  refine (List.foldlRecOn (motive := fun b : Analysis => strategy.Settled p b ∧
    ReflTransGen (Store.Step p (strategy.answer p)) a.store b.store) _ _ ⟨ha, .refl⟩ ?_).2
  exact fun b hb site hsite =>
    ⟨hb.1.visit site, hb.2.trans (hb.1.steps_visit hp (hsites site hsite))⟩

end Visits

end Settled

theorem analyze_eq_foldl (hp : p.Valid) (strategy : Strategy) :
    (strategy.analyze p).2 = p.calls.foldl (Analysis.visit strategy) (strategy.prepared p) := by
  rw [analyze_eq, Program.calls, List.flatMap_assoc, List.foldl_flatMap, Program.moduleIds,
    List.foldl_map]
  exact foldl_congr_of_inv (I := strategy.Settled p) Running.prepared.settled
    (fun b m _ hb => hb.run m.id) fun b m hm hb => hb.run_eq hp (hp.module?_id hm)

/-! ## All that is recorded -/

theorem sameCalls_ready (strategy : Strategy) (p : Program) :
    Store.SameCalls (storeOf (View.ofProgram p).link p.modules.toList)
      (strategy.ready p).store := by
  unfold ready
  dsimp only
  split
  · exact ⟨rfl, rfl, rfl, rfl, rfl, rfl⟩
  · exact ⟨rfl, rfl, rfl, rfl, rfl, rfl⟩

theorem answer_of_base (hp : p.Valid) (hne : p.modules.toList ≠ []) (strategy : Strategy)
    (site : CallSite) (callee : FunctionId)
    (hbase : (View.ofProgram p).link.program.baseFunction? site.call.callee = some callee) :
    strategy.answer p site = .ofList [(View.ofProgram p).link.definitionOf callee] := by
  rw [answer, show p.baseFunction? site.call.callee = some callee from hbase,
    strategy.prepared_eq hp hne]
  rfl

theorem steps_prepared (hp : p.Valid) (strategy : Strategy) :
    ReflTransGen (Store.Step p (strategy.answer p)) {} (strategy.prepared p).store := by
  by_cases hne : p.modules.toList = []
  · rw [strategy.prepared_of_nil hne]
    exact .refl
  · have hfilled := Store.steps_storeOf (strategy.answer_of_base hp hne)
      fun m (hm : m ∈ p.modules.toList) => hm
    rw [strategy.prepared_eq hp hne]
    exact hfilled.tail (.same (strategy.sameCalls_ready p))

theorem Running.steps (hp : p.Valid) (ha : strategy.Running p a) :
    ReflTransGen (Store.Step p (strategy.answer p)) {} a.store := by
  induction ha with
  | prepared => exact strategy.steps_prepared hp
  | run m ha ih =>
    obtain ⟨sites, hsites, hrun⟩ := ha.settled.foldl_run_eq hp [m]
    rw [List.foldl_cons, List.foldl_nil] at hrun
    exact ih.trans (hrun ▸ ha.settled.steps_foldl hp hsites)
  | resolve v _ ih => exact ih.tail (.same (Analysis.sameCalls_resolveIndirect _ _ v))

theorem hasFunction_of_mem_answer (hp : p.Valid) (hf : f ∈ strategy.answer p site) :
    p.HasFunction f := by
  obtain ⟨hprogram, hrange⟩ := strategy.on_prepared hp
  rw [← hprogram]
  unfold answer at hf
  split at hf
  · rename_i callee hbase
    rw [List.mem_singleton.1 (OrdSet.mem_ofList.1 hf)]
    rw [← hprogram] at hbase
    exact hrange.view.hasFunction_definitionOf (hrange.view.program.hasFunction_base hbase)
  · split at hf
    · exact hrange.resolveVirtual site.id strategy f hf
    · exact hrange.resolveIndirect site.id Running.prepared.recalls _ f hf

/-! ## Visits of answered calls -/

theorem answered_of_base_eq_none (hp : p.Valid) (strategy : Strategy) (hsite : site ∈ p.calls)
    (hbase : p.baseFunction? site.call.callee = none) :
    (strategy.analyze p).2.store.Answered p site (strategy.answer p site) := by
  rw [analyze_eq_foldl hp]
  refine foldl_of_mem_of_inv (I := strategy.Settled p)
    (P := fun b => b.store.Answered p site (strategy.answer p site)) hsite
    Running.prepared.settled ?_ ?_ ?_
  · exact fun b other _ hb => hb.visit other
  · exact fun b hb => (Store.Answered.answerCall _ site.caller).same (hb.sameCalls_visit hbase)
  · exact fun b other hother hb h => h.steps (hb.steps_visit hp hother)

theorem Settled.sameCalls_foldl (ha : strategy.Settled p a) {sites : List CallSite}
    (hanswered : ∀ site ∈ sites, p.baseFunction? site.call.callee = none →
      a.store.Answered p site (strategy.answer p site)) :
    Store.SameCalls a.store (sites.foldl (Analysis.visit strategy) a).store := by
  refine (List.foldlRecOn (motive := fun b : Analysis => strategy.Settled p b ∧
    Store.SameCalls a.store b.store) _ _ ⟨ha, .refl _⟩ fun b hb site hsite => ?_).2
  refine ⟨hb.1.visit site, ?_⟩
  cases hbase : p.baseFunction? site.call.callee with
  | some callee =>
    rw [hb.1.visit_of_base hbase]
    exact hb.2
  | none =>
    have hvisit := hb.1.sameCalls_visit hbase
    rw [((hanswered site hsite hbase).same hb.2).answerCall_eq] at hvisit
    exact hb.2.trans hvisit

end Runs

attribute [local instance] Hasher.digits

/-- The finished run on the program in which `main` calls `f` from a field. -/
def fieldAnswers : Analysis := (layerwise.analyze storedField).2

theorem base_fieldCall : storedField.baseFunction? fieldCall.call.callee = none := rfl

theorem isVirtual_fieldCall : Dispatch.isVirtual storedField fieldCall.call = false := rfl

theorem answer_fieldCall : layerwise.answer storedField fieldCall = OrdSet.ofList [0] := by
  rw [answer, base_fieldCall, isVirtual_fieldCall]
  exact targets_fieldRun

theorem fieldCall_mem_callSites : fieldCall ∈ storedField.callSites 3 := by
  have hsites : storedField.callSites 3 = [fieldCall] := by cbv
  exact hsites ▸ List.mem_cons_self

theorem answered_fieldCall :
    fieldAnswers.store.Answered storedField fieldCall (OrdSet.ofList [0]) := by
  have hlists : storedField.Lists 3 :=
    ⟨_, List.mem_cons_of_mem _ List.mem_cons_self, by decide⟩
  rw [← answer_fieldCall]
  exact answered_of_base_eq_none valid_storedField layerwise
    (Program.mem_calls.2 ⟨3, hlists, fieldCall_mem_callSites⟩) base_fieldCall

/-- A run takes one sweep of each phase, and further visits of any modules report no change
and change nothing about calls. -/
theorem sweep_sameCalls [Hasher] (hp : p.Valid) (strategy : Strategy) :
    (strategy.analyze p).1 = ⟨1, 1⟩ ∧ ∀ ms : List ModuleId,
      (Pass.sweep strategy.pass.run (strategy.analyze p).2 ms).1 = false ∧
        Store.SameCalls (strategy.analyze p).2.store
          (Pass.sweep strategy.pass.run (strategy.analyze p).2 ms).2.store := by
  refine ⟨congrArg Prod.fst (strategy.analyze_eq p), fun ms => ?_⟩
  rw [sweep_run]
  refine ⟨rfl, ?_⟩
  have hsettled := (strategy.running_analyze p).settled
  obtain ⟨sites, hsites, hrun⟩ := hsettled.foldl_run_eq hp ms
  dsimp only
  rw [hrun]
  exact hsettled.sameCalls_foldl fun site hsite =>
    strategy.answered_of_base_eq_none hp (hsites site hsite)

theorem sweep_sameCalls_storedField :
    storedField.Valid ∧ (layerwise.analyze storedField).1 = ⟨1, 1⟩ ∧
      (Pass.sweep layerwise.pass.run fieldAnswers [1, 0, 1]).1 = false ∧
      (Pass.sweep layerwise.pass.run fieldAnswers [1, 0, 1]).2.store.Answered storedField
        fieldCall (OrdSet.ofList [0]) := by
  obtain ⟨hsweeps, hvisits⟩ := sweep_sameCalls valid_storedField layerwise
  obtain ⟨hquiet, hsame⟩ := hvisits [1, 0, 1]
  exact ⟨valid_storedField, hsweeps, hquiet, answered_fieldCall.same hsame⟩

/-! ## Relations in line -/

/-- The four relations say the same after a run, and after further visits of any modules. -/
theorem consistent_sweep [Hasher] (hp : p.Valid) (strategy : Strategy) (ms : List ModuleId) :
    (Pass.sweep strategy.pass.run (strategy.analyze p).2 ms).2.store.Consistent p := by
  rw [sweep_run]
  exact (Store.Consistent.empty p).steps hp (((strategy.running_analyze p).foldl_run ms).steps hp)

theorem consistent_sweep_storedField :
    storedField.Valid ∧ fieldAnswers.store.callees.Relates 8 0 ∧
      fieldAnswers.store.callMap.Relates 3 0 ∧ fieldAnswers.store.calledBy.Relates 0 3 ∧
      (Pass.sweep layerwise.pass.run fieldAnswers [1, 0, 1]).2.store.Consistent
        storedField := by
  have hcallees : fieldAnswers.store.callees.Relates 8 0 :=
    answered_fieldCall.recorded 0 (by decide)
  have hanswers := consistent_sweep valid_storedField layerwise []
  have hcallMap : fieldAnswers.store.callMap.Relates 3 0 :=
    (hanswers.callMap 3 0).2 ⟨8, fieldCall, callSite?_storedField, rfl, hcallees⟩
  exact ⟨valid_storedField, hcallees, hcallMap, (hanswers.calledBy 3 0).1 hcallMap,
    consistent_sweep valid_storedField layerwise [1, 0, 1]⟩

end Strategy

end CallTargets
