import CallTargets.Proofs.Analysis.Results
import CallTargets.Proofs.Program.Placed
import Mathlib

/-!
# Counts of a run

Counts are kept while calls are answered, one at a time, and the sets that they are about grow
beside them. A visit of a call adds to each count what its sort and its answer say
(`Settled.visited_visit`, `Settled.layered_visit`), so a count of a finished run is a sum over the
calls of the program (`count_analyze`). If each call has one place, the calls that the results
list can be summed up in the same way (`sum_noted`), and the counts tell the sizes of the sets.
-/

namespace CallTargets

open Relation

/-! ## Sums -/

section Sums

variable {α β : Type}

theorem sum_map_filter (test : α → Bool) (weight : α → Nat) (l : List α) :
    ((l.filter test).map weight).sum = (l.map fun a => if test a then weight a else 0).sum := by
  induction l with
  | nil => rfl
  | cons a l ih => cases htest : test a <;> simp [htest, ih]

theorem length_filter_eq_sum (test : α → Bool) (l : List α) :
    (l.filter test).length = (l.map fun a => if test a then 1 else 0).sum := by
  rw [← sum_map_filter]
  simp

end Sums

/-! ## What a visit adds -/

namespace Stats

/-- The calls that were refined by layers, or could have been. -/
def layerCalls (n : Stats) : Nat := n.firstLayerCalls + n.secondLayerCalls

def layerTargets (n : Stats) : Nat := n.firstLayerTargets + n.secondLayerTargets

structure SameAnswers (n n' : Stats) : Prop where
  functions : n'.functions = n.functions
  virtualCalls : n'.virtualCalls = n.virtualCalls
  validCalls : n'.validCalls = n.validCalls
  callTargets : n'.callTargets = n.callTargets

structure Visited (sort : CallSort) (targets : OrdSet FunctionId) (n n' : Stats) : Prop where
  functions : n'.functions = n.functions
  virtualCalls : n'.virtualCalls = n.virtualCalls + if sort = .virtual then 1 else 0
  validCalls : n'.validCalls = n.validCalls +
    if sort = .direct then 0 else if targets.isEmpty then 0 else 1
  callTargets : n'.callTargets = n.callTargets + if sort = .direct then 0 else targets.size

/-- What a visit of a call adds if layers are used, given its sort, its candidates and its
answer. -/
structure Layered (sort : CallSort) (candidates targets : OrdSet FunctionId) (n n' : Stats) :
    Prop where
  calls : n'.layerCalls = n.layerCalls +
    if sort = .indirect then if candidates.isEmpty then 0 else 1 else 0
  targets : n'.layerTargets = n.layerTargets + if sort = .indirect then targets.size else 0

end Stats

theorem OrdSet.size_eq_sum {α : Type} (s : OrdSet α) : s.size = (s.toList.map fun _ => 1).sum := by
  simp [OrdSet.size]

theorem OrdSet.size_eq_zero {α : Type} {s : OrdSet α} (h : s.isEmpty = true) : s.size = 0 :=
  List.length_eq_zero_iff.2 (List.isEmpty_iff.1 h)

theorem Store.stats_addCall (s : Store) (call : ValueId) (caller : FunctionId)
    (targets : List FunctionId) : (s.addCall call caller targets).stats = s.stats := by
  obtain ⟨_, _, _, _, h⟩ := s.addCall_eq call caller targets
  rw [h]

namespace Analysis

variable {a : Analysis}

theorem stats_record (a : Analysis) (site : CallSite) (caller : FunctionId)
    (targets : OrdSet FunctionId) : (a.record site caller targets).store.stats =
      { a.store.stats with
        validCalls := a.store.stats.validCalls + if targets.isEmpty then 0 else 1
        callTargets := a.store.stats.callTargets + targets.size } := by
  have hadded := a.store.stats_addCall site.id caller targets.toList
  unfold record modifyStore
  dsimp only
  by_cases hempty : targets.isEmpty = true
  · rw [if_pos hempty, if_pos hempty, OrdSet.size_eq_zero hempty]
    exact hadded
  · rw [if_neg hempty, if_neg hempty]
    simp only [Store.count, hadded]

theorem sameAnswers_resolveIndirect (indirect : Indirect) (a : Analysis) (v : ValueId) :
    Stats.SameAnswers a.store.stats (a.resolveIndirect indirect v).2.store.stats := by
  have hrefine : ∀ options, Stats.SameAnswers a.store.stats (a.refine options v).2.store.stats := by
    intro options
    rw [Analysis.refine]
    unfold countRefined
    dsimp only
    split
    · exact ⟨rfl, rfl, rfl, rfl⟩
    · split
      · exact ⟨rfl, rfl, rfl, rfl⟩
      · exact ⟨rfl, rfl, rfl, rfl⟩
  cases indirect with
  | signature => exact ⟨rfl, rfl, rfl, rfl⟩
  | layers options => exact hrefine options
  | pointerFlow options =>
    simp only [resolveIndirect]
    split
    · exact hrefine options
    · unfold noteSimple
      split
      · exact ⟨rfl, rfl, rfl, rfl⟩
      · exact ⟨rfl, rfl, rfl, rfl⟩

theorem layered_refine (ha : a.Recalls) (options : LayerOptions) (v : ValueId) :
    Stats.Layered .indirect (a.candidates v) (a.refine options v).1.targets a.store.stats
      (a.refine options v).2.store.stats := by
  have hbaseline := a.baseline_refine options v
  have hcandidate {f : FunctionId} (hf : f ∈ (a.refine options v).1.targets) :
      f ∈ (a.candidates v).toList := mem_candidates_of_mem_refine ha hf
  have hunused : (a.refine options v).1.steps = [] → (a.refine options v).1.targets =
      a.candidates v := targets_refine_of_steps_eq_nil ha
  rw [Analysis.refine] at hbaseline hcandidate hunused ⊢
  dsimp only at hbaseline hcandidate hunused ⊢
  generalize a.view.refine a.gathered.facts options.limit a.kept (a.candidates v)
    ((a.view.program.callSite? v).map CallSite.call) = found at hbaseline hcandidate hunused
  unfold countRefined
  by_cases hempty : (a.candidates v).isEmpty = true
  · have hnone : found.1.targets.isEmpty = true := by
      refine List.isEmpty_iff.2 (List.eq_nil_iff_forall_not_mem.2 fun f hf => ?_)
      have hf := hcandidate hf
      rw [List.isEmpty_iff.1 hempty] at hf
      cases hf
    rw [hbaseline, if_pos hempty]
    exact ⟨by rw [if_pos rfl, if_pos hempty]; rfl,
      by rw [if_pos rfl, OrdSet.size_eq_zero hnone]; rfl⟩
  rw [hbaseline, if_neg hempty]
  by_cases hsteps : found.1.steps.isEmpty = true
  · rw [if_pos hsteps, hunused (List.isEmpty_iff.1 hsteps)]
    constructor
    · rw [if_pos rfl, if_neg hempty]
      exact Nat.add_right_comm _ _ _
    · rw [if_pos rfl]
      exact Nat.add_right_comm _ _ _
  · rw [if_neg hsteps]
    constructor
    · rw [if_pos rfl, if_neg hempty]
      exact (Nat.add_assoc _ _ _).symm
    · rw [if_pos rfl]
      exact (Nat.add_assoc _ _ _).symm

end Analysis

namespace Strategy

variable [Hasher] {strategy : Strategy} {p : Program} {a : Analysis}

namespace Settled

variable (ha : strategy.Settled p a) (site : CallSite)
include ha

theorem visit_cases :
    (p.sortOf site = .direct ∧ a.visit strategy site = a) ∨
    (p.sortOf site = .virtual ∧ a.visit strategy site =
      (a.noteVirtual site.id).record site site.caller (strategy.answer p site)) ∨
    (p.sortOf site = .indirect ∧
      strategy.answer p site =
        ((a.noteIndirect site.id).resolveIndirect strategy.indirect site.id).1 ∧
      a.visit strategy site =
        ((a.noteIndirect site.id).resolveIndirect strategy.indirect site.id).2.record site
          site.caller (strategy.answer p site)) := by
  rw [Analysis.visit, Analysis.visitCall, ha.program, Program.sortOf, answer]
  cases hbase : p.baseFunction? site.call.callee with
  | some callee => exact .inl ⟨rfl, rfl⟩
  | none =>
    cases hvirtual : Dispatch.isVirtual p site.call with
    | true =>
      have hnoted : strategy.Settled p (a.noteVirtual site.id) := ha.modifyStore ⟨rfl, rfl⟩
      rw [hnoted.same.resolveVirtual_eq]
      exact .inr (.inl ⟨rfl, rfl⟩)
    | false =>
      have hnoted : strategy.Settled p (a.noteIndirect site.id) := ha.modifyStore ⟨rfl, rfl⟩
      have hsame := hnoted.same.resolveIndirect_eq site.id Running.prepared.recalls hnoted.recalls
        strategy.indirect
      refine .inr (.inr ⟨rfl, hsame.symm, ?_⟩)
      dsimp only
      rw [hsame]
      rfl

theorem visited_visit : Stats.Visited (p.sortOf site) (strategy.answer p site) a.store.stats
    (a.visit strategy site).store.stats := by
  rcases ha.visit_cases site with ⟨hsort, hvisit⟩ | ⟨hsort, hvisit⟩ | ⟨hsort, -, hvisit⟩
  · rw [hsort, hvisit]
    exact ⟨rfl, rfl, rfl, rfl⟩
  · rw [hsort, hvisit, Analysis.stats_record]
    exact ⟨rfl, rfl, rfl, rfl⟩
  · have hsame := Analysis.sameAnswers_resolveIndirect strategy.indirect (a.noteIndirect site.id)
      site.id
    rw [hsort, hvisit, Analysis.stats_record]
    refine ⟨hsame.functions, hsame.virtualCalls, ?_, ?_⟩
    · exact congrArg (· + _) hsame.validCalls
    · exact congrArg (· + _) hsame.callTargets

/-- If layers are used, a visit counts the call if it is indirect and has candidates, and what
is left of them. -/
theorem layered_visit {options : LayerOptions} (hlayers : strategy.indirect = .layers options) :
    Stats.Layered (p.sortOf site) ((strategy.prepared p).candidates site.id)
      (strategy.answer p site) a.store.stats (a.visit strategy site).store.stats := by
  rcases ha.visit_cases site with ⟨hsort, hvisit⟩ | ⟨hsort, hvisit⟩ | ⟨hsort, hanswer, hvisit⟩
  · rw [hsort, hvisit]
    exact ⟨rfl, rfl⟩
  · rw [hsort, hvisit, Analysis.stats_record]
    exact ⟨rfl, rfl⟩
  · have hnoted : strategy.Settled p (a.noteIndirect site.id) := ha.modifyStore ⟨rfl, rfl⟩
    have hrefine := Analysis.layered_refine hnoted.recalls options site.id
    rw [hnoted.same.sameLayers.candidates_eq] at hrefine
    rw [hlayers] at hanswer hvisit
    rw [hsort, hvisit, Analysis.stats_record, hanswer]
    exact ⟨hrefine.calls, hrefine.targets⟩

end Settled

/-! ## Counts of a finished run -/

theorem count_analyze (hp : p.Valid) (count : Stats → Nat) (weight : CallSite → Nat)
    (hvisit : ∀ {a : Analysis}, strategy.Settled p a → ∀ site,
      count (a.visit strategy site).store.stats = count a.store.stats + weight site) :
    count (strategy.analyze p).2.store.stats =
      count (strategy.prepared p).store.stats + (p.calls.map weight).sum := by
  have hrun : ∀ (sites : List CallSite) {a : Analysis}, strategy.Settled p a →
      count (sites.foldl (Analysis.visit strategy) a).store.stats =
        count a.store.stats + (sites.map weight).sum := by
    intro sites
    induction sites with
    | nil => exact fun _ => rfl
    | cons site sites ih =>
      intro a ha
      rw [List.foldl_cons, ih (ha.visit site), hvisit ha, List.map_cons, List.sum_cons,
        Nat.add_assoc]
  rw [analyze_eq_foldl hp]
  exact hrun p.calls Running.prepared.settled

end Strategy

/-! ## Counts of a prepared run -/

namespace Store

theorem stats_addFunction (view : View) (s : Store) (f : FunctionId) :
    (s.addFunction view f).stats = { s.stats with functions := s.stats.functions + 1 } := by
  rw [addFunction, addDirectCalls]
  refine List.foldlRecOn (motive := fun t : Store =>
    t.stats = { s.stats with functions := s.stats.functions + 1 }) _ _ rfl fun t ht site _ => ?_
  unfold addDirectCall
  split
  · exact (t.stats_addCall _ _ _).trans ht
  · exact ht

theorem stats_addModule (view : View) (s : Store) (m : Module) :
    (s.addModule view m).stats = { s.stats with functions := s.stats.functions +
      (m.functions.filter fun f => !view.program.isDeclaration f).length } := by
  have hcount : ∀ (fs : List FunctionId) (s : Store), (fs.foldl (addFunction view) s).stats =
      { s.stats with functions := s.stats.functions + fs.length } := by
    intro fs
    induction fs with
    | nil => exact fun s => rfl
    | cons f fs ih =>
      intro s
      rw [List.foldl_cons, ih, stats_addFunction, List.length_cons, Nat.add_assoc,
        Nat.add_comm 1]
  rw [addModule, hcount]
  rfl

theorem stats_addCandidates (view : View) (s : Store) (m : Module) :
    (s.addCandidates view m).stats = s.stats :=
  List.foldlRecOn (motive := fun t : Store => t.stats = s.stats) _ _ rfl fun _ ht _ _ => ht

theorem stats_storeOf (view : View) (ms : List Module) :
    (Strategy.storeOf view ms).stats = { functions :=
      ((ms.flatMap Module.functions).filter fun f => !view.program.isDeclaration f).length } := by
  induction ms using List.reverseRecOn with
  | nil => rfl
  | append_singleton ms m ih =>
    rw [Strategy.storeOf_append, stats_addCandidates, stats_addModule, ih]
    simp

end Store

namespace Strategy

variable {p : Program}

theorem stats_prepared [Hasher] (hp : p.Valid) (hplaced : p.Placed) (strategy : Strategy) :
    ∃ confinedFunctions, (strategy.prepared p).store.stats =
      { functions := (Flow.defined p).length, confinedFunctions } := by
  by_cases hnil : p.modules.toList = []
  · have hnone : p.functionIds = [] := by
      have hfunctions := hplaced.functions
      rw [hnil] at hfunctions
      exact hfunctions.nil_eq.symm
    rw [strategy.prepared_of_nil hnil, Flow.defined, hnone]
    exact ⟨0, rfl⟩
  · have hstore : (storeOf (View.ofProgram p).link p.modules.toList).stats =
        { functions := (Flow.defined p).length } := by
      rw [Store.stats_storeOf, Flow.defined, ← (hplaced.functions.filter _).length_eq]
      rfl
    have hcount : ∀ confinedFunctions : Nat,
        (((storeOf (View.ofProgram p).link p.modules.toList).linkCandidates
          (View.ofProgram p).link).count fun n => { n with confinedFunctions }).stats =
          { functions := (Flow.defined p).length, confinedFunctions } := by
      intro confinedFunctions
      simp only [Store.count, Store.linkCandidates, hstore]
    rw [strategy.prepared_eq hp hnil]
    unfold ready
    dsimp only
    split
    · exact ⟨_, hcount _⟩
    · exact ⟨0, hstore⟩

end Strategy

/-! ## The calls of the results -/

namespace Store

/-- What a call may reach, going by the results. -/
def calleesOf (s : Store) (v : ValueId) : OrdSet FunctionId := (s.callees.get? v).getD ∅

/-- The indirect and virtual calls that may reach anything. -/
def reported (s : Store) : OrdSet ValueId :=
  (s.indirectCalls.union s.virtualCalls).filter fun v => !(s.calleesOf v).isEmpty

end Store

/-- If each call has one place, what is told of a set of calls can be summed up over the calls
of the program. -/
theorem Program.Placed.sum_calls {p : Program} (h : p.Placed) (hp : p.Valid) {s : OrdSet ValueId}
    {test : CallSite → Bool} (hmem : ∀ v, v ∈ s ↔ ∃ site ∈ p.calls, test site = true ∧ site.id = v)
    (weight : ValueId → Nat) :
    (s.toList.map weight).sum =
      (p.calls.map fun site => if test site then weight site.id else 0).sum := by
  have hnodup : ((p.calls.filter test).map CallSite.id).Nodup :=
    (h.nodup_calls hp).sublist (List.filter_sublist.map CallSite.id)
  have hperm : s.toList.Perm ((p.calls.filter test).map CallSite.id) := by
    refine (List.perm_ext_iff_of_nodup s.nodup hnodup).2 fun v => ?_
    rw [OrdSet.mem_toList, hmem, List.mem_map]
    simp only [List.mem_filter, and_assoc]
  rw [(hperm.map weight).sum_eq, List.map_map, ← sum_map_filter]
  rfl

namespace Strategy

variable [Hasher] {p : Program} {site : CallSite}

theorem calleesOf_analyze (hp : p.Valid) (strategy : Strategy) (hsite : site ∈ p.calls) :
    (strategy.analyze p).2.store.calleesOf site.id = strategy.answer p site := by
  rw [Store.calleesOf, (strategy.get?_callees_analyze_iff hp).2 ⟨site, hsite, rfl, rfl⟩]
  rfl

theorem sum_noted (hp : p.Valid) (hplaced : p.Placed) (strategy : Strategy) (sorts : List CallSort)
    {s : OrdSet ValueId}
    (hnoted : ∀ v ∈ s, v ∈ (strategy.analyze p).2.store.indirectCalls ∨
      v ∈ (strategy.analyze p).2.store.virtualCalls)
    (hsorts : ∀ {v sort}, (strategy.analyze p).2.store.Classifies v sort → (v ∈ s ↔ sort ∈ sorts))
    (weight : ValueId → Nat) :
    (s.toList.map weight).sum =
      (p.calls.map fun site => if p.sortOf site ∈ sorts then weight site.id else 0).sum := by
  have hsound := strategy.sound_analyze hp
  have hcall : ∀ v ∈ s, ∃ site ∈ p.calls, site.id = v := by
    intro v hv
    rcases hnoted v hv with hv | hv
    · obtain ⟨site, hsite, hid, -⟩ := hsound.indirectCalls v hv
      exact ⟨site, hsite, hid⟩
    · obtain ⟨site, hsite, hid, -⟩ := hsound.virtualCalls v hv
      exact ⟨site, hsite, hid⟩
  have hsort : ∀ site ∈ p.calls, site.id ∈ s ↔ p.sortOf site ∈ sorts := fun site hsite =>
    hsorts (strategy.classifies_analyze hp hsite)
  have hmem : ∀ v, v ∈ s ↔
      ∃ site ∈ p.calls, decide (p.sortOf site ∈ sorts) = true ∧ site.id = v := by
    intro v
    constructor
    · intro hv
      obtain ⟨site, hsite, rfl⟩ := hcall v hv
      exact ⟨site, hsite, decide_eq_true ((hsort site hsite).1 hv), rfl⟩
    · rintro ⟨site, hsite, htest, rfl⟩
      exact (hsort site hsite).2 (of_decide_eq_true htest)
  rw [hplaced.sum_calls hp hmem weight]
  simp only [decide_eq_true_eq]

section Sums

variable (hp : p.Valid) (hplaced : p.Placed) (strategy : Strategy) (weight : ValueId → Nat)
include hp hplaced

theorem sum_virtualCalls : ((strategy.analyze p).2.store.virtualCalls.toList.map weight).sum =
    (p.calls.map fun site => if p.sortOf site = .virtual then weight site.id else 0).sum := by
  rw [strategy.sum_noted hp hplaced [.virtual] (fun v hv => .inr hv) fun h => by
    simpa using h.virtual]
  simp only [List.mem_singleton]

theorem sum_indirectCalls : ((strategy.analyze p).2.store.indirectCalls.toList.map weight).sum =
    (p.calls.map fun site => if p.sortOf site = .indirect then weight site.id else 0).sum := by
  rw [strategy.sum_noted hp hplaced [.indirect] (fun v hv => .inl hv) fun h => by
    simpa using h.indirect]
  simp only [List.mem_singleton]

theorem sum_reported : ((strategy.analyze p).2.store.reported.toList.map weight).sum =
    (p.calls.map fun site => if p.sortOf site = .direct then 0
      else if (strategy.answer p site).isEmpty then 0 else weight site.id).sum := by
  rw [Store.reported, OrdSet.toList_filter, sum_map_filter,
    strategy.sum_noted hp hplaced [.indirect, .virtual] (fun v hv => OrdSet.mem_union.1 hv)
      fun h => by simp [h.indirect, h.virtual]]
  refine congrArg List.sum (List.map_congr_left fun site hsite => ?_)
  rw [strategy.calleesOf_analyze hp hsite]
  cases p.sortOf site <;> cases (strategy.answer p site).isEmpty <;> rfl

end Sums

/-! ## Counts and results -/

end Strategy

/-- The counts tell the sizes of what they are about. -/
structure Store.Accounts (p : Program) (s : Store) : Prop where
  functions : s.stats.functions = (Flow.defined p).length
  virtualCalls : s.stats.virtualCalls = s.virtualCalls.size
  validCalls : s.stats.validCalls = s.reported.size
  callTargets : s.stats.callTargets = (s.reported.toList.map fun v => (s.calleesOf v).size).sum

/-- So do the counts of indirect calls, all of which were looked at for layers. -/
structure Analysis.AccountsLayers (a : Analysis) : Prop where
  calls : a.store.stats.firstLayerCalls + a.store.stats.secondLayerCalls =
    (a.store.indirectCalls.filter fun v => !(a.candidates v).isEmpty).size
  targets : a.store.stats.firstLayerTargets + a.store.stats.secondLayerTargets =
    (a.store.indirectCalls.toList.map fun v => (a.store.calleesOf v).size).sum

namespace Strategy

variable [Hasher] {p : Program} (hp : p.Valid) (hplaced : p.Placed) (strategy : Strategy)
include hp hplaced

theorem accounts_analyze : (strategy.analyze p).2.store.Accounts p := by
  obtain ⟨confinedFunctions, hprepared⟩ := strategy.stats_prepared hp hplaced
  constructor
  · rw [count_analyze hp Stats.functions (fun _ => 0) fun ha site =>
      (ha.visited_visit site).functions, hprepared]
    simp
  · rw [count_analyze hp Stats.virtualCalls _ fun ha site => (ha.visited_visit site).virtualCalls,
      hprepared, OrdSet.size_eq_sum, strategy.sum_virtualCalls hp hplaced]
    exact Nat.zero_add _
  · rw [count_analyze hp Stats.validCalls _ fun ha site => (ha.visited_visit site).validCalls,
      hprepared, OrdSet.size_eq_sum, strategy.sum_reported hp hplaced]
    exact Nat.zero_add _
  · rw [count_analyze hp Stats.callTargets _ fun ha site => (ha.visited_visit site).callTargets,
      hprepared, strategy.sum_reported hp hplaced]
    refine (Nat.zero_add _).trans (congrArg List.sum (List.map_congr_left fun site hsite => ?_))
    rw [strategy.calleesOf_analyze hp hsite]
    split
    · rfl
    · split
      · rename_i hempty
        exact OrdSet.size_eq_zero hempty
      · rfl

theorem accountsLayers_analyze {options : LayerOptions}
    (hlayers : strategy.indirect = .layers options) :
    (strategy.analyze p).2.AccountsLayers := by
  obtain ⟨confinedFunctions, hprepared⟩ := strategy.stats_prepared hp hplaced
  have hsame := (strategy.running_analyze p).same
  constructor
  · have hcount := count_analyze hp Stats.layerCalls _ fun ha site =>
      (ha.layered_visit site hlayers).calls
    rw [hprepared] at hcount
    rw [OrdSet.size, OrdSet.toList_filter, length_filter_eq_sum,
      strategy.sum_indirectCalls hp hplaced]
    refine hcount.trans ((Nat.zero_add _).trans ?_)
    refine congrArg List.sum (List.map_congr_left fun site _ => ?_)
    rw [hsame.sameLayers.candidates_eq]
    cases ((strategy.prepared p).candidates site.id).isEmpty <;> rfl
  · have hcount := count_analyze hp Stats.layerTargets _ fun ha site =>
      (ha.layered_visit site hlayers).targets
    rw [hprepared] at hcount
    rw [strategy.sum_indirectCalls hp hplaced]
    refine hcount.trans ((Nat.zero_add _).trans ?_)
    refine congrArg List.sum (List.map_congr_left fun site hsite => ?_)
    rw [strategy.calleesOf_analyze hp hsite]

end Strategy

end CallTargets
