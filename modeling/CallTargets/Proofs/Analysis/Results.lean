import CallTargets.Proofs.Analysis.Answers

/-!
# Finished runs

What a finished run has recorded can be told call by call. There is an entry for each call of
the program, and for no other one; the entry is the answer to the call, and lists it in the same
order (`get?_callees_analyze_iff`). Which calls are noted as indirect or
virtual does not depend on the strategy at all (`classifies_analyze`).
-/

namespace CallTargets

namespace Store

variable {f : FunctionId}

/-! ## Direct calls -/

section Filling

variable {view : View} {answer : CallSite → OrdSet FunctionId} {site : CallSite}
  {callee : FunctionId}
  (hanswer : ∀ (site : CallSite) (callee : FunctionId),
    view.program.baseFunction? site.call.callee = some callee →
      answer site = .ofList [view.definitionOf callee])
  (hbase : view.program.baseFunction? site.call.callee = some callee)
  (hsite : site ∈ view.program.callSites f)
include hanswer hbase hsite

theorem answered_addFunction (hf : view.program.Lists f) (s : Store) :
    (s.addFunction view f).Answered view.program site (answer site) := by
  rw [addFunction, addDirectCalls]
  refine foldl_of_mem_of_inv (I := fun _ => True)
    (P := fun s : Store => s.Answered view.program site (answer site)) hsite trivial
    (fun _ _ _ _ => trivial) (fun s _ => ?_) fun s other hother _ h => ?_
  · rw [addDirectCall_eq hanswer hbase]
    exact .answerCall s f
  · exact h.steps (steps_addDirectCall hanswer hf hother)

theorem answered_addModule {m : Module} (hm : m ∈ view.program.modules.toList)
    (hf : f ∈ m.functions) (s : Store) :
    (s.addModule view m).Answered view.program site (answer site) := by
  have hbody : view.program.isDeclaration f = false := by
    obtain ⟨v, hv, -⟩ := List.mem_filterMap.1 hsite
    exact Program.isDeclaration_of_mem_instructionsOf hv
  rw [addModule]
  refine foldl_of_mem_of_inv (I := fun _ => True)
    (P := fun s : Store => s.Answered view.program site (answer site))
    (List.mem_filter.2 ⟨hf, by rw [hbody]; rfl⟩) trivial (fun _ _ _ _ => trivial) (fun s _ => ?_)
    fun s g hg _ h => ?_
  · exact answered_addFunction hanswer hbase hsite ⟨m, hm, hf⟩ s
  · exact h.steps (steps_addFunction hanswer ⟨m, hm, (List.mem_filter.1 hg).1⟩)

theorem answered_storeOf {m : Module} (hm : m ∈ view.program.modules.toList)
    (hf : f ∈ m.functions) :
    (Strategy.storeOf view view.program.modules.toList).Answered view.program site
      (answer site) := by
  refine foldl_of_mem_of_inv (I := fun _ => True)
    (P := fun s : Store => s.Answered view.program site (answer site)) hm trivial
    (fun _ _ _ _ => trivial) (fun s _ => ?_) fun s other hother _ h => ?_
  · exact (answered_addModule hanswer hbase hsite hm hf s).same (.addCandidates view _ m)
  · exact (h.steps (steps_addModule hanswer hother)).same (.addCandidates view _ other)

end Filling

end Store

/-! ## What calls are noted as -/

inductive CallSort where
  | direct
  | virtual
  | indirect
  deriving DecidableEq, Repr

def Program.sortOf (p : Program) (site : CallSite) : CallSort :=
  match p.baseFunction? site.call.callee with
  | some _ => .direct
  | none => if Dispatch.isVirtual p site.call then .virtual else .indirect

theorem Program.sortOf_eq_direct_iff {p : Program} {site : CallSite} :
    p.sortOf site = .direct ↔ ∃ callee, p.baseFunction? site.call.callee = some callee := by
  unfold sortOf
  cases p.baseFunction? site.call.callee with
  | some => simp
  | none => cases Dispatch.isVirtual p site.call <;> simp

theorem Program.sortOf_eq_virtual_iff {p : Program} {site : CallSite} :
    p.sortOf site = .virtual ↔ p.IsVirtual site := by
  unfold sortOf IsVirtual
  cases p.baseFunction? site.call.callee with
  | some => simp
  | none => cases Dispatch.isVirtual p site.call <;> simp

theorem Program.sortOf_eq_indirect_iff {p : Program} {site : CallSite} :
    p.sortOf site = .indirect ↔ p.IsIndirect site := by
  unfold sortOf IsIndirect
  cases p.baseFunction? site.call.callee with
  | some => simp
  | none => cases Dispatch.isVirtual p site.call <;> simp

structure Store.Classifies (s : Store) (v : ValueId) (sort : CallSort) : Prop where
  known : (s.callees.get? v).isSome
  virtual : v ∈ s.virtualCalls ↔ sort = .virtual
  indirect : v ∈ s.indirectCalls ↔ sort = .indirect

/-! ## Finished runs -/

namespace Strategy

variable {p : Program} {site : CallSite}

theorem answered_analyze [Hasher] (hp : p.Valid) (strategy : Strategy) (hsite : site ∈ p.calls) :
    (strategy.analyze p).2.store.Answered p site (strategy.answer p site) := by
  cases hbase : p.baseFunction? site.call.callee with
  | none => exact strategy.answered_of_base_eq_none hp hsite hbase
  | some callee =>
    -- direct calls are recorded when their module is prepared, and stay
    obtain ⟨f, ⟨m, hm, hf⟩, hsite⟩ := Program.mem_calls.1 hsite
    have hne : p.modules.toList ≠ [] := List.ne_nil_of_mem hm
    have hstored : (storeOf (View.ofProgram p).link p.modules.toList).Answered p site
        (strategy.answer p site) :=
      Store.answered_storeOf (strategy.answer_of_base hp hne) hbase hsite hm hf
    have hprepared := hstored.same (strategy.sameCalls_ready p)
    rw [← strategy.prepared_eq hp hne] at hprepared
    rw [analyze_eq_foldl hp]
    exact hprepared.steps (Running.prepared.settled.steps_foldl hp fun _ h => h)

theorem sound_analyze [Hasher] (hp : p.Valid) (strategy : Strategy) :
    (strategy.analyze p).2.store.Sound p (strategy.answer p) :=
  (Store.Sound.empty p (strategy.answer p)).steps ((strategy.running_analyze p).steps hp)

theorem get?_callees_analyze_iff [Hasher] (hp : p.Valid) (strategy : Strategy) {v : ValueId}
    {fs : OrdSet FunctionId} :
    (strategy.analyze p).2.store.callees.get? v = some fs ↔
      ∃ site ∈ p.calls, site.id = v ∧ fs = strategy.answer p site := by
  have hsound := strategy.sound_analyze hp
  refine ⟨hsound.callees v fs, ?_⟩
  rintro ⟨site, hsite, rfl, rfl⟩
  obtain ⟨fs, hfs⟩ := Option.isSome_iff_exists.1 (strategy.answered_analyze hp hsite).known
  obtain ⟨other, hother, hid, rfl⟩ := hsound.callees _ _ hfs
  cases Program.eq_of_id_eq hsite hother hid
  exact hfs

theorem classifies_analyze [Hasher] (hp : p.Valid) (strategy : Strategy) (hsite : site ∈ p.calls) :
    (strategy.analyze p).2.store.Classifies site.id (p.sortOf site) := by
  have hanswered := strategy.answered_analyze hp hsite
  have hsound := strategy.sound_analyze hp
  refine ⟨hanswered.known, ?_, ?_⟩
  · rw [Program.sortOf_eq_virtual_iff]
    refine ⟨fun hmem => ?_, hanswered.virtual⟩
    obtain ⟨other, hother, hid, hvirtual⟩ := hsound.virtualCalls _ hmem
    exact Program.eq_of_id_eq hsite hother hid ▸ hvirtual
  · rw [Program.sortOf_eq_indirect_iff]
    refine ⟨fun hmem => ?_, hanswered.indirect⟩
    obtain ⟨other, hother, hid, hindirect⟩ := hsound.indirectCalls _ hmem
    exact Program.eq_of_id_eq hsite hother hid ▸ hindirect

end Strategy

end CallTargets
