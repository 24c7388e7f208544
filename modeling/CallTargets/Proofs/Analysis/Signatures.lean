import CallTargets.Proofs.Analysis.Candidates
import CallTargets.Proofs.Analysis.Results

/-!
# Signatures of targets

What a call through a pointer may reach has the signature of the call. Candidates are listed
under their signatures (`isIndex_prepared`); layers and traces select from the candidates of
a call, and of a vtable only the functions with the signature of the call are taken.
-/

namespace CallTargets

theorem Dispatch.signatureOf_of_mem_targets {view : View} {h : Hierarchy} {call : Call}
    {f : FunctionId} (hf : f ∈ targets view h call) :
    view.signatureOf f = view.signature call.type := by
  unfold targets at hf
  split at hf
  · obtain ⟨g, hg, rfl⟩ := List.mem_map.1 (OrdSet.mem_ofList.1 hf)
    have htarget := (List.mem_filter.1 hg).2
    simp only [isTarget, Bool.and_eq_true, decide_eq_true_eq] at htarget
    rw [view.signatureOf_definitionOf, htarget.1.2]
  · exact absurd hf (OrdSet.not_mem_empty f)

namespace Strategy

variable {strategy : Strategy} {p : Program} {f : FunctionId} {site : CallSite}

theorem signatureOf_of_mem_answer [Hasher] (hp : p.Valid) (hsite : site ∈ p.calls)
    (hbase : p.baseFunction? site.call.callee = none) (hf : f ∈ strategy.answer p site) :
    (View.ofProgram p).link.signatureOf f =
      (View.ofProgram p).link.signature site.call.type := by
  have hne : p.modules.toList ≠ [] := by
    obtain ⟨_, ⟨m, hm, -⟩, -⟩ := Program.mem_calls.1 hsite
    exact List.ne_nil_of_mem hm
  have hview : (strategy.prepared p).view = (View.ofProgram p).link := by
    rw [strategy.prepared_eq hp hne]
    rfl
  have hfound : (View.ofProgram p).link.program.callSite? site.id = some site :=
    Program.callSite?_of_mem_calls hsite
  unfold answer at hf
  rw [hbase] at hf
  dsimp only at hf
  split at hf
  · unfold Analysis.resolveVirtual at hf
    rw [hview, hfound] at hf
    split at hf
    · rename_i hsome
      cases hsome
      exact Dispatch.signatureOf_of_mem_targets hf
    · exact absurd hf (OrdSet.not_mem_empty f)
  · have hcandidate := Analysis.mem_candidates_of_mem_resolveIndirect Running.prepared.recalls hf
    unfold Analysis.candidates at hcandidate
    rw [hview, hfound] at hcandidate
    exact (((strategy.isIndex_prepared hp).bucket _ f).1 hcandidate).2

/-- After a run, what an indirect or virtual call may reach has a signature with the hash of that
of the call, and the very signature of the call unless two that differ have the same hash. -/
theorem signature_callees [Hasher] (hp : p.Valid) (strategy : Strategy) {v : ValueId}
    (hv : v ∈ (strategy.analyze p).2.store.indirectCalls ∨
      v ∈ (strategy.analyze p).2.store.virtualCalls)
    (hf : (strategy.analyze p).2.store.callees.Relates v f) :
    ∃ site fn, p.callSite? v = some site ∧ p.function? f = some fn ∧
      Hasher.hash (p.types.signatureText fn.type) =
        Hasher.hash (p.types.signatureText site.call.type) ∧
      (p.SignaturesApart →
        p.types.signatureText fn.type = p.types.signatureText site.call.type) := by
  have hsound := strategy.sound_analyze hp
  obtain ⟨site, hsite, rfl, hbase⟩ :
      ∃ site ∈ p.calls, site.id = v ∧ p.baseFunction? site.call.callee = none := by
    rcases hv with hv | hv
    · obtain ⟨site, hsite, hid, hindirect⟩ := hsound.indirectCalls v hv
      exact ⟨site, hsite, hid, hindirect.1⟩
    · obtain ⟨site, hsite, hid, hvirtual⟩ := hsound.virtualCalls v hv
      exact ⟨site, hsite, hid, hvirtual.1⟩
  have hanswer := hsound.mem_answer hsite hf
  have hrange := hasFunction_of_mem_answer hp hanswer
  obtain ⟨fn, hfn⟩ := Program.exists_function hrange
  have hsignature := signatureOf_of_mem_answer hp hsite hbase hanswer
  have hfound := Program.callSite?_of_mem_calls hsite
  refine ⟨site, fn, hfound, hfn, ?_, fun hapart => ?_⟩
  · rw [View.signatureOf, show (View.ofProgram p).link.program = p from rfl, hfn] at hsignature
    exact SignatureKey.mk.inj hsignature
  · have htype := hp.hasType_of_call (Program.opcode?_of_callSite? hfound)
    have hwritten := (hapart.signatureOf_eq_iff hp hrange htype).1 hsignature
    rw [Program.writtenSignature, hfn] at hwritten
    exact hwritten

attribute [local instance] Hasher.digits

theorem signature_callees_storedField :
    storedField.Valid ∧ 8 ∈ fieldAnswers.store.indirectCalls ∧
      fieldAnswers.store.callees.Relates 8 0 ∧
      ∃ site fn, storedField.callSite? 8 = some site ∧ storedField.function? 0 = some fn ∧
        storedField.types.signatureText fn.type =
          storedField.types.signatureText site.call.type := by
  have hcall : 8 ∈ fieldAnswers.store.indirectCalls :=
    answered_fieldCall.indirect ⟨rfl, rfl⟩
  have hcallee : fieldAnswers.store.callees.Relates 8 0 :=
    answered_fieldCall.recorded 0 (by decide)
  obtain ⟨site, fn, hsite, hfn, -, hwritten⟩ :=
    signature_callees valid_storedField layerwise (.inl hcall) hcallee
  exact ⟨valid_storedField, hcall, hcallee, site, fn, hsite, hfn, hwritten (by decide +kernel)⟩

end Strategy

end CallTargets
