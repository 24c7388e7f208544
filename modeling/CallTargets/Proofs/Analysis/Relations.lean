import CallTargets.Proofs.Analysis.Phases
import CallTargets.Proofs.Program.Range
import Mathlib.Logic.Relation

/-!
# Recorded calls

As far as calls are concerned, a run does two things to its results: nothing, or it notes a
call and adds what the call may reach (`Store.Step`). Such steps keep the four relations of the
results in line (`Store.Consistent`), record nothing but answers (`Store.Sound`) and forget
none (`Store.Answered`). An answer that is there is not recorded again (`Answered.answerCall_eq`).
-/

namespace CallTargets

variable {site : CallSite} {p : Program}

open Relation

/-! ## Calls through pointers -/

def Program.Lists (p : Program) (f : FunctionId) : Prop := ∃ m ∈ p.modules.toList, f ∈ m.functions

theorem Program.mem_calls : site ∈ p.calls ↔ ∃ f, p.Lists f ∧ site ∈ p.callSites f := by
  simp only [Program.calls, Program.Lists, List.mem_flatMap]

theorem Program.callSite?_of_mem_calls (h : site ∈ p.calls) : p.callSite? site.id = some site := by
  obtain ⟨f, -, hsite⟩ := mem_calls.1 h
  exact callSite?_of_mem_callSites hsite

theorem Program.eq_of_id_eq {other : CallSite} (hsite : site ∈ p.calls) (hother : other ∈ p.calls)
    (hid : other.id = site.id) : other = site := by
  have hfound := callSite?_of_mem_calls hother
  rw [hid, callSite?_of_mem_calls hsite] at hfound
  exact (Option.some.inj hfound).symm

/-- The call goes through a pointer that is not from a vtable. -/
def Program.IsIndirect (p : Program) (site : CallSite) : Prop :=
  p.baseFunction? site.call.callee = none ∧ Dispatch.isVirtual p site.call = false

def Program.IsVirtual (p : Program) (site : CallSite) : Prop :=
  p.baseFunction? site.call.callee = none ∧ Dispatch.isVirtual p site.call = true

namespace Store

/-! ## Stores with the same calls -/

structure SameCalls (s t : Store) : Prop where
  callees : t.callees = s.callees
  callers : t.callers = s.callers
  callMap : t.callMap = s.callMap
  calledBy : t.calledBy = s.calledBy
  indirectCalls : t.indirectCalls = s.indirectCalls
  virtualCalls : t.virtualCalls = s.virtualCalls

def noteCall (p : Program) (s : Store) (site : CallSite) : Store :=
  if (p.baseFunction? site.call.callee).isSome then s
  else if Dispatch.isVirtual p site.call then
    { s with virtualCalls := s.virtualCalls.insert site.id }
  else { s with indirectCalls := s.indirectCalls.insert site.id }

def answerCall (p : Program) (s : Store) (caller : FunctionId) (site : CallSite)
    (targets : OrdSet FunctionId) : Store :=
  (s.noteCall p site).addCall site.id caller targets.toList

namespace SameCalls

variable {s t u : Store}

theorem refl (s : Store) : SameCalls s s := ⟨rfl, rfl, rfl, rfl, rfl, rfl⟩

theorem trans (hst : SameCalls s t) (htu : SameCalls t u) : SameCalls s u :=
  ⟨htu.callees.trans hst.callees, htu.callers.trans hst.callers, htu.callMap.trans hst.callMap,
    htu.calledBy.trans hst.calledBy, htu.indirectCalls.trans hst.indirectCalls,
    htu.virtualCalls.trans hst.virtualCalls⟩

theorem count (s : Store) (change : Stats → Stats) : SameCalls s (s.count change) :=
  ⟨rfl, rfl, rfl, rfl, rfl, rfl⟩

theorem addEdge (h : SameCalls s t) (call : ValueId) (caller target : FunctionId) :
    SameCalls (s.addEdge call caller target) (t.addEdge call caller target) := by
  unfold Store.addEdge
  rw [h.callees]
  split
  · exact h
  · rw [h.callers, h.callMap, h.calledBy]
    exact ⟨rfl, rfl, rfl, rfl, h.indirectCalls, h.virtualCalls⟩

theorem addCall (h : SameCalls s t) (call : ValueId) (caller : FunctionId)
    (targets : List FunctionId) :
    SameCalls (s.addCall call caller targets) (t.addCall call caller targets) := by
  have hedges : ∀ {s t : Store}, SameCalls s t →
      SameCalls (targets.foldl (Store.addEdge call caller) s)
        (targets.foldl (Store.addEdge call caller) t) := by
    induction targets with
    | nil => exact fun h => h
    | cons target targets ih => exact fun h => ih (h.addEdge call caller target)
  exact hedges ⟨congrArg (·.insertIfNew call ∅) h.callees, h.callers, h.callMap, h.calledBy,
    h.indirectCalls, h.virtualCalls⟩

theorem addCandidates (view : View) (s : Store) (m : Module) :
    SameCalls s (s.addCandidates view m) := by
  rw [Store.addCandidates]
  refine List.foldlRecOn _ _ (refl s) fun t ht f _ => ht.trans ?_
  exact ⟨rfl, rfl, rfl, rfl, rfl, rfl⟩

end SameCalls

/-! ## What adding does -/

variable {s t : Store} {call : ValueId} {fs : OrdSet FunctionId} {caller f : FunctionId}
  {c : ValueId} {g : FunctionId}

theorem get?_addEdge (hcall : s.callees.get? call = some fs) (caller f : FunctionId)
    (c : ValueId) :
    (s.addEdge call caller f).callees.get? c =
      if call = c then some (fs.insert f) else s.callees.get? c := by
  unfold addEdge
  split
  · rename_i hf
    have hf : f ∈ fs := by simpa [OrdMap.Relates, hcall] using hf
    rw [OrdSet.insert_of_mem hf]
    split
    · rename_i heq
      rw [← heq, hcall]
    · rfl
  · rw [OrdMap.get?_alter, hcall]
    rfl

theorem get?_addCall (s : Store) (call : ValueId) (caller : FunctionId)
    (targets : List FunctionId) (c : ValueId) :
    (s.addCall call caller targets).callees.get? c =
      if call = c then some (((s.callees.get? call).getD ∅).insertMany targets)
      else s.callees.get? c := by
  have hedges : ∀ (targets : List FunctionId) (s : Store) (fs : OrdSet FunctionId),
      s.callees.get? call = some fs →
        (targets.foldl (addEdge call caller) s).callees.get? c =
          if call = c then some (fs.insertMany targets) else s.callees.get? c := by
    intro targets
    induction targets with
    | nil =>
      intro s fs hfs
      split
      · rename_i heq
        rw [← heq]
        exact hfs
      · rfl
    | cons f targets ih =>
      intro s fs hfs
      have hself := (get?_addEdge hfs caller f call).trans (if_pos rfl)
      rw [List.foldl_cons, ih _ _ hself, get?_addEdge hfs caller f c]
      split
      · rfl
      · rfl
  rw [addCall, hedges targets _ ((s.callees.get? call).getD ∅)]
  · simp only [OrdMap.insertIfNew, OrdMap.get?_alter]
    split
    · rfl
    · rfl
  · simp [OrdMap.insertIfNew, OrdMap.get?_alter]

theorem relates_addCall {targets : List FunctionId} :
    (s.addCall call caller targets).callees.Relates c g ↔
      s.callees.Relates c g ∨ c = call ∧ g ∈ targets := by
  unfold OrdMap.Relates
  rw [get?_addCall]
  split
  · rename_i hc
    subst hc
    simp [OrdSet.mem_insertMany]
  · rename_i hc
    simp [Ne.symm hc]

theorem isSome_addCall {targets : List FunctionId} (h : (s.callees.get? c).isSome ∨ c = call) :
    ((s.addCall call caller targets).callees.get? c).isSome := by
  rw [get?_addCall]
  split
  · rfl
  · rename_i hne
    exact h.resolve_right (Ne.symm hne)

theorem calls_addCall (s : Store) (call : ValueId) (caller : FunctionId)
    (targets : List FunctionId) :
    (s.addCall call caller targets).indirectCalls = s.indirectCalls ∧
      (s.addCall call caller targets).virtualCalls = s.virtualCalls := by
  obtain ⟨_, _, _, _, h⟩ := s.addCall_eq call caller targets
  rw [h]
  exact ⟨rfl, rfl⟩

section NoteCall

variable {p : Program} {site : CallSite}

theorem callees_noteCall (s : Store) (site : CallSite) :
    (s.noteCall p site).callees = s.callees := by
  unfold noteCall
  split
  · rfl
  · split
    · rfl
    · rfl

theorem mem_indirectCalls_noteCall : c ∈ (s.noteCall p site).indirectCalls ↔
    c ∈ s.indirectCalls ∨ c = site.id ∧ p.IsIndirect site := by
  unfold noteCall Program.IsIndirect
  cases p.baseFunction? site.call.callee with
  | some => simp
  | none => cases Dispatch.isVirtual p site.call <;> simp

theorem mem_virtualCalls_noteCall : c ∈ (s.noteCall p site).virtualCalls ↔
    c ∈ s.virtualCalls ∨ c = site.id ∧ p.IsVirtual site := by
  unfold noteCall Program.IsVirtual
  cases p.baseFunction? site.call.callee with
  | some => simp
  | none => cases Dispatch.isVirtual p site.call <;> simp

theorem noteCall_eq_self (hindirect : p.IsIndirect site → site.id ∈ s.indirectCalls)
    (hvirtual : p.IsVirtual site → site.id ∈ s.virtualCalls) : s.noteCall p site = s := by
  unfold Program.IsIndirect at hindirect
  unfold Program.IsVirtual at hvirtual
  unfold noteCall
  cases hbase : p.baseFunction? site.call.callee with
  | some => rfl
  | none =>
    cases hsort : Dispatch.isVirtual p site.call with
    | false => simp [OrdSet.insert_of_mem (hindirect ⟨hbase, hsort⟩)]
    | true => simp [OrdSet.insert_of_mem (hvirtual ⟨hbase, hsort⟩)]

end NoteCall

/-! ## Steps -/

/-- What a run may do about the calls of a program, given the answers. It looks at no
function but those of modules. -/
inductive Step (p : Program) (answer : CallSite → OrdSet FunctionId) : Store → Store → Prop where
  | same {s t : Store} (h : s.SameCalls t) : Step p answer s t
  | answer {f : FunctionId} {site : CallSite} (hf : p.Lists f) (hsite : site ∈ p.callSites f)
      (s : Store) : Step p answer s (s.answerCall p f site (answer site))

section Filling

variable {view : View} {answer : CallSite → OrdSet FunctionId}
  (hanswer : ∀ (site : CallSite) (callee : FunctionId),
    view.program.baseFunction? site.call.callee = some callee →
      answer site = .ofList [view.definitionOf callee])
include hanswer

theorem addDirectCall_eq {callee : FunctionId}
    (hbase : view.program.baseFunction? site.call.callee = some callee) (s : Store) :
    s.addDirectCall view f site = s.answerCall view.program f site (answer site) := by
  have hnote : s.noteCall view.program site = s := if_pos (by rw [hbase]; rfl)
  rw [addDirectCall, hbase, answerCall, hnote, hanswer site callee hbase]
  rfl

theorem steps_addDirectCall (hf : view.program.Lists f) (hsite : site ∈ view.program.callSites f) :
    ReflTransGen (Step view.program answer) s (s.addDirectCall view f site) := by
  cases hbase : view.program.baseFunction? site.call.callee with
  | some callee =>
    rw [addDirectCall_eq hanswer hbase]
    exact .single (.answer hf hsite s)
  | none => rw [addDirectCall, hbase]

theorem steps_addFunction (hf : view.program.Lists f) :
    ReflTransGen (Step view.program answer) s (s.addFunction view f) :=
  List.foldlRecOn _ _ (.single (.same (.count s _))) fun _ ht _ hsite =>
    ht.trans (steps_addDirectCall hanswer hf hsite)

theorem steps_addModule {m : Module} (hm : m ∈ view.program.modules.toList) :
    ReflTransGen (Step view.program answer) s (s.addModule view m) := by
  have hglobals : s.SameCalls (s.addGlobals view m) := ⟨rfl, rfl, rfl, rfl, rfl, rfl⟩
  rw [addModule]
  refine List.foldlRecOn _ _ (.single (.same hglobals)) fun t ht f hf => ?_
  exact ht.trans (steps_addFunction hanswer ⟨m, hm, (List.mem_filter.1 hf).1⟩)

theorem steps_storeOf {ms : List Module} (hms : ∀ m ∈ ms, m ∈ view.program.modules.toList) :
    ReflTransGen (Step view.program answer) {} (Strategy.storeOf view ms) :=
  List.foldlRecOn _ _ .refl fun _ hs m hm =>
    (hs.trans (steps_addModule hanswer (hms m hm))).tail (.same (.addCandidates view _ m))

end Filling

/-! ### Relations in line -/

/-- The four relations say the same. -/
structure Consistent (p : Program) (s : Store) : Prop where
  callers : ∀ c f, s.callees.Relates c f ↔ s.callers.Relates f c
  callMap : ∀ g f, s.callMap.Relates g f ↔
    ∃ c site, p.callSite? c = some site ∧ site.caller = g ∧ s.callees.Relates c f
  calledBy : ∀ g f, s.callMap.Relates g f ↔ s.calledBy.Relates f g

namespace Consistent

variable {p : Program}

theorem empty (p : Program) : Consistent p {} := by
  have hempty : ∀ {κ α : Type} [DecidableEq κ] [DecidableEq α] (k : κ) (a : α),
      ¬ (∅ : OrdMap κ (OrdSet α)).Relates k a := fun _ a => OrdSet.not_mem_empty a
  refine ⟨fun c f => iff_of_false (hempty c f) (hempty f c), fun g f => ?_,
    fun g f => iff_of_false (hempty g f) (hempty f g)⟩
  exact iff_of_false (hempty g f) fun ⟨c, _, _, _, hc⟩ => hempty c f hc

theorem same (h : s.Consistent p) (hsame : s.SameCalls t) : t.Consistent p := by
  obtain ⟨hcallees, hcallers, hcallMap, hcalledBy, -, -⟩ := hsame
  constructor
  · rw [hcallees, hcallers]
    exact h.callers
  · rw [hcallees, hcallMap]
    exact h.callMap
  · rw [hcallMap, hcalledBy]
    exact h.calledBy

theorem addEdge (h : s.Consistent p) (hsite : p.callSite? c = some site) (f : FunctionId) :
    (s.addEdge c site.caller f).Consistent p := by
  unfold Store.addEdge
  split
  · exact h
  · constructor
    · intro c' f'
      rw [OrdMap.relates_add, OrdMap.relates_add, h.callers, and_comm]
    · intro g f'
      simp only [OrdMap.relates_add, h.callMap]
      constructor
      · rintro (⟨c', site', hsite', hg, hf⟩ | ⟨rfl, rfl⟩)
        · exact ⟨c', site', hsite', hg, .inl hf⟩
        · exact ⟨c, site, hsite, rfl, .inr ⟨rfl, rfl⟩⟩
      · rintro ⟨c', site', hsite', rfl, hf | ⟨rfl, rfl⟩⟩
        · exact .inl ⟨c', site', hsite', rfl, hf⟩
        · rw [hsite] at hsite'
          cases hsite'
          exact .inr ⟨rfl, rfl⟩
    · intro g f'
      rw [OrdMap.relates_add, OrdMap.relates_add, h.calledBy, and_comm]

theorem addCall (h : s.Consistent p) (hsite : p.callSite? c = some site)
    (targets : List FunctionId) : (s.addCall c site.caller targets).Consistent p := by
  refine List.foldlRecOn _ _ ⟨?_, ?_, h.calledBy⟩ fun s hs f _ => hs.addEdge hsite f
  · simpa only [OrdMap.relates_insertIfNew] using h.callers
  · simpa only [OrdMap.relates_insertIfNew] using h.callMap

theorem noteCall (h : s.Consistent p) (site : CallSite) : (s.noteCall p site).Consistent p := by
  unfold Store.noteCall
  split
  · exact h
  · split
    · exact ⟨h.callers, h.callMap, h.calledBy⟩
    · exact ⟨h.callers, h.callMap, h.calledBy⟩

variable {answer : CallSite → OrdSet FunctionId}

theorem step (hp : p.Valid) (h : s.Consistent p) (hstep : Step p answer s t) :
    t.Consistent p := by
  cases hstep with
  | same hsame => exact h.same hsame
  | answer _ hsite =>
    have hcaller := hp.caller_eq hsite
    subst hcaller
    exact (h.noteCall _).addCall (Program.callSite?_of_mem_callSites hsite) _

theorem steps (hp : p.Valid) (h : s.Consistent p) (hsteps : ReflTransGen (Step p answer) s t) :
    t.Consistent p := by
  induction hsteps with
  | refl => exact h
  | tail _ hstep ih => exact ih.step hp hstep

end Consistent

/-! ### Answers and no more -/

structure Sound (p : Program) (answer : CallSite → OrdSet FunctionId) (s : Store) : Prop where
  callees : ∀ c fs, s.callees.get? c = some fs →
    ∃ site ∈ p.calls, site.id = c ∧ fs = answer site
  indirectCalls : ∀ c ∈ s.indirectCalls, ∃ site ∈ p.calls, site.id = c ∧ p.IsIndirect site
  virtualCalls : ∀ c ∈ s.virtualCalls, ∃ site ∈ p.calls, site.id = c ∧ p.IsVirtual site

namespace Sound

variable {p : Program} {answer : CallSite → OrdSet FunctionId} {site : CallSite}

theorem empty (p : Program) (answer : CallSite → OrdSet FunctionId) : Sound p answer {} :=
  ⟨fun _ _ h => (by cases h), fun c hc => absurd hc (OrdSet.not_mem_empty c),
    fun c hc => absurd hc (OrdSet.not_mem_empty c)⟩

theorem same (h : s.Sound p answer) (hsame : s.SameCalls t) : t.Sound p answer := by
  obtain ⟨hcallees, -, -, -, hindirect, hvirtual⟩ := hsame
  exact ⟨hcallees ▸ h.callees, hindirect ▸ h.indirectCalls, hvirtual ▸ h.virtualCalls⟩

theorem noteCall (h : s.Sound p answer) (hsite : site ∈ p.calls) :
    (s.noteCall p site).Sound p answer := by
  refine ⟨callees_noteCall s site ▸ h.callees, fun c hc => ?_, fun c hc => ?_⟩
  · rcases mem_indirectCalls_noteCall.1 hc with hc | ⟨rfl, hindirect⟩
    · exact h.indirectCalls c hc
    · exact ⟨site, hsite, rfl, hindirect⟩
  · rcases mem_virtualCalls_noteCall.1 hc with hc | ⟨rfl, hvirtual⟩
    · exact h.virtualCalls c hc
    · exact ⟨site, hsite, rfl, hvirtual⟩

theorem addCall (h : s.Sound p answer) (hsite : site ∈ p.calls) (caller : FunctionId) :
    (s.addCall site.id caller (answer site).toList).Sound p answer := by
  obtain ⟨hindirect, hvirtual⟩ := calls_addCall s site.id caller (answer site).toList
  refine ⟨fun c fs hfs => ?_, hindirect ▸ h.indirectCalls, hvirtual ▸ h.virtualCalls⟩
  rw [get?_addCall] at hfs
  split at hfs
  · rename_i hc
    refine ⟨site, hsite, hc, (Option.some.inj hfs).symm.trans ?_⟩
    cases hold : s.callees.get? site.id with
    | none => exact OrdSet.insertMany_toList (answer site)
    | some old =>
      obtain ⟨other, hother, hid, rfl⟩ := h.callees site.id old hold
      cases Program.eq_of_id_eq hsite hother hid
      exact OrdSet.insertMany_eq_self fun f hf => hf
  · exact h.callees c fs hfs

theorem mem_answer (h : s.Sound p answer) (hsite : site ∈ p.calls)
    (hf : s.callees.Relates site.id f) : f ∈ answer site := by
  obtain ⟨fs, hfs, hf⟩ := OrdMap.exists_of_relates hf
  obtain ⟨other, hother, hid, rfl⟩ := h.callees site.id fs hfs
  cases Program.eq_of_id_eq hsite hother hid
  exact hf

theorem step (h : s.Sound p answer) (hstep : Step p answer s t) : t.Sound p answer := by
  cases hstep with
  | same hsame => exact h.same hsame
  | answer hf hsite =>
    have hsite := Program.mem_calls.2 ⟨_, hf, hsite⟩
    exact (h.noteCall hsite).addCall hsite _

theorem steps (h : s.Sound p answer) (hsteps : ReflTransGen (Step p answer) s t) :
    t.Sound p answer := by
  induction hsteps with
  | refl => exact h
  | tail _ hstep ih => exact ih.step hstep

end Sound

/-! ### Answers that stay -/

structure Answered (p : Program) (s : Store) (site : CallSite) (targets : OrdSet FunctionId) :
    Prop where
  indirect : p.IsIndirect site → site.id ∈ s.indirectCalls
  virtual : p.IsVirtual site → site.id ∈ s.virtualCalls
  known : (s.callees.get? site.id).isSome
  recorded : ∀ f ∈ targets, s.callees.Relates site.id f

namespace Answered

variable {p : Program} {site : CallSite} {targets : OrdSet FunctionId}

theorem answerCall (s : Store) (caller : FunctionId) :
    (s.answerCall p caller site targets).Answered p site targets := by
  obtain ⟨hindirect, hvirtual⟩ :=
    calls_addCall (s.noteCall p site) site.id caller targets.toList
  refine ⟨fun h => ?_, fun h => ?_, isSome_addCall (.inr rfl),
    fun f hf => relates_addCall.2 (.inr ⟨rfl, hf⟩)⟩
  · exact hindirect ▸ mem_indirectCalls_noteCall.2 (.inr ⟨rfl, h⟩)
  · exact hvirtual ▸ mem_virtualCalls_noteCall.2 (.inr ⟨rfl, h⟩)

theorem same (h : s.Answered p site targets) (hsame : s.SameCalls t) :
    t.Answered p site targets := by
  obtain ⟨hcallees, -, -, -, hindirect, hvirtual⟩ := hsame
  constructor
  · rw [hindirect]
    exact h.indirect
  · rw [hvirtual]
    exact h.virtual
  · rw [hcallees]
    exact h.known
  · rw [hcallees]
    exact h.recorded

theorem noteCall (h : s.Answered p site targets) (other : CallSite) :
    (s.noteCall p other).Answered p site targets where
  indirect hsite := mem_indirectCalls_noteCall.2 (.inl (h.indirect hsite))
  virtual hsite := mem_virtualCalls_noteCall.2 (.inl (h.virtual hsite))
  known := callees_noteCall s other ▸ h.known
  recorded := callees_noteCall s other ▸ h.recorded

theorem addCall (h : s.Answered p site targets) (fs : List FunctionId) :
    (s.addCall call caller fs).Answered p site targets := by
  obtain ⟨hindirect, hvirtual⟩ := calls_addCall s call caller fs
  exact ⟨hindirect ▸ h.indirect, hvirtual ▸ h.virtual, isSome_addCall (.inl h.known),
    fun f hf => relates_addCall.2 (.inl (h.recorded f hf))⟩

variable {answer : CallSite → OrdSet FunctionId}

theorem steps (h : s.Answered p site targets) (hsteps : ReflTransGen (Step p answer) s t) :
    t.Answered p site targets := by
  induction hsteps with
  | refl => exact h
  | tail _ hstep ih =>
    cases hstep with
    | same hsame => exact ih.same hsame
    | answer _ _ => exact (ih.noteCall _).addCall _

theorem answerCall_eq (h : s.Answered p site targets) (caller : FunctionId) :
    s.answerCall p caller site targets = s := by
  have hnew : s.callees.insertIfNew site.id ∅ = s.callees := by
    obtain ⟨fs, hfs⟩ := Option.isSome_iff_exists.1 h.known
    exact OrdMap.alter_eq_self hfs rfl
  rw [Store.answerCall, noteCall_eq_self h.indirect h.virtual, Store.addCall, hnew]
  refine List.foldlRecOn (motive := fun t => t = s) _ _ rfl fun t ht f hf => ?_
  rw [ht]
  exact if_pos (h.recorded f hf)

end Answered

end Store

end CallTargets
