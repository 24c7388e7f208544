import CallTargets.Analysis
import CallTargets.Proofs.Ordered
import CallTargets.Proofs.View
import Mathlib.Data.List.Induction

/-!
# The phases of a run

No visit asks for another one, so a run prepares each module once and then answers the
calls of each module once (`analyze_eq`). Of a valid program all modules are prepared in
their order, on the linked view: `Strategy.ready` says what is known then, part by part,
and `prepared_eq` that this is what preparing comes to. Answering calls changes the results and
what is kept for later answers, and nothing that was prepared (`Running.same`).
-/

namespace CallTargets

variable {ms : List Module} {m : Module} {a : Analysis}

/-! ## Steps in sequence -/

section Steps

variable {α β : Type} {P : β → Prop} {step : β → α → β} {x : α} {xs : List α} {b : β}

/-- What one step brings about and all steps keep, as long as something else holds throughout,
holds in the end. -/
theorem foldl_of_mem_of_inv {I : β → Prop} (hx : x ∈ xs) (hb : I b)
    (hinv : ∀ b, ∀ y ∈ xs, I b → I (step b y)) (hmake : ∀ b, I b → P (step b x))
    (hkeep : ∀ b, ∀ y ∈ xs, I b → P b → P (step b y)) : P (xs.foldl step b) := by
  obtain ⟨before, after, rfl⟩ := List.append_of_mem hx
  rw [List.foldl_append, List.foldl_cons]
  have hbefore : I (before.foldl step b) :=
    List.foldlRecOn before step hb fun b hb y hy => hinv b y (List.mem_append_left _ hy) hb
  have hafter : ∀ y ∈ after, y ∈ before ++ x :: after := fun y hy =>
    List.mem_append_right _ (List.mem_cons_of_mem x hy)
  have hmade : I (step (before.foldl step b) x) ∧ P (step (before.foldl step b) x) :=
    ⟨hinv _ x hx hbefore, hmake _ hbefore⟩
  refine (List.foldlRecOn (motive := fun b => I b ∧ P b) after step hmade ?_).2
  exact fun b hb y hy => ⟨hinv b y (hafter y hy) hb.1, hkeep b y (hafter y hy) hb.1 hb.2⟩

theorem foldl_of_mem (hx : x ∈ xs) (hmake : ∀ b, P (step b x))
    (hkeep : ∀ b y, P b → P (step b y)) : P (xs.foldl step b) :=
  foldl_of_mem_of_inv (I := fun _ => True) hx trivial (fun _ _ _ _ => trivial)
    (fun b _ => hmake b) fun b y _ _ => hkeep b y

/-- Steps that come to the same as long as something holds throughout come to the same in a
row. -/
theorem foldl_congr_of_inv {I : β → Prop} {step step' : β → α → β} {xs : List α} {b : β} (hb : I b)
    (hinv : ∀ b, ∀ x ∈ xs, I b → I (step b x)) (hstep : ∀ b, ∀ x ∈ xs, I b → step b x = step' b x) :
    xs.foldl step b = xs.foldl step' b := by
  induction xs generalizing b with
  | nil => rfl
  | cons x xs ih =>
    have hnext := hinv b x List.mem_cons_self hb
    rw [List.foldl_cons, List.foldl_cons, ← hstep b x List.mem_cons_self hb]
    exact ih hnext (fun b y hy => hinv b y (List.mem_cons_of_mem x hy))
      fun b y hy => hstep b y (List.mem_cons_of_mem x hy)

end Steps

/-! ## Sweeps that change nothing -/

namespace Pass

variable {σ : Type} {rank : σ → Nat} {visit : Visitor σ}

theorem sweep_of_quiet (hquiet : ∀ s m, (visit s m).1 = false) (s : σ) (ms : List ModuleId) :
    sweep visit s ms = (false, ms.foldl (fun s m => (visit s m).2) s) := by
  induction ms generalizing s with
  | nil => rfl
  | cons m ms ih =>
    simp only [sweep, ih, hquiet, List.foldl_cons]
    rfl

theorem settle_of_quiet (h : Lowers rank visit) (hquiet : ∀ s m, (visit s m).1 = false) (s : σ)
    (ms : List ModuleId) : settle h ms s = (1, ms.foldl (fun s m => (visit s m).2) s) := by
  rw [settle]
  split
  · rename_i next hsweep
    rw [sweep_of_quiet hquiet] at hsweep
    cases hsweep
    rfl
  · rename_i next hsweep
    rw [sweep_of_quiet hquiet] at hsweep
    cases hsweep

end Pass

namespace Strategy

def prepared [Hasher] (strategy : Strategy) (p : Program) : Analysis :=
  p.moduleIds.foldl (Analysis.prepare strategy) (Analysis.start p)

theorem analyze_eq [Hasher] (strategy : Strategy) (p : Program) :
    strategy.analyze p =
      (⟨1, 1⟩, p.moduleIds.foldl (Analysis.run strategy) (strategy.prepared p)) := by
  have hfinish : ∀ (ms : List ModuleId) (a : Analysis), ms.foldl (fun a _ => a) a = a := by
    intro ms
    induction ms with
    | nil => exact fun _ => rfl
    | cons m ms ih => exact fun a => ih a
  rw [analyze, Pass.fixpoint, Pass.settle_of_quiet strategy.pass.prepare_lowers fun _ _ => rfl]
  dsimp only
  rw [Pass.settle_of_quiet strategy.pass.run_lowers fun _ _ => rfl]
  exact congrArg (Prod.mk _) (hfinish _ _)

/-! ## What is prepared -/

section Ready

variable (strategy : Strategy) (p : Program)

/-- What is passed to parameters, as far as the strategy asks for it. -/
def flow? (view : View) : Option Flow :=
  if strategy.indirect.options?.any LayerOptions.dataflow then some (Flow.ofView view) else none

/-- The direct calls and candidates of some modules. -/
def storeOf (view : View) (ms : List Module) : Store :=
  ms.foldl (fun s m => (s.addModule view m).addCandidates view m) {}

/-- The facts about layers that some modules contribute. -/
def gatheredOf (view : View) (flow : Option Flow) (ms : List Module) : Gathered :=
  if strategy.indirect.options?.isSome then ms.foldl (fun g m => g.module view flow m) {} else {}

def hierarchyOf (ms : List Module) : Hierarchy :=
  if strategy.classes then
    ms.foldl (fun h m => (Structor.scan p (Vtable.scan p h m).2 m).2) {}
  else {}

/-- A run of which some modules are prepared, but not the last one. -/
def halfway [Hasher] (ms : List Module) : Analysis :=
  let view := (View.ofProgram p).link
  { view
    store := storeOf view ms
    prepared := ms.length
    gathered := strategy.gatheredOf view (strategy.flow? view) ms
    flow := if ms.isEmpty then none else strategy.flow? view
    hierarchy := strategy.hierarchyOf p ms }

/-- A run of which all modules are prepared. -/
def ready [Hasher] : Analysis :=
  let view := (View.ofProgram p).link
  let ms := p.modules.toList
  let flow := strategy.flow? view
  let store := (storeOf view ms).linkCandidates view
  let confined :=
    if strategy.indirect.traces then
      store.addressTaken.filter (view.isConfined (flow.getD {}))
    else ∅
  { view
    store :=
      if strategy.indirect.traces then
        store.count fun n => { n with confinedFunctions := confined.size }
      else store
    prepared := ms.length
    gathered :=
      let gathered := strategy.gatheredOf view flow ms
      if strategy.indirect.options?.isSome then gathered.linked view else gathered
    flow
    confined
    hierarchy := strategy.hierarchyOf p ms }

theorem storeOf_append (view : View) (ms : List Module) (m : Module) :
    storeOf view (ms ++ [m]) =
      ((storeOf view ms).addModule view m).addCandidates view m := by
  simp [storeOf, List.foldl_append]

theorem gatheredOf_append (view : View) (flow : Option Flow) (ms : List Module) (m : Module) :
    strategy.gatheredOf view flow (ms ++ [m]) =
      if strategy.indirect.options?.isSome then
        (strategy.gatheredOf view flow ms).module view flow m
      else strategy.gatheredOf view flow ms := by
  unfold gatheredOf
  split
  · rw [List.foldl_append]
    rfl
  · rfl

theorem hierarchyOf_append (ms : List Module) (m : Module) :
    strategy.hierarchyOf p (ms ++ [m]) =
      if strategy.classes then
        (Structor.scan p (Vtable.scan p (strategy.hierarchyOf p ms) m).2 m).2
      else strategy.hierarchyOf p ms := by
  unfold hierarchyOf
  split
  · rw [List.foldl_append]
    rfl
  · rfl

end Ready

theorem prepareModule_eq (strategy : Strategy) (a : Analysis) (m : Module) :
    a.prepareModule strategy m =
      let store := (a.store.addModule a.view m).addCandidates a.view m
      let store := if a.isLast then store.linkCandidates a.view else store
      let flow :=
        if strategy.indirect.options?.any LayerOptions.dataflow && a.flow.isNone then
          some (Flow.ofView a.view)
        else a.flow
      let gathered :=
        if strategy.indirect.options?.isSome then a.gathered.module a.view flow m else a.gathered
      let confined :=
        if strategy.indirect.traces && a.isLast then
          store.addressTaken.filter (a.view.isConfined (flow.getD {}))
        else a.confined
      { a with
        store :=
          if strategy.indirect.traces && a.isLast then
            store.count fun n => { n with confinedFunctions := confined.size }
          else store
        prepared := a.prepared + 1
        gathered :=
          if strategy.indirect.options?.isSome && a.isLast then gathered.linked a.view
          else gathered
        flow
        confined
        hierarchy :=
          if strategy.classes then
            (Structor.scan a.view.program (Vtable.scan a.view.program a.hierarchy m).2 m).2
          else a.hierarchy } := by
  obtain ⟨indirect, classes⟩ := strategy
  by_cases hlast : a.prepared + 1 = a.view.program.modules.size <;> cases classes <;>
    cases indirect <;>
    simp [Analysis.prepareModule, Analysis.prepareStore, Analysis.prepareOptions,
      Analysis.prepareLayers, Analysis.prepareConfined, Analysis.prepareClasses,
      Analysis.isLast, Analysis.knownFlow, Analysis.modifyStore,
      Indirect.options?, Indirect.traces, hlast]

section Ready

variable (strategy : Strategy) (p : Program)

theorem flow_halfway [Hasher] (ms : List Module) :
    (if strategy.indirect.options?.any LayerOptions.dataflow &&
          (strategy.halfway p ms).flow.isNone then
        some (Flow.ofView (strategy.halfway p ms).view)
      else (strategy.halfway p ms).flow) = strategy.flow? (View.ofProgram p).link := by
  cases hms : ms.isEmpty <;>
    cases hflow : strategy.indirect.options?.any LayerOptions.dataflow <;>
    simp [halfway, hms, flow?, hflow]

theorem prepareModule_halfway [Hasher] (hlt : ms.length + 1 < p.modules.size) :
    (strategy.halfway p ms).prepareModule strategy m = strategy.halfway p (ms ++ [m]) := by
  have hlast : (strategy.halfway p ms).isLast = false :=
    decide_eq_false (Nat.ne_of_lt hlt)
  rw [prepareModule_eq]
  simp only [hlast, Bool.and_false, if_false, Bool.false_eq_true, flow_halfway]
  rw [halfway, halfway, storeOf_append, gatheredOf_append, hierarchyOf_append]
  simp
  rfl

theorem prepareModule_last [Hasher] (hall : ms ++ [m] = p.modules.toList) :
    (strategy.halfway p ms).prepareModule strategy m = strategy.ready p := by
  have hlast : (strategy.halfway p ms).isLast = true := by
    have hsize : ms.length + 1 = p.modules.size := by
      rw [← Array.length_toList, ← hall]
      simp
    exact decide_eq_true hsize
  rw [prepareModule_eq]
  simp only [hlast, Bool.and_true, if_true, flow_halfway]
  rw [ready, ← hall, halfway, storeOf_append, gatheredOf_append, hierarchyOf_append]
  simp
  rfl

variable {p}

/-- A module of the program is prepared, as long as there is one to come; before the first one the
program is linked. -/
theorem prepare_next [Hasher] (hp : p.Valid) (hm : m ∈ p.modules.toList)
    (hlt : ms.length < p.modules.size)
    (ha : a = if ms.isEmpty then Analysis.start p else strategy.halfway p ms) :
    a.prepare strategy m.id = (strategy.halfway p ms).prepareModule strategy m := by
  have hmodule : p.module? m.id = some m := hp.module?_id hm
  have hlinked : a.linked = strategy.halfway p ms := by
    cases ms with
    | nil =>
      rw [ha]
      simp [Analysis.linked, Analysis.start, halfway, storeOf, gatheredOf, hierarchyOf]
    | cons m' ms =>
      rw [ha]
      simp [Analysis.linked, halfway]
  unfold Analysis.prepare
  rw [hlinked]
  simp only [show (strategy.halfway p ms).view.program.module? m.id = some m from hmodule]
  exact if_pos hlt

theorem foldl_prepare [Hasher] (hp : p.Valid) (hms : ∀ m ∈ ms, m ∈ p.modules.toList)
    (hlt : ms.length < p.modules.size) :
    (ms.map Module.id).foldl (Analysis.prepare strategy) (Analysis.start p) =
      if ms.isEmpty then Analysis.start p else strategy.halfway p ms := by
  induction ms using List.reverseRecOn with
  | nil => rfl
  | append_singleton ms m ih =>
    rw [List.length_append, List.length_singleton] at hlt
    have hprepared := ih (fun m' hm' => hms m' (List.mem_append_left _ hm')) (by omega)
    have hm : m ∈ p.modules.toList := hms m (List.mem_append_right _ List.mem_cons_self)
    rw [List.map_append, List.foldl_append, List.map_singleton, List.foldl_cons, List.foldl_nil,
      strategy.prepare_next hp hm (by omega) hprepared, strategy.prepareModule_halfway p hlt]
    simp

theorem foldl_prepare_last [Hasher] (hp : p.Valid) (hms : ∀ m' ∈ ms ++ [m], m' ∈ p.modules.toList)
    (hsize : ms.length + 1 = p.modules.size) :
    ((ms ++ [m]).map Module.id).foldl (Analysis.prepare strategy) (Analysis.start p) =
      (strategy.halfway p ms).prepareModule strategy m := by
  have hprepared := strategy.foldl_prepare hp (fun m' hm' => hms m' (List.mem_append_left _ hm'))
    (by omega)
  have hm : m ∈ p.modules.toList := hms m (List.mem_append_right _ List.mem_cons_self)
  rw [List.map_append, List.foldl_append, List.map_singleton, List.foldl_cons, List.foldl_nil,
    strategy.prepare_next hp hm (by omega) hprepared]

theorem prepared_of_nil [Hasher] (hnil : p.modules.toList = []) :
    strategy.prepared p = Analysis.start p := by
  rw [prepared, Program.moduleIds, hnil]
  rfl

theorem prepared_eq [Hasher] (hp : p.Valid) (hne : p.modules.toList ≠ []) :
    strategy.prepared p = strategy.ready p := by
  obtain ⟨ms, m, hall⟩ : ∃ ms m, p.modules.toList = ms ++ [m] :=
    ⟨_, _, (List.dropLast_append_getLast hne).symm⟩
  have hsize : ms.length + 1 = p.modules.size := by
    rw [← Array.length_toList, hall, List.length_append, List.length_singleton]
  rw [prepared, Program.moduleIds, hall,
    strategy.foldl_prepare_last hp (fun m' hm' => hall ▸ hm') hsize]
  exact strategy.prepareModule_last p hall.symm

end Ready

end Strategy

namespace Analysis

theorem view_prepareModule (strategy : Strategy) (a : Analysis) (m : Module) :
    (a.prepareModule strategy m).view = a.view := by rw [Strategy.prepareModule_eq]

theorem program_linked (a : Analysis) : a.linked.view.program = a.view.program := by
  unfold linked
  split <;> rfl

theorem program_prepare (strategy : Strategy) (a : Analysis) (m : ModuleId) :
    (a.prepare strategy m).view.program = a.view.program := by
  unfold prepare
  split
  · split
    · rw [view_prepareModule, program_linked]
    · exact a.program_linked
  · exact a.program_linked

end Analysis

/-! ## Candidates -/

namespace Store

theorem addCall_eq (s : Store) (call : ValueId) (caller : FunctionId)
    (targets : List FunctionId) : ∃ callees callers callMap calledBy,
      s.addCall call caller targets = { s with callees, callers, callMap, calledBy } := by
  refine List.foldlRecOn (motive := fun t : Store => ∃ callees callers callMap calledBy,
    t = { s with callees, callers, callMap, calledBy }) _ _ ⟨_, _, _, _, rfl⟩ ?_
  rintro _ ⟨_, _, _, _, rfl⟩ target -
  unfold addEdge
  split
  · exact ⟨_, _, _, _, rfl⟩
  · exact ⟨_, _, _, _, rfl⟩

structure SameCandidates (s t : Store) : Prop where
  addressTaken : t.addressTaken = s.addressTaken
  buckets : t.buckets = s.buckets

namespace SameCandidates

variable {s t u : Store}

theorem refl (s : Store) : SameCandidates s s := ⟨rfl, rfl⟩

theorem trans (hst : SameCandidates s t) (htu : SameCandidates t u) : SameCandidates s u :=
  ⟨htu.addressTaken.trans hst.addressTaken, htu.buckets.trans hst.buckets⟩

theorem foldl {α : Type} {step : Store → α → Store} (hstep : ∀ s x, SameCandidates s (step s x))
    (xs : List α) (s : Store) : SameCandidates s (xs.foldl step s) :=
  List.foldlRecOn xs step (refl s) fun t ht x _ => ht.trans (hstep t x)

theorem addCall (s : Store) (call : ValueId) (caller : FunctionId) (targets : List FunctionId) :
    SameCandidates s (s.addCall call caller targets) := by
  obtain ⟨_, _, _, _, h⟩ := s.addCall_eq call caller targets
  rw [h]
  exact ⟨rfl, rfl⟩

theorem addDirectCall (view : View) (f : FunctionId) (s : Store) (site : CallSite) :
    SameCandidates s (s.addDirectCall view f site) := by
  unfold Store.addDirectCall
  split
  · exact addCall s _ _ _
  · exact refl s

theorem addFunction (view : View) (s : Store) (f : FunctionId) :
    SameCandidates s (s.addFunction view f) := by
  have hcount (change : Stats → Stats) : SameCandidates s (s.count change) := ⟨rfl, rfl⟩
  exact (hcount _).trans (foldl (addDirectCall view f) _ _)

theorem addModule (view : View) (s : Store) (m : Module) :
    SameCandidates s (s.addModule view m) := by
  have hglobals : SameCandidates s (s.addGlobals view m) := ⟨rfl, rfl⟩
  exact hglobals.trans (foldl (addFunction view) _ _)

end SameCandidates

section Modules

variable {view : View} {ms : List Module} {f : FunctionId}

theorem mem_addressTaken_addCandidates {s : Store} :
    f ∈ (s.addCandidates view m).addressTaken ↔ f ∈ s.addressTaken ∨
      f ∈ m.functions ∧ (view.program.function? f).any isCandidate = true := by
  rw [addCandidates]
  refine (foldl_adds_iff (P := fun s : Store => f ∈ s.addressTaken)
    (fun s g _ => OrdSet.mem_insert) s).trans (or_congr_right ?_)
  simp

theorem mem_addressTaken_storeOf : f ∈ (Strategy.storeOf view ms).addressTaken ↔
    ∃ m ∈ ms, f ∈ m.functions ∧ (view.program.function? f).any isCandidate = true := by
  have hstep (s : Store) (m : Module) :
      f ∈ ((s.addModule view m).addCandidates view m).addressTaken ↔ f ∈ s.addressTaken ∨
        f ∈ m.functions ∧ (view.program.function? f).any isCandidate = true := by
    rw [mem_addressTaken_addCandidates, (SameCandidates.addModule view s m).addressTaken]
  exact (foldl_adds_iff (P := fun s : Store => f ∈ s.addressTaken) (fun s m _ => hstep s m)
    {}).trans (or_iff_right (OrdSet.not_mem_empty f))

theorem isCandidate_of_mem (hf : f ∈ (Strategy.storeOf view ms).addressTaken) :
    (view.program.function? f).any isCandidate = true := by
  obtain ⟨-, -, -, hcandidate⟩ := mem_addressTaken_storeOf.1 hf
  exact hcandidate

end Modules

end Store

/-! ## Answering -/

namespace Analysis

/-- Both runs know the same about the program. -/
structure SameFacts (a b : Analysis) : Prop where
  view : b.view = a.view
  gathered : b.gathered = a.gathered
  flow : b.flow = a.flow
  confined : b.confined = a.confined
  hierarchy : b.hierarchy = a.hierarchy
  candidates : Store.SameCandidates a.store b.store

namespace SameFacts

variable {a b c : Analysis}

theorem refl (a : Analysis) : SameFacts a a := ⟨rfl, rfl, rfl, rfl, rfl, .refl _⟩

theorem trans (hab : SameFacts a b) (hbc : SameFacts b c) : SameFacts a c :=
  ⟨hbc.view.trans hab.view, hbc.gathered.trans hab.gathered, hbc.flow.trans hab.flow,
    hbc.confined.trans hab.confined, hbc.hierarchy.trans hab.hierarchy,
    hab.candidates.trans hbc.candidates⟩

theorem knownFlow (h : SameFacts a b) : b.knownFlow = a.knownFlow := by
  rw [Analysis.knownFlow, h.flow, Analysis.knownFlow]

theorem modifyStore {change : Store → Store} (h : Store.SameCandidates a.store (change a.store)) :
    SameFacts a (a.modifyStore change) := ⟨rfl, rfl, rfl, rfl, rfl, h⟩

theorem refine (o : LayerOptions) (a : Analysis) (v : ValueId) : SameFacts a (a.refine o v).2 := by
  rw [Analysis.refine]
  unfold countRefined
  dsimp only
  split
  · exact ⟨rfl, rfl, rfl, rfl, rfl, .refl _⟩
  · split
    · exact ⟨rfl, rfl, rfl, rfl, rfl, ⟨rfl, rfl⟩⟩
    · exact ⟨rfl, rfl, rfl, rfl, rfl, ⟨rfl, rfl⟩⟩

theorem noteSimple (a : Analysis) (v : ValueId) : SameFacts a (a.noteSimple v) := by
  unfold Analysis.noteSimple
  split
  · exact refl a
  · exact ⟨rfl, rfl, rfl, rfl, rfl, ⟨rfl, rfl⟩⟩

theorem resolveIndirect (indirect : Indirect) (a : Analysis) (v : ValueId) :
    SameFacts a (a.resolveIndirect indirect v).2 := by
  cases indirect with
  | signature => exact refl a
  | layers o => exact refine o a v
  | pointerFlow o =>
    simp only [Analysis.resolveIndirect]
    split
    · exact refine o a v
    · exact noteSimple a v

end SameFacts

section Keeps

/- What changes of the results and answers to indirect calls keep, is kept by a whole run. -/
variable {strategy : Strategy} {P : Analysis → Prop}
  (hstore : ∀ {a : Analysis} {change : Store → Store},
    Store.SameCandidates a.store (change a.store) → P a → P (a.modifyStore change))
  (hresolve : ∀ {a : Analysis} (v : ValueId), P a → P (a.resolveIndirect strategy.indirect v).2)

include hstore

theorem keeps_record (site : CallSite) (caller : FunctionId) (targets : OrdSet FunctionId)
    (h : P a) : P (a.record site caller targets) := by
  have hadd : P (a.modifyStore (·.addCall site.id caller targets.toList)) :=
    hstore (.addCall _ _ _ _) h
  unfold Analysis.record
  split
  · exact hadd
  · exact hstore ⟨rfl, rfl⟩ hadd

include hresolve

theorem keeps_visitCall (caller : FunctionId) (site : CallSite) (h : P a) :
    P (a.visitCall strategy caller site) := by
  unfold Analysis.visitCall
  split
  · exact h
  · split
    · exact keeps_record hstore _ _ _ (hstore ⟨rfl, rfl⟩ h)
    · exact keeps_record hstore _ _ _ (hresolve _ (hstore ⟨rfl, rfl⟩ h))

theorem keeps_visitFunction (f : FunctionId) (h : P a) : P (a.visitFunction strategy f) :=
  List.foldlRecOn _ _ h fun _ ha site _ => keeps_visitCall hstore hresolve f site ha

theorem keeps_run (m : ModuleId) (h : P a) : P (a.run strategy m) := by
  unfold Analysis.run
  split
  · exact List.foldlRecOn _ _ h fun a ha f _ => keeps_visitFunction hstore hresolve f ha
  · exact h

end Keeps

theorem SameFacts.visitCall (strategy : Strategy) (caller : FunctionId) (a : Analysis)
    (site : CallSite) : SameFacts a (a.visitCall strategy caller site) :=
  keeps_visitCall (fun hsame h => h.trans (modifyStore hsame))
    (fun v h => h.trans (resolveIndirect strategy.indirect _ v)) caller site (refl a)

theorem SameFacts.visitFunction (strategy : Strategy) (a : Analysis) (f : FunctionId) :
    SameFacts a (a.visitFunction strategy f) :=
  keeps_visitFunction (fun hsame h => h.trans (modifyStore hsame))
    (fun v h => h.trans (resolveIndirect strategy.indirect _ v)) f (refl a)

theorem SameFacts.run (strategy : Strategy) (a : Analysis) (m : ModuleId) :
    SameFacts a (a.run strategy m) :=
  keeps_run (fun hsame h => h.trans (modifyStore hsame))
    (fun v h => h.trans (resolveIndirect strategy.indirect _ v)) m (refl a)

end Analysis

namespace Strategy

variable [Hasher] {strategy : Strategy} {p : Program} {a : Analysis}

/-- A run that answers calls, in any order and any number of times. -/
inductive Running (strategy : Strategy) (p : Program) : Analysis → Prop where
  | prepared : Running strategy p (strategy.prepared p)
  | run {a : Analysis} (m : ModuleId) : Running strategy p a → Running strategy p (a.run strategy m)
  | resolve {a : Analysis} (v : ValueId) : Running strategy p a →
      Running strategy p (a.resolveIndirect strategy.indirect v).2

theorem Running.same (h : strategy.Running p a) : Analysis.SameFacts (strategy.prepared p) a := by
  induction h with
  | prepared => exact .refl _
  | run m _ ih => exact ih.trans (.run strategy _ m)
  | resolve v _ ih => exact ih.trans (.resolveIndirect strategy.indirect _ v)

theorem Running.program (h : strategy.Running p a) : a.view.program = p := by
  rw [h.same.view]
  exact List.foldlRecOn (motive := fun a : Analysis => a.view.program = p) _ _ rfl
    fun a ha m _ => (Analysis.program_prepare strategy a m).trans ha

theorem Running.same_ready (hp : p.Valid) (hne : p.modules.toList ≠ [])
    (h : strategy.Running p a) : Analysis.SameFacts (strategy.ready p) a :=
  strategy.prepared_eq hp hne ▸ h.same

theorem Running.foldl_run (h : strategy.Running p a) (ms : List ModuleId) :
    strategy.Running p (ms.foldl (Analysis.run strategy) a) :=
  List.foldlRecOn ms _ h fun _ ha m _ => ha.run m

theorem running_analyze (strategy : Strategy) (p : Program) :
    strategy.Running p (strategy.analyze p).2 := by
  rw [analyze_eq]
  exact Running.prepared.foldl_run p.moduleIds

omit [Hasher] in
theorem sweep_run (strategy : Strategy) (a : Analysis) (ms : List ModuleId) :
    Pass.sweep strategy.pass.run a ms = (false, ms.foldl (Analysis.run strategy) a) :=
  Pass.sweep_of_quiet (fun _ _ => rfl) a ms

end Strategy

end CallTargets
