import CallTargets.Proofs.Layer.Escape
import CallTargets.Proofs.Layer.Growth

/-!
# Functions that are stored are found

A function that is stored through a pointer is held by all layers behind the pointer
(`held_of_stores`). A call of what is loaded through the same pointer is refined by these
layers and no others (`layersFrom_load`), although the walk behind it sets out from the load
and has been there when it comes to the pointer. So no refinement drops the function, since
it uses no other layers (`mem_layersFrom`) and what is left matches all that it uses.
-/

namespace CallTargets

/-! ## Walks from a load -/

namespace Program

variable {p : Program} {v w ptr : ValueId} {fresh todo : List ValueId}

theorem visit_load (h : p.load? v = some ptr) (root : Option ValueId) :
    p.layerWalk.visit root v = .goOn root [ptr] := by
  have hop := opcode?_of_load? h
  obtain ⟨i, hi, hload⟩ := opcode?_eq_some_iff.1 hop
  obtain ⟨val, hval, hkind⟩ := Option.map_eq_some_iff.1 hi
  have hargument : p.isArgument v = false := by
    simp [isArgument, hval, Value.isArgument, hkind]
  have hgep : p.gep? v = none := by
    obtain ⟨function, block, opcode, loc⟩ := i
    subst hload
    simp [gep?, hi]
  simp [layerWalk, hargument, hgep, walkBack?, hop]

theorem unsteered_layerWalk (p : Program) : p.layerWalk.Unsteered := by
  intro v
  simp only [layerWalk]
  split
  · exact .inr ⟨fun _ => some v, [], fun _ => rfl⟩
  · split
    · exact .inl ⟨_, fun _ => rfl⟩
    · split
      · exact .inr ⟨id, _, fun _ => rfl⟩
      · exact .inr ⟨fun _ => if p.isRoot v then some v else none, [], fun _ => rfl⟩

/-- A load leads to its pointer only. Once the pointer is next or behind it, a walk that has
been at the load finds what one finds that has not. -/
theorem run_erase_load (hload : p.load? v = some ptr) (hn : fresh.Nodup)
    (hptr : ptr ∈ fresh → todo.head? = some ptr) (s : Option ValueId) :
    (p.layerWalk.run (fresh.erase v) todo s).1 = (p.layerWalk.run fresh todo s).1.erase v ∧
      (p.layerWalk.run (fresh.erase v) todo s).2.answer? =
        (p.layerWalk.run fresh todo s).2.answer? := by
  fun_induction Search.run p.layerWalk fresh todo s with
  | case1 fresh s => simp [Search.run, Outcome.answer?]
  | case2 fresh s u todo hu answer hvisit =>
    have huv : u ≠ v := by
      rintro rfl
      rw [visit_load hload] at hvisit
      cases hvisit
    rw [Search.run_fresh ((hn.mem_erase_iff).2 ⟨huv, hu⟩), hvisit]
    exact ⟨List.erase_comm v u, rfl⟩
  | case3 fresh s u todo hu s₁ next hvisit ih =>
    have hu' : u ∉ fresh.erase u := fun h => ((hn.mem_erase_iff).1 h).1 rfl
    have hptr' : ptr ∉ fresh.erase u := by
      intro h
      have hhead := hptr (List.mem_of_mem_erase h)
      rw [List.head?_cons, Option.some.injEq] at hhead
      exact hu' (hhead ▸ h)
    by_cases huv : u = v
    · -- one walk looks at the load and passes over its pointer, the other passes over the load
      subst huv
      rw [visit_load hload] at hvisit
      cases hvisit
      have hleft : u ∉ (p.layerWalk.run (fresh.erase u) todo (p.layerWalk.pass s ptr)).1 :=
        fun h => hu' ((Search.sublist_run _ _ _ _).subset h)
      have hjoin : p.layerWalk.turn.join [ptr] todo = ptr :: todo := rfl
      rw [Search.run_seen hu', hjoin, Search.run_seen hptr', List.erase_of_not_mem hleft]
      exact p.unsteered_layerWalk.run_eq _ _ _ _
    · rw [Search.run_fresh ((hn.mem_erase_iff).2 ⟨huv, hu⟩), hvisit, List.erase_comm]
      exact ih (hn.erase u) fun h => absurd h hptr'
  | case4 fresh s u todo hu ih =>
    have hptr' : ptr ∉ fresh := by
      intro h
      have hhead := hptr h
      rw [List.head?_cons, Option.some.injEq] at hhead
      exact hu (hhead ▸ h)
    rw [Search.run_seen fun h => hu (List.mem_of_mem_erase h)]
    exact ih hn fun h => absurd h hptr'

theorem layersFrom_eq (p : Program) (fresh : List ValueId) (v : ValueId) :
    (p.layersFrom fresh v).1 = match (p.nextLayers fresh v).2.answer? with
      | some (layers, base) => layers ++ (p.layersFrom (p.nextLayers fresh v).1 base).1
      | none => [] := by
  rw [layersFrom]
  rcases hnext : p.nextLayers fresh v with ⟨left, ⟨layers, base⟩ | root⟩
  · exact congrArg Prod.fst (if_pos (Search.fresh_length_run_lt hnext))
  · rfl

theorem nodup_nextLayers (hn : fresh.Nodup) (v : ValueId) : (p.nextLayers fresh v).1.Nodup :=
  hn.sublist (Search.sublist_run _ _ _ _)

theorem layersFrom_erase_load (hload : p.load? v = some ptr) (hn : fresh.Nodup)
    (hptr : ptr ∉ fresh) (w : ValueId) :
    (p.layersFrom (fresh.erase v) w).1 = (p.layersFrom fresh w).1 := by
  induction hlength : fresh.length using Nat.strongRecOn generalizing fresh w with
  | _ n ih =>
    subst hlength
    obtain ⟨hleft, hanswer⟩ :
        (p.nextLayers (fresh.erase v) w).1 = (p.nextLayers fresh w).1.erase v ∧
          (p.nextLayers (fresh.erase v) w).2.answer? = (p.nextLayers fresh w).2.answer? :=
      run_erase_load hload hn (fun h => absurd h hptr) (some w)
    rw [layersFrom_eq, layersFrom_eq p fresh, hanswer, hleft]
    have hleft' := nodup_nextLayers (p := p) hn w
    have hptr' : ptr ∉ (p.nextLayers fresh w).1 := fun h =>
      hptr ((Search.sublist_run _ _ _ _).subset h)
    rcases hnext : p.nextLayers fresh w with ⟨left, ⟨layers, base⟩ | root⟩
    · rw [hnext] at hleft' hptr'
      have hrest := ih left.length (Search.fresh_length_run_lt hnext) hleft' hptr' base rfl
      simp only [Outcome.answer?, hrest]
    · rfl

theorem layersFrom_load (hload : p.load? v = some ptr) :
    (p.layersFrom p.valueIds v).1 = (p.layersFrom p.valueIds ptr).1 := by
  have hn := p.nodup_valueIds
  have hv : v ∈ p.valueIds := by
    obtain ⟨i, hi, -⟩ := opcode?_eq_some_iff.1 (opcode?_of_load? hload)
    obtain ⟨val, hval, -⟩ := Option.map_eq_some_iff.1 hi
    exact mem_valueIds.2 (hasValue_of_eq_some hval)
  have hnext : p.nextLayers p.valueIds v =
      p.layerWalk.run (p.valueIds.erase v) [ptr] (some v) := by
    rw [nextLayers, Search.run_fresh hv, visit_load hload]
    rfl
  obtain ⟨hleft, hanswer⟩ :
      (p.nextLayers p.valueIds v).1 = (p.nextLayers p.valueIds ptr).1.erase v ∧
        (p.nextLayers p.valueIds v).2.answer? = (p.nextLayers p.valueIds ptr).2.answer? := by
    rw [hnext]
    have hnear : ptr ∈ p.valueIds → [ptr].head? = some ptr := fun _ => rfl
    obtain ⟨hleft, hanswer⟩ := run_erase_load hload hn hnear (some ptr)
    obtain ⟨hleft', hanswer'⟩ :=
      p.unsteered_layerWalk.run_eq (p.valueIds.erase v) [ptr] (some ptr) (some v)
    exact ⟨hleft'.trans hleft, hanswer'.trans hanswer⟩
  rw [layersFrom_eq, layersFrom_eq p _ ptr, hleft, hanswer]
  cases (p.nextLayers p.valueIds ptr).2.answer? with
  | none => rfl
  | some found =>
    have hptr : ptr ∉ (p.nextLayers p.valueIds ptr).1 := Search.notMem_run_head hn _
    exact congrArg (found.1 ++ ·)
      (layersFrom_erase_load hload (nodup_nextLayers hn ptr) hptr found.2)

end Program

/-! ## Layers that hold what is stored -/

/-- A function of some module stores the address of a function through a pointer. -/
def Program.Stores (p : Program) (f : FunctionId) (ptr : ValueId) : Prop :=
  ∃ m ∈ p.modules.toList, ∃ g ∈ m.functions, ∃ store ∈ p.instructionsOf g, ∃ value,
    p.store? store = some (value, ptr) ∧ p.baseFunction? value = some f

namespace Facts

variable {κ : Type} [DecidableEq κ] {facts : Facts κ} {l : Layer κ} {f : FunctionId}

theorem mem_targets_of_mem_held (hf : f ∈ facts.held l) : f ∈ facts.targets l := by
  obtain ⟨t, i | _⟩ := l
  · exact mem_targets_nth.2 (.inl hf)
  · exact mem_targets_any.2 ⟨_, hf⟩

end Facts

namespace Gathered

variable {view : View} {f : FunctionId} {l : Layer TypeId} {ptr : ValueId}

theorem mem_held_confineTarget (hf : view.program.isIntrinsic f = false)
    (hl : l ∈ (view.program.layersFrom view.program.valueIds ptr).1) (g : Gathered) :
    f ∈ (g.confineTarget view ptr f).facts.held (view.layer l) := by
  have hchain : view.layer l ∈ view.chain g.aliases ptr :=
    List.mem_map_of_mem (List.mem_append_right _ hl)
  rw [confineTarget, hf, if_neg Bool.false_ne_true, recordChain]
  refine foldl_of_mem (P := fun facts : Facts TypeKey => f ∈ facts.held (view.layer l)) hchain
    ?_ ?_
  · exact fun facts => Facts.mem_held_confine.2 (.inr ⟨rfl, rfl⟩)
  · exact fun facts l' h => Facts.mem_held_confine.2 (.inl h)

theorem Gains.mem_held {g g' : Gathered} (h : g.Gains (fun _ => True) g') {l : Layer TypeKey}
    (hf : f ∈ g.facts.held l) : f ∈ g'.facts.held l := h.has (r := .held l f) hf

theorem held_of_stores (hstores : view.program.Stores f ptr)
    (hf : view.program.isIntrinsic f = false)
    (hl : l ∈ (view.program.layersFrom view.program.valueIds ptr).1) (flow : Option Flow)
    (g : Gathered) :
    f ∈ (view.program.modules.toList.foldl (fun g m => g.module view flow m) g).facts.held
      (view.layer l) := by
  obtain ⟨m, hm, caller, hcaller, store, hmem, value, hstore, hbase⟩ := hstores
  have hbody : caller ∈ m.functions.filter fun f => !view.program.isDeclaration f := by
    refine List.mem_filter.2 ⟨hcaller, ?_⟩
    rw [Program.isDeclaration_of_mem_instructionsOf hmem]
    rfl
  -- the instruction, its function and its module bring the fact about, one inside the other
  have hinstr : ∀ g : Gathered,
      f ∈ (confineInstr view flow g store).facts.held (view.layer l) := by
    intro g
    rw [confineInstr, Program.opcode?_of_store? hstore]
    simp only [confineStore, hbase]
    exact mem_held_confineTarget hf hl g
  have hfunction : ∀ g : Gathered,
      f ∈ (function view flow g caller).facts.held (view.layer l) := by
    intro g
    have hconfined : f ∈ ((g.collectAliases view.program caller).confineIn view flow
        caller).facts.held (view.layer l) :=
      foldl_of_mem (P := fun g : Gathered => f ∈ g.facts.held (view.layer l)) hmem hinstr
        fun g v h => (gains_confineInstr view.names_any (view.traces_any flow) g v).1.mem_held h
    exact (Gains.of_notes (notes_propagateIn caller) _).mem_held hconfined
  have hmodule : ∀ g : Gathered, f ∈ (g.module view flow m).facts.held (view.layer l) := by
    intro g
    rw [Gathered.module]
    exact foldl_of_mem (P := fun g : Gathered => f ∈ g.facts.held (view.layer l)) hbody hfunction
      fun g caller h => (gains_function view.names_any (view.traces_any flow) g caller).mem_held h
  exact foldl_of_mem (P := fun g : Gathered => f ∈ g.facts.held (view.layer l)) hm hmodule
    fun g m h => (gains_module view.names_any (view.traces_any flow) g m).mem_held h

end Gathered

/-! ## Refinements that keep a function -/

theorem Program.mem_layersFrom {p : Program} {fresh : List ValueId} {v : ValueId}
    {l : Layer TypeId} (hl : l ∈ p.layersBehind fresh v) : l ∈ (p.layersFrom fresh v).1 := by
  rw [layersFrom_eq]
  fun_induction Program.layersBehind p fresh v with
  | case1 fresh v left layers base hnext hempty => cases hl
  | case2 fresh v left layers base hnext hempty hless ih =>
    rw [hnext]
    rcases List.mem_append.1 hl with hl | hl
    · exact List.mem_append_left _ hl
    · exact List.mem_append_right _ (layersFrom_eq p left base ▸ ih hl)
  | case3 fresh v left layers base hnext hempty hless =>
    rw [hnext]
    exact List.mem_append_left _ hl
  | case4 => cases hl

namespace Strategy

variable {strategy : Strategy} {p : Program} {a : Analysis} {f : FunctionId} {ptr : ValueId}

/-- Once everything is gathered, the layers behind a pointer hold the definition of what is
stored through it. -/
theorem Running.held_of_stores [Hasher] (hp : p.Valid) (ha : strategy.Running p a)
    (hlayers : strategy.indirect.options?.isSome) (hstored : p.Stores f ptr)
    (hf : p.isIntrinsic f = false) {l : Layer TypeId} (hl : l ∈ (p.layersFrom p.valueIds ptr).1) :
    a.view.definitionOf f ∈ a.gathered.facts.held (a.view.layer l) := by
  have hne : p.modules.toList ≠ [] := by
    obtain ⟨m, hm, -⟩ := hstored
    exact List.ne_nil_of_mem hm
  have hsame := ha.same_ready hp hne
  rw [hsame.view, hsame.gathered]
  simp only [ready, gatheredOf, if_pos hlayers]
  have hstored' : (View.ofProgram p).link.program.Stores f ptr := hstored
  exact Facts.mem_held_mapFunctions.2 ⟨f, Gathered.held_of_stores hstored' hf hl _ _, rfl⟩

/-- A function that is stored through a pointer is not refined away from a call of what is
loaded through the pointer. -/
theorem Running.mem_refine_of_stores [Hasher] (hp : p.Valid) (ha : strategy.Running p a)
    {options : LayerOptions} (hoptions : strategy.indirect.options? = some options)
    (hstored : p.Stores f ptr) (hf : p.isIntrinsic f = false) {v : ValueId} {site : CallSite}
    (hsite : p.callSite? v = some site) (hload : p.load? site.call.callee = some ptr)
    (hbaseline : a.view.definitionOf f ∈ a.candidates v) :
    a.view.definitionOf f ∈ (a.refine options v).1.targets := by
  have hprogram : a.view.program = p := ha.program
  have hlayers : strategy.indirect.options?.isSome := by
    rw [hoptions]
    rfl
  obtain ⟨-, used, huses⟩ := ha.recalls.refine options v
  rw [huses.targets, Analysis.baseline_refine, Facts.mem_left]
  refine ⟨hbaseline, fun key hkey => ?_⟩
  have hbehind := huses.begins.subset hkey
  rw [Analysis.layersBehind, hprogram, hsite] at hbehind
  obtain ⟨l, hl, rfl⟩ := List.mem_map.1 hbehind
  have hl := Program.mem_layersFrom hl
  rw [Program.layersFrom_load hload] at hl
  exact Facts.mem_matched.2
    (.inl (Facts.mem_targets_of_mem_held (ha.held_of_stores hp hlayers hstored hf hl)))

open Sample in
/-- `main` stores `f`, which another module defines, into a field, and calls what it loads
from there. The address of `h` is taken as well. -/
def storedField : Program :=
  let function (name : String) (m : Nat) (blocks : List Block) (address : Nat) : Function :=
    ⟨name, 1, ⟨m⟩, .external, [], blocks, ⟨address⟩, false⟩
  let global (name : String) (t address : Nat) (init : Option ValueId) : Global :=
    ⟨name, 1, ⟨t⟩, ⟨address⟩, init, .external, false⟩
  Program.withUses
    { types := ⟨#[.void, .function 0 [] false, .pointer 1, .struct (some "S") [2] false,
        .pointer 3, .pointer 2]⟩
      values := #[value 4 (.global 0), value 2 (.function 0), value 2 (.function 1),
        value 2 (.function 2), value 2 (.function 3),
        instr 5 3 (.gep ⟨3, 0, [.const 0, .const 0]⟩), instr 0 3 (.store 2 5),
        instr 2 3 (.load 5), instr 0 3 (.call ⟨7, [], 1, false⟩), value 5 (.global 1)]
      functions := #[function "f" 0 [⟨0, []⟩] 1, function "f" 1 [] 2,
        function "h" 1 [⟨0, []⟩] 3, function "main" 1 [⟨0, [5, 6, 7, 8]⟩] 4]
      globals := #[global "s" 3 0 none, global "c" 2 9 (some 3)]
      modules := #[⟨0, "a", [0], [], []⟩, ⟨1, "b", [1, 2, 3], [0, 1], []⟩] }

theorem valid_storedField : storedField.Valid := Program.valid_withUses rfl

def layerwise : Strategy := ⟨.layers {}, true⟩

attribute [local instance] Hasher.digits

def fieldRun : Analysis := layerwise.prepared storedField

theorem fieldRun_eq : fieldRun = layerwise.ready storedField :=
  layerwise.prepared_eq valid_storedField (List.cons_ne_nil _ _)

def fieldCall : CallSite := ⟨8, 3, ⟨7, [], 1, false⟩, none⟩

theorem callSite?_storedField : storedField.callSite? 8 = some fieldCall := rfl

theorem candidates_fieldRun : fieldRun.candidates 8 = OrdSet.ofList [0, 2] := by
  rw [fieldRun_eq]
  show ((storeOf (View.ofProgram storedField).link storedField.modules.toList).linkCandidates
    (View.ofProgram storedField).link).withSignature
      ((View.ofProgram storedField).link.signature 1) = _
  cbv

theorem targets_fieldRun : (fieldRun.refine {} 8).1.targets = OrdSet.ofList [0] := by
  rw [Analysis.fst_refine, candidates_fieldRun, show fieldRun.kept = ∅ from kept_prepared _ _,
    fieldRun_eq]
  show ((View.ofProgram storedField).link.refine ((layerwise.gatheredOf
    (View.ofProgram storedField).link none storedField.modules.toList).linked
      (View.ofProgram storedField).link).facts _ _ _ _).1.targets = _
  cbv

/-- The call is refined and drops `h`, but not `f`. -/
theorem mem_refine_of_stores_field :
    storedField.Valid ∧ storedField.Stores 1 5 ∧ fieldRun.view.definitionOf 1 = 0 ∧
      0 ∈ fieldRun.candidates 8 ∧ 2 ∈ fieldRun.candidates 8 ∧
      0 ∈ (fieldRun.refine {} 8).1.targets ∧ 2 ∉ (fieldRun.refine {} 8).1.targets := by
  have hstored : storedField.Stores 1 5 := by
    refine ⟨⟨1, "b", [1, 2, 3], [0, 1], []⟩, List.mem_cons_of_mem _ List.mem_cons_self,
      3, by decide, 6, ?_, 2, rfl, rfl⟩
    have h : storedField.instructionsOf 3 = [5, 6, 7, 8] := by cbv
    rw [h]
    decide
  have hdefinition : fieldRun.view.definitionOf 1 = 0 := by
    rw [fieldRun_eq]
    show (View.ofProgram storedField).link.definitionOf 1 = 0
    cbv
  have hbaseline : 0 ∈ fieldRun.candidates 8 ∧ 2 ∈ fieldRun.candidates 8 := by
    rw [candidates_fieldRun]
    decide
  have hdropped : 2 ∉ (fieldRun.refine {} 8).1.targets := by
    rw [targets_fieldRun]
    decide
  have hrunning : layerwise.Running storedField fieldRun := .prepared
  have htarget := hrunning.mem_refine_of_stores valid_storedField rfl hstored (by cbv)
    callSite?_storedField rfl (hdefinition.symm ▸ hbaseline.1)
  exact ⟨valid_storedField, hstored, hdefinition, hbaseline.1, hbaseline.2,
    hdefinition ▸ htarget, hdropped⟩

end Strategy

end CallTargets
