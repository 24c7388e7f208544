import CallTargets.Layer.Propagate
import CallTargets.Proofs.Layer.Record
import CallTargets.Proofs.Program.Range

/-!
# What is gathered, record by record

All that a module contributes to the facts about layers is noted record by record. A step of the
gathering notes the same records in runs that are alike where it matters to the step
(`Gathered.Notes`): it depends on the rest by the struct types behind the pointers it asks for, and
by whether the stores it is about were traced.

A store that is traced notes records as well and is remembered. So whatever is gathered only grows,
by records that name functions of the program (`Gathered.Gains`).
-/

namespace CallTargets

variable {v ptr store : ValueId} {f : FunctionId}

namespace View

variable {known known' : OrdMap ValueId ValueId} {v : ValueId}

theorem chain_congr (view : View)
    (h : view.program.baseType? known' v = view.program.baseType? known v) :
    view.chain known' v = view.chain known v := by
  unfold chain Program.typeChain
  rw [h]

theorem cap?_congr (view : View)
    (h : view.program.baseType? known' v = view.program.baseType? known v) :
    view.cap? known' v = view.cap? known v := by
  unfold cap?
  rw [view.chain_congr h]
  unfold Program.typeChain
  rw [h]

end View

namespace Gathered

/-- Nothing is recorded yet, and these conversions are known. -/
def knowing (aliases : OrdMap ValueId ValueId) : Gathered := { aliases }

/-! ## Records that steps note -/

/-- The runs are alike where it matters to a step: the same struct types are behind the pointers it
asks for, and the stores it is about were traced in both or in none. -/
structure Alike (view : View) (asks stores : ValueId → Prop) (g h : Gathered) : Prop where
  bases : ∀ v, asks v → view.program.baseType? h.aliases v = view.program.baseType? g.aliases v
  traced : ∀ v, stores v → (v ∈ h.tracedStores ↔ v ∈ g.tracedStores)

/-- The step notes records that name functions of a kind, and does nothing else. In runs that are
alike it notes the same. -/
def Notes (view : View) (asks stores : ValueId → Prop) (kind : FunctionId → Prop)
    (step : Gathered → Gathered) : Prop :=
  ∀ g h, Alike view asks stores g h → ∃ rs, (∀ r ∈ rs, Record.Names kind r) ∧
    step g = g.record (·.noteAll rs) ∧ step h = h.record (·.noteAll rs)

namespace Notes

variable {view : View} {asks stores : ValueId → Prop} {kind : FunctionId → Prop}
  {step step' : Gathered → Gathered}

theorem skip : Notes view asks stores kind fun g => g := fun _ _ _ =>
  ⟨[], fun _ hr => absurd hr List.not_mem_nil, rfl, rfl⟩

theorem comp (h' : Notes view asks stores kind step') (h : Notes view asks stores kind step) :
    Notes view asks stores kind fun g => step' (step g) := by
  intro g t hgt
  obtain ⟨rs, hrs, hg, ht⟩ := h g t hgt
  obtain ⟨rs', hrs', hg', ht'⟩ :=
    h' (g.record (·.noteAll rs)) (t.record (·.noteAll rs)) ⟨hgt.bases, hgt.traced⟩
  refine ⟨rs ++ rs', fun r hr => (List.mem_append.1 hr).elim (hrs r) (hrs' r), ?_, ?_⟩
  · refine (congrArg step' hg).trans (hg'.trans ?_)
    simp only [record, Facts.noteAll_append]
  · refine (congrArg step' ht).trans (ht'.trans ?_)
    simp only [record, Facts.noteAll_append]

theorem foldl {α : Type} {step : Gathered → α → Gathered} {xs : List α}
    (h : ∀ x ∈ xs, Notes view asks stores kind fun g => step g x) :
    Notes view asks stores kind fun g => xs.foldl step g := by
  induction xs with
  | nil => exact skip
  | cons x xs ih =>
    exact (ih fun y hy => h y (List.mem_cons_of_mem x hy)).comp (h x List.mem_cons_self)

theorem congr (h : Notes view asks stores kind step) (heq : ∀ g, step' g = step g) :
    Notes view asks stores kind step' := (funext heq : step' = step) ▸ h

theorem note {r : Record TypeKey} (hr : r.Names kind) :
    Notes view asks stores kind (·.record (·.note r)) := fun _ _ _ =>
  ⟨[r], fun _ hr' => List.mem_singleton.1 hr' ▸ hr, rfl, rfl⟩

theorem onBase {value : ValueId} (hvalue : asks value)
    {step : Option TypeId → Gathered → Gathered}
    (h : ∀ base, Notes view asks stores kind (step base)) :
    Notes view asks stores kind fun g => step (view.program.baseType? g.aliases value) g := by
  intro g t hgt
  dsimp only
  rw [hgt.bases value hvalue]
  exact h _ g t hgt

theorem unlessTraced (hstore : stores store) (h : Notes view asks stores kind step) :
    Notes view asks stores kind fun g => if store ∈ g.tracedStores then g else step g := by
  intro g t hgt
  dsimp only
  by_cases hmem : store ∈ g.tracedStores
  · rw [if_pos hmem, if_pos ((hgt.traced store hstore).2 hmem)]
    exact skip g t hgt
  · rw [if_neg hmem, if_neg (mt (hgt.traced store hstore).1 hmem)]
    exact h g t hgt

theorem recordChain (hv : asks v) (make : Layer TypeKey → Record TypeKey)
    (hmake : ∀ l, (make l).Names kind) :
    Notes view asks stores kind (·.recordChain view v fun facts l => facts.note (make l)) := by
  have hone (g : Gathered) : g.recordChain view v (fun facts l => facts.note (make l)) =
      g.record (·.noteAll ((view.cap? g.aliases v).toList.map .capped ++
        (view.chain g.aliases v).map make)) := by
    rw [Gathered.recordChain]
    simp only [Facts.noteAll, List.foldl_append, List.foldl_map]
    cases view.cap? g.aliases v <;> rfl
  intro g t hgt
  refine ⟨_, fun r hr => ?_, hone g, ?_⟩
  · rcases List.mem_append.1 hr with hr | hr
    · obtain ⟨k, -, rfl⟩ := List.mem_map.1 hr
      trivial
    · obtain ⟨l, -, rfl⟩ := List.mem_map.1 hr
      exact hmake l
  · dsimp only
    rw [hone, view.cap?_congr (hgt.bases v hv), view.chain_congr (hgt.bases v hv)]

theorem confineTarget {target : ValueId} (htarget : asks target) (hf : kind f) :
    Notes view asks stores kind (·.confineTarget view target f) := by
  unfold Gathered.confineTarget
  by_cases hintrinsic : view.program.isIntrinsic f = true
  · simp only [hintrinsic, if_true]
    exact skip
  · simp only [hintrinsic, if_false, Bool.false_eq_true]
    exact (recordChain htarget (.held · f) fun _ => hf).comp (note (r := .stored f) hf)

theorem propagateTo (hptr : asks ptr) (source : Layer TypeKey) :
    Notes view asks stores kind (·.propagateTo view ptr source) :=
  recordChain hptr (.copied · source) fun _ => trivial

theorem escapeTo (hptr : asks ptr) : Notes view asks stores kind (·.escapeTo view ptr) :=
  recordChain hptr .escaped fun _ => trivial

theorem propagateCast (v : ValueId) : Notes view asks stores kind (·.propagateCast view v) := by
  unfold Gathered.propagateCast
  dsimp only
  split
  · split
    · split
      · exact (note (r := .escaped _) trivial).comp (note (r := .capped _) trivial)
      · exact note (r := .capped _) trivial
    · exact skip
  · exact skip

theorem propagatePointer (hstore : stores store) (hptr : asks ptr) (value : ValueId) :
    Notes view asks stores kind (Gathered.propagatePointer view · store ptr value) := by
  unfold Gathered.propagatePointer
  split
  · split
    · exact skip
    · exact (unlessTraced hstore (escapeTo hptr)).comp (propagateTo hptr _)
  · split
    · exact escapeTo hptr
    · exact skip

theorem propagateStore {value : ValueId} (hstore : stores store) (hptr : asks ptr)
    (hvalue : asks value) :
    Notes view asks stores kind (·.propagateStore view store ptr value) := by
  have hbase : ∀ base : Option TypeId, Notes view asks stores kind fun g => base.elim
      (Gathered.propagatePointer view g store ptr value)
      fun t => g.propagateTo view ptr (view.layer ⟨t, .any⟩) := by
    rintro (_ | t)
    · exact propagatePointer hstore hptr value
    · exact propagateTo hptr _
  simp only [Gathered.propagateStore]
  split
  · exact skip
  · split
    · exact foldl fun l _ => propagateTo hptr (view.layer l)
    · refine (onBase hvalue hbase).congr fun g => ?_
      cases view.program.baseType? g.aliases value <;> rfl

end Notes

end Gathered

/-! ## What steps ask for -/

namespace View

/-- A use of a parameter asks for the struct type behind a pointer: the one that the parameter is
stored through, or a conversion of the parameter. -/
def UseAsks (view : View) (param user v : ValueId) : Prop :=
  view.program.opcode? user = some (.store param v) ∨ v = user ∧ (view.program.bitCast? user).isSome

/-- The parameter that an argument is passed to, in a function that can be told. -/
def Passes (view : View) (call : Call) (arg : ValueId × Nat) (param : ValueId) : Prop :=
  ∃ callee fn, (view.program.baseFunction? call.callee).map view.definitionOf = some callee ∧
    view.program.function? callee = some fn ∧ fn.params[arg.2]? = some param

/-- The pointers whose struct types are asked for when the address of a function is passed. Those
that the uses of a parameter ask for are in other functions. -/
inductive ArgAsks (view : View) (call : Call) (arg : ValueId × Nat) : ValueId → Prop where
  | argument (hcallee : view.program.baseFunction? call.callee = none) : ArgAsks view call arg arg.1
  | used {param user v : ValueId} (hparam : view.Passes call arg param)
      (huser : user ∈ view.program.usersOf param) (hv : view.UseAsks param user v) :
      ArgAsks view call arg v

/-- The pointers whose struct types are asked for when it is the turn of an instruction. -/
inductive InstrAsks (view : View) (v : ValueId) : ValueId → Prop where
  | target {ptr value : ValueId} (hcopy : Gathered.copy? view.program v = some (ptr, value)) :
      InstrAsks view v ptr
  | source {ptr value : ValueId} (hcopy : Gathered.copy? view.program v = some (ptr, value)) :
      InstrAsks view v value
  | passed {call : Call} {arg : ValueId × Nat} {w : ValueId}
      (hcall : view.program.opcode? v = some (.call call)) (harg : arg ∈ call.args.zipIdx)
      (hfunction : ((view.program.value? arg.1).bind Value.function?).isSome)
      (hw : view.ArgAsks call arg w) : InstrAsks view v w

def Names (view : View) (kind : FunctionId → Prop) : Prop :=
  ∀ {v : ValueId} {f : FunctionId},
    (view.program.value? v).map Value.kind = some (.function f) → kind f

theorem names_any (view : View) : view.Names fun _ => True := fun _ => trivial

end View

namespace Gathered

namespace Notes

variable {view : View} {asks stores : ValueId → Prop} {kind : FunctionId → Prop}

theorem propagateInstr (hstore : stores v) (hasks : ∀ w, view.InstrAsks v w → asks w) :
    Notes view asks stores kind (Gathered.propagateInstr view · v) := by
  unfold Gathered.propagateInstr
  split
  · rename_i hcopy
    exact propagateStore hstore (hasks _ (.target hcopy)) (hasks _ (.source hcopy))
  · exact skip

theorem confineUse {param user : ValueId} (hf : kind f)
    (hasks : ∀ w, view.UseAsks param user w → asks w) :
    Notes view asks stores kind (Gathered.confineUse view param f · user) := by
  unfold Gathered.confineUse
  split
  · rename_i value ptr hstore
    split
    · rename_i hvalue
      exact confineTarget (hasks ptr (.inl (hvalue ▸ hstore))) hf
    · exact skip
  · split
    · rename_i hcast
      exact confineTarget (hasks user (.inr ⟨rfl, hcast⟩)) hf
    · exact skip

variable (hkind : view.Names kind)
include hkind

theorem confineArg {call : Call} {arg : ValueId × Nat}
    (hasks : ((view.program.value? arg.1).bind Value.function?).isSome →
      ∀ w, view.ArgAsks call arg w → asks w) :
    Notes view asks stores kind (Gathered.confineArg view call · arg) := by
  unfold Gathered.confineArg
  split
  · rename_i f hpassed
    have hfunction := (Option.filter_eq_some_iff.1 hpassed).1
    have hf : kind f := hkind (Program.function?_bind_eq_some_iff.1 hfunction)
    have hasks' := hasks (hfunction ▸ rfl)
    split
    · rename_i hcallee
      exact confineTarget (hasks' _ (.argument (Option.map_eq_none_iff.1 hcallee))) hf
    · rename_i callee hcallee
      split
      · rename_i fn hfn
        split
        · rename_i param hparam
          refine foldl fun user huser => confineUse hf fun w hw => ?_
          exact hasks' w (.used
            ⟨callee, fn, hcallee, (Option.filter_eq_some_iff.1 hfn).1, hparam⟩ huser hw)
        · exact skip
      · exact skip
  · exact skip

theorem confineInstr (hasks : ∀ w, view.InstrAsks v w → asks w) :
    Notes view asks stores kind (Gathered.confineInstr view none · v) := by
  unfold Gathered.confineInstr
  split
  · rename_i value ptr hstore
    have hcopy : copy? view.program v = some (ptr, value) := by
      unfold copy?
      rw [hstore]
    unfold Gathered.confineStore
    split
    · rename_i f hbase
      exact confineTarget (hasks ptr (.target hcopy))
        (hkind (Program.function?_bind_eq_some_iff.1 hbase))
    · split
      · exact skip
      · exact skip
  · rename_i call hcall
    exact foldl fun arg harg => confineArg hkind fun hfunction w hw =>
      hasks w (.passed hcall harg hfunction hw)
  · exact skip

theorem function (hasks : ∀ v ∈ view.program.instructionsOf f, ∀ w, view.InstrAsks v w → asks w)
    (hstores : ∀ v ∈ view.program.instructionsOf f, stores v) :
    Notes view asks stores kind fun g => (g.confineIn view none f).propagateIn view f :=
  ((foldl fun v _ => propagateCast v).comp
    (foldl fun v hv => propagateInstr (hstores v hv) (hasks v hv))).comp
      (foldl fun v hv => confineInstr hkind (hasks v hv))

/-! ### Initial values -/

theorem kind_of_element {container : ValueId} (h : element view.program container v = .function f) :
    kind f := by
  unfold element convertedElement plainElement at h
  split at h
  · rename_i hfunction
    cases h
    exact hkind (Program.function?_bind_eq_some_iff.1 hfunction)
  · repeat' split at h
    all_goals cases h
    all_goals exact hkind ‹_›

theorem visitElement (v : ValueId) (e : ValueId × Nat) (s : Containers × List ValueId) :
    ∃ rs, (∀ r ∈ rs, Record.Names kind r) ∧ ∀ facts, Gathered.visitElement view v (facts, s) e =
      (facts.noteAll rs, (Gathered.visitElement view v ({}, s) e).2) := by
  unfold Gathered.visitElement
  cases helement : element view.program v e.1 with
  | function f =>
    have hf : kind f := kind_of_element hkind helement
    dsimp only
    unfold confineElement
    split
    · exact ⟨[], by simp, fun _ => rfl⟩
    · refine ⟨.stored f :: (Containers.around (s.1.insert e.1 (v, e.2)) e.1).map fun e =>
        .held ⟨view.typeKey (view.program.typeOf e.1), .nth e.2⟩ f, ?_, fun facts => ?_⟩
      · intro r hr
        rcases List.mem_cons.1 hr with rfl | hr
        · exact hf
        · obtain ⟨_, -, rfl⟩ := List.mem_map.1 hr
          exact hf
      · simp only [Facts.noteAll, List.foldl_cons, List.foldl_map]
        rfl
  | nested inner => exact ⟨[], by simp, fun _ => rfl⟩
  | capped t => exact ⟨[.capped (view.typeKey t)], by simp [Record.Names], fun _ => rfl⟩
  | other => exact ⟨[], by simp, fun _ => rfl⟩

theorem visitElements (v : ValueId) (es : List (ValueId × Nat)) (s : Containers × List ValueId) :
    ∃ rs s', (∀ r ∈ rs, Record.Names kind r) ∧
      ∀ facts, es.foldl (Gathered.visitElement view v) (facts, s) = (facts.noteAll rs, s') := by
  induction es generalizing s with
  | nil => exact ⟨[], s, by simp, fun _ => rfl⟩
  | cons e es ih =>
    obtain ⟨rs, hrs, hfirst⟩ := visitElement hkind v e s
    obtain ⟨rs', s', hrs', hrest⟩ := ih (Gathered.visitElement view v ({}, s) e).2
    refine ⟨rs ++ rs', s', fun r hr => (List.mem_append.1 hr).elim (hrs r) (hrs' r), ?_⟩
    intro facts
    rw [List.foldl_cons, hfirst, hrest, Facts.noteAll_append]

theorem confineInit (id : GlobalId) : Notes view asks stores kind (·.confineInit view id) := by
  -- the way through an initial value does not depend on the facts
  have hsearch (init : ValueId) (a b : Facts TypeKey) : ∃ rs s, (∀ r ∈ rs, Record.Names kind r) ∧
      (aggregateSearch view).explore view.program.valueIds [init] (a, ∅) = (a.noteAll rs, s) ∧
      (aggregateSearch view).explore view.program.valueIds [init] (b, ∅) = (b.noteAll rs, s) := by
    refine Search.explore_rel (R := fun s t : Facts TypeKey × Containers => ∃ rs c,
      (∀ r ∈ rs, Record.Names kind r) ∧ s = (a.noteAll rs, c) ∧ t = (b.noteAll rs, c)) ?_
      (fun _ _ _ h => h) _ _ ⟨[], ∅, by simp, rfl, rfl⟩
    rintro _ _ v ⟨rs, c, hrs, rfl, rfl⟩
    obtain ⟨rs', s', hrs', hnotes⟩ := visitElements hkind v
      ((view.program.elements? v).getD []).zipIdx (c, [])
    refine ⟨_, _, s'.2, ?_, ?_, rs ++ rs', s'.1,
      fun r hr => (List.mem_append.1 hr).elim (hrs r) (hrs' r), rfl, rfl⟩
    · simp only [aggregateSearch, visitAggregate, hnotes, Facts.noteAll_append]
    · simp only [aggregateSearch, visitAggregate, hnotes, Facts.noteAll_append]
  unfold Gathered.confineInit
  split
  · split
    · exact skip
    · intro g t _
      obtain ⟨rs, s, hrs, hg, ht⟩ := hsearch _ g.facts t.facts
      exact ⟨rs, hrs, congrArg (fun s => { g with facts := s.1 }) hg,
        congrArg (fun s => { t with facts := s.1 }) ht⟩
  · exact skip

end Notes

/-! ## What is gathered only grows -/

/-- The second is the first with more records, which name functions of a kind, and with more stores
traced. -/
structure Gains (kind : FunctionId → Prop) (g g' : Gathered) : Prop where
  traced : ∀ v ∈ g.tracedStores, v ∈ g'.tracedStores
  noted : ∃ rs, (∀ r ∈ rs, Record.Names kind r) ∧ g'.facts = g.facts.noteAll rs

section Steps

variable {view : View} {asks stores : ValueId → Prop} {kind : FunctionId → Prop}
  {step : Gathered → Gathered} {g g' g'' : Gathered}

theorem Notes.aliases (h : Notes view asks stores kind step) (g : Gathered) :
    (step g).aliases = g.aliases := by
  obtain ⟨rs, -, hg, -⟩ := h g g ⟨fun _ _ => rfl, fun _ _ => Iff.rfl⟩
  rw [hg, record]

theorem Notes.tracedStores (h : Notes view asks stores kind step) (g : Gathered) :
    (step g).tracedStores = g.tracedStores := by
  obtain ⟨rs, -, hg, -⟩ := h g g ⟨fun _ _ => rfl, fun _ _ => Iff.rfl⟩
  rw [hg, record]

/-- A step adds to the facts what it notes in a run that is alike, but where nothing is recorded
yet. -/
theorem Notes.has_iff (h : Notes view asks stores kind step) (halike : Alike view asks stores g g')
    (hempty : g'.facts = {}) (r : Record TypeKey) :
    (step g).facts.Has r ↔ g.facts.Has r ∨ (step g').facts.Has r := by
  obtain ⟨rs, -, hg, hg'⟩ := h g g' halike
  rw [hg, hg', record, record, hempty, Facts.has_noteAll, Facts.has_noteAll,
    or_iff_right Facts.not_has_empty]

namespace Gains

theorem has (h : g.Gains kind g') {r : Record TypeKey} (hr : g.facts.Has r) : g'.facts.Has r := by
  obtain ⟨rs, -, hfacts⟩ := h.noted
  rw [hfacts]
  exact Facts.has_noteAll.2 (.inl hr)

theorem refl (g : Gathered) : g.Gains kind g := ⟨fun _ h => h, [], by simp, rfl⟩

theorem trans (h : g.Gains kind g') (h' : g'.Gains kind g'') : g.Gains kind g'' := by
  obtain ⟨rs, hrs, hfacts⟩ := h.noted
  obtain ⟨rs', hrs', hfacts'⟩ := h'.noted
  refine ⟨fun v hv => h'.traced v (h.traced v hv), rs ++ rs',
    fun r hr => (List.mem_append.1 hr).elim (hrs r) (hrs' r), ?_⟩
  rw [hfacts', hfacts, Facts.noteAll_append]

theorem foldl {α : Type} {step : Gathered → α → Gathered}
    (hstep : ∀ (g : Gathered) (x : α), g.Gains kind (step g x)) (xs : List α) (g : Gathered) :
    g.Gains kind (xs.foldl step g) :=
  List.foldlRecOn xs step (refl g) fun g' hg' x _ => hg'.trans (hstep g' x)

theorem of_notes (h : Notes view asks stores kind step) (g : Gathered) :
    g.Gains kind (step g) := by
  refine ⟨fun v hv => by rwa [h.tracedStores], ?_⟩
  obtain ⟨rs, hrs, hg, -⟩ := h g g ⟨fun _ _ => rfl, fun _ _ => Iff.rfl⟩
  exact ⟨rs, hrs, congrArg Gathered.facts hg⟩

theorem collectAliases (p : Program) (g : Gathered) (f : FunctionId) :
    g.Gains kind (g.collectAliases p f) := ⟨fun _ h => h, [], by simp, rfl⟩

end Gains

end Steps

end Gathered

def View.Traces (view : View) (flow : Option Flow) (kind : FunctionId → Prop) : Prop :=
  ∀ {value : ValueId} {trace : Trace}, flow.bind (view.trace? · value) = some trace →
    ∀ f ∈ trace.functions, kind f

theorem View.traces_any (view : View) (flow : Option Flow) : view.Traces flow fun _ => True :=
  fun _ _ _ => trivial

namespace Gathered

section Modules

variable {view : View} {flow : Option Flow} {kind : FunctionId → Prop} (hkind : view.Names kind)
  (htraces : view.Traces flow kind)
include hkind htraces

theorem gains_confineInstr (g : Gathered) (v : ValueId) :
    g.Gains kind (confineInstr view flow g v) ∧
      (confineInstr view flow g v).aliases = g.aliases := by
  have hnotes {step : Gathered → Gathered}
      (hstep : Notes view (fun _ => True) (fun _ => True) kind step) :
      g.Gains kind (step g) ∧ (step g).aliases = g.aliases := ⟨.of_notes hstep g, hstep.aliases g⟩
  unfold confineInstr
  split
  · unfold confineStore
    split
    · rename_i hbase
      exact hnotes (.confineTarget trivial (hkind (Program.function?_bind_eq_some_iff.1 hbase)))
    · split
      · exact hnotes .skip
      · split
        · rename_i trace htrace
          split
          · exact hnotes .skip
          · obtain ⟨⟨htraced, hnoted⟩, haliases⟩ := hnotes (.foldl fun f hf =>
              .confineTarget trivial (htraces htrace f hf))
            exact ⟨⟨fun v hv => OrdSet.mem_insert.2 (.inl (htraced v hv)), hnoted⟩, haliases⟩
        · exact hnotes .skip
  · exact hnotes (.foldl fun arg _ => .confineArg hkind fun _ _ _ => trivial)
  · exact hnotes .skip

theorem gains_confineIn (g : Gathered) (f : FunctionId) :
    g.Gains kind (g.confineIn view flow f) ∧ (g.confineIn view flow f).aliases = g.aliases :=
  ⟨.foldl (fun g v => (gains_confineInstr hkind htraces g v).1) _ g,
    List.foldlRecOn (motive := fun g' : Gathered => g'.aliases = g.aliases) _ _ rfl
      fun g' hg' v _ => (gains_confineInstr hkind htraces g' v).2.trans hg'⟩

omit hkind htraces in
theorem notes_propagateIn (f : FunctionId) :
    Notes view (fun _ => True) (fun _ => True) kind (·.propagateIn view f) :=
  (Notes.foldl fun v _ => .propagateCast v).comp
    (.foldl fun _ _ => .propagateInstr trivial fun _ _ => trivial)

theorem gains_function (g : Gathered) (f : FunctionId) :
    g.Gains kind (function view flow g f) :=
  (Gains.collectAliases _ g f).trans
    ((gains_confineIn hkind htraces _ f).1.trans (.of_notes (notes_propagateIn f) _))

theorem gains_module (g : Gathered) (m : Module) : g.Gains kind (g.module view flow m) := by
  have hinits : Notes view (fun _ => True) (fun _ => True) kind fun g =>
      m.globals.foldl (fun g id => g.confineInit view id) g :=
    .foldl fun id _ => .confineInit hkind id
  rw [Gathered.module]
  exact (Gains.of_notes hinits g).trans (.foldl (gains_function hkind htraces) _ _)

end Modules

end Gathered

end CallTargets
