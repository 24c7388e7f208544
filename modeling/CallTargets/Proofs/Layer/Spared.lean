import CallTargets.Proofs.Analysis.Precision

/-!
# What tracing stores changes

A run that traces the function pointers that are stored is compared with one that does not.
Both take the same steps but for stores of pointers that can be traced: one run confines the
functions found, and the other one lets the layers behind the store escape
(`Gathered.Lockstep`). Confining caps the type around these layers, which happens in the other
run as well, only later: when the copies of the same function are recorded
(`Gathered.Lockstep.function`). So the runs end with the same copies and the same capped types
(`Config.dataflow_spares`).
-/

namespace CallTargets

theorem prefix_induction {α : Type} {xs : List α} {P : List α → Prop} (nil : P [])
    (append : ∀ before x after, xs = before ++ x :: after → P before → P (before ++ [x])) :
    P xs := by
  have hprefix : ∀ after before, xs = before ++ after → P before → P xs := by
    intro after
    induction after with
    | nil =>
      intro before hxs hbefore
      rwa [hxs, List.append_nil]
    | cons x after ih =>
      intro before hxs hbefore
      refine ih (before ++ [x]) ?_ (append before x after hxs hbefore)
      rw [hxs, List.append_assoc]
      rfl
  exact hprefix xs [] rfl nil

/-! ## Facts side by side -/

namespace Facts

variable {κ : Type} [DecidableEq κ]

/-- The second facts differ from the first ones in that more functions are held, that layers
are spared from escaping, and that types are capped early. -/
structure Spares (spared : Layer κ → Prop) (early : κ → Prop) (a b : Facts κ) : Prop where
  propagated : b.propagated = a.propagated
  capped : ∀ t ∈ a.capped, t ∈ b.capped
  early : ∀ t ∈ b.capped, t ∈ a.capped ∨ early t
  held : ∀ l, ∀ f ∈ a.held l, f ∈ b.held l
  escaped : ∀ l ∈ b.escaped, l ∈ a.escaped
  spared : ∀ l ∈ a.escaped, l ∈ b.escaped ∨ spared l

variable {spared : Layer κ → Prop} {early early' : κ → Prop} {a b : Facts κ} {l : Layer κ} {t : κ}
  {f : FunctionId}

theorem held_propagate (a : Facts κ) (target source l : Layer κ) :
    (a.propagate target source).held l = a.held l := by
  unfold propagate
  split
  · rfl
  · rfl

theorem capped_propagate (a : Facts κ) (target source : Layer κ) :
    (a.propagate target source).capped = a.capped := by
  unfold propagate
  split
  · rfl
  · rfl

theorem escaped_propagate (a : Facts κ) (target source : Layer κ) :
    (a.propagate target source).escaped = a.escaped := by
  unfold propagate
  split
  · rfl
  · rfl

namespace Spares

theorem refl (a : Facts κ) : a.Spares spared early a :=
  ⟨rfl, fun _ h => h, fun _ h => .inl h, fun _ _ h => h, fun _ h => h, fun _ h => .inl h⟩

theorem mono (h : a.Spares spared early b) (hearly : ∀ t, early t → t ∈ a.capped ∨ early' t) :
    a.Spares spared early' b :=
  { h with early := fun t ht => (h.early t ht).elim .inl (hearly t) }

/-! ### On one side -/

theorem confine_right (h : a.Spares spared early b) (l : Layer κ) (f : FunctionId) :
    a.Spares spared early (b.confine l f) :=
  { h with held := fun l' f' hf' => mem_held_confine.2 (.inl (h.held l' f' hf')) }

theorem markStored_right (h : a.Spares spared early b) (f : FunctionId) :
    a.Spares spared early (b.markStored f) := { h with }

theorem cap_right (h : a.Spares spared early b) (ht : t ∈ a.capped ∨ early t) :
    a.Spares spared early (b.cap t) where
  propagated := h.propagated
  capped t' ht' := OrdSet.mem_insert.2 (.inl (h.capped t' ht'))
  early t' ht' := by
    rcases OrdSet.mem_insert.1 ht' with ht' | rfl
    · exact h.early t' ht'
    · exact ht
  held := h.held
  escaped := h.escaped
  spared := h.spared

theorem cap_left (h : a.Spares spared early b) (ht : t ∈ b.capped) :
    (a.cap t).Spares spared early b where
  propagated := h.propagated
  capped t' ht' := by
    rcases OrdSet.mem_insert.1 ht' with ht' | rfl
    · exact h.capped t' ht'
    · exact ht
  early t' ht' := (h.early t' ht').imp_left fun ht' => OrdSet.mem_insert.2 (.inl ht')
  held := h.held
  escaped := h.escaped
  spared := h.spared

theorem escape_left (h : a.Spares spared early b) (hl : spared l) :
    (a.escape l).Spares spared early b where
  propagated := h.propagated
  capped := h.capped
  early := h.early
  held := h.held
  escaped l' hl' := OrdSet.mem_insert.2 (.inl (h.escaped l' hl'))
  spared l' hl' := by
    rcases OrdSet.mem_insert.1 hl' with hl' | rfl
    · exact h.spared l' hl'
    · exact .inr hl

/-! ### On both sides -/

theorem cap (h : a.Spares spared early b) (t : κ) : (a.cap t).Spares spared early (b.cap t) := by
  have hboth : a.Spares spared (fun t' => early t' ∨ t' = t) (b.cap t) :=
    (h.mono fun t' ht' => .inr (.inl ht')).cap_right (.inr (.inr rfl))
  refine (hboth.cap_left (OrdSet.mem_insert.2 (.inr rfl))).mono ?_
  rintro t' (ht' | rfl)
  · exact .inr ht'
  · exact .inl (OrdSet.mem_insert.2 (.inr rfl))

theorem escape (h : a.Spares spared early b) (l : Layer κ) :
    (a.escape l).Spares spared early (b.escape l) where
  propagated := h.propagated
  capped := h.capped
  early := h.early
  held := h.held
  escaped l' hl' :=
    OrdSet.mem_insert.2 ((OrdSet.mem_insert.1 hl').imp_left (h.escaped l'))
  spared l' hl' := by
    rcases OrdSet.mem_insert.1 hl' with hl' | rfl
    · exact (h.spared l' hl').imp_left fun hl' => OrdSet.mem_insert.2 (.inl hl')
    · exact .inl (OrdSet.mem_insert.2 (.inr rfl))

theorem propagate (h : a.Spares spared early b) (target source : Layer κ) :
    (a.propagate target source).Spares spared early (b.propagate target source) where
  propagated := by
    unfold Facts.propagate
    split
    · exact h.propagated
    · exact congrArg (fun m : OrdMap (Layer κ) (OrdSet (Layer κ)) =>
        m.alter target fun sources => (sources.getD ∅).insert source) h.propagated
  capped := by
    rw [capped_propagate, capped_propagate]
    exact h.capped
  early := by
    rw [capped_propagate, capped_propagate]
    exact h.early
  held l f hf := by
    rw [held_propagate] at hf ⊢
    exact h.held l f hf
  escaped := by
    rw [escaped_propagate, escaped_propagate]
    exact h.escaped
  spared := by
    rw [escaped_propagate, escaped_propagate]
    exact h.spared

theorem confine (h : a.Spares spared early b) (l : Layer κ) (f : FunctionId) :
    (a.confine l f).Spares spared early (b.confine l f) :=
  { h with
    held := fun l' f' hf' => mem_held_confine.2 ((mem_held_confine.1 hf').imp_left (h.held l' f')) }

theorem note (h : a.Spares spared early b) (r : Record κ) :
    (a.note r).Spares spared early (b.note r) := by
  cases r with
  | held l f => exact h.confine l f
  | copied target source => exact h.propagate target source
  | escaped l => exact h.escape l
  | capped t => exact h.cap t
  | stored f => exact { h with }

theorem noteAll (h : a.Spares spared early b) (rs : List (Record κ)) :
    (a.noteAll rs).Spares spared early (b.noteAll rs) :=
  List.foldl_rel h fun r _ _ _ h => h.note r

end Spares

end Facts

/-! ## Stores that can be traced -/

/-- The function pointer is no address of a function by itself, and can be traced to some. -/
def View.IsTraced (view : View) (flow : Flow) (value : ValueId) : Prop :=
  view.program.baseFunction? value = none ∧
    (view.program.functionPointee? (view.program.strip value)).isSome ∧
    ∃ trace, view.trace? flow value = some trace ∧ trace.functions.isEmpty = false

theorem View.IsTraced.not_isSettled {view : View} {flow : Flow} {value : ValueId}
    (h : view.IsTraced flow value) : Gathered.isSettled view.program value = false := by
  obtain ⟨-, -, trace, htrace, hnonempty⟩ := h
  obtain ⟨f, hf⟩ := List.exists_mem_of_ne_nil trace.functions.toList
    (List.isEmpty_eq_false_iff.1 hnonempty)
  obtain ⟨u, functions, hfrom, hbrings, hf⟩ := View.mem_functions_of_trace? htrace hf
  by_contra hsettled
  rw [Bool.not_eq_false, Gathered.isSettled, Option.any_eq_true] at hsettled
  obtain ⟨c, hc, hdata⟩ := hsettled
  have hkind := Program.const?_eq_some_iff.1 hc
  -- nothing is behind such a constant, so it would have to bring the function itself
  have hends : view.origins value = [] := by
    cases c with
    | cast op operand => cases hdata
    | _ => simp only [View.origins, hkind]
  have hu : u = value := by
    cases hfrom.cases_head with
    | inl heq => exact heq.symm
    | inr hstep =>
      obtain ⟨w, hw, -⟩ := hstep
      rw [Search.Leads, hends] at hw
      exact absurd hw List.not_mem_nil
  rcases View.mem_of_brings hbrings hf with ⟨g, hg, -⟩ | ⟨g, place, hg, -⟩
  · rw [hu, hkind] at hg
    cases hg
  · rw [hu, hkind] at hg
    cases hg

namespace Gathered

variable {view : View} {flow : Flow} {spared : Layer TypeKey → Prop} {early : TypeKey → Prop}
  {g t : Gathered} {store value ptr v : ValueId} {f : FunctionId}

theorem spares_confineTarget (h : g.facts.Spares spared early t.facts)
    (hearly : ∀ k, view.cap? t.aliases ptr = some k → early k) (f : FunctionId) :
    g.facts.Spares spared early (t.confineTarget view ptr f).facts := by
  unfold confineTarget
  split
  · exact h
  · rw [recordChain]
    refine List.foldlRecOn (motive := fun facts => g.facts.Spares spared early facts) _ _ ?_
      fun _ hfacts l _ => hfacts.confine_right l f
    have hmark : g.facts.Spares spared early (t.facts.markStored f) := h.markStored_right f
    cases hcap : view.cap? t.aliases ptr with
    | none => simpa [record, hcap, Facts.capAny] using hmark
    | some k =>
      have hright := hmark.cap_right (.inr (hearly k hcap))
      simpa [record, hcap, Facts.capAny] using hright

theorem spares_escapeTo (h : g.facts.Spares spared early t.facts)
    (hcapped : ∀ k, view.cap? g.aliases ptr = some k → k ∈ t.facts.capped)
    (hspared : ∀ l ∈ view.chain g.aliases ptr, spared l) :
    (g.escapeTo view ptr).facts.Spares spared early t.facts := by
  rw [escapeTo, recordChain]
  refine List.foldlRecOn (motive := (Facts.Spares spared early · t.facts)) _ _ ?_
    fun _ hfacts l hl => hfacts.escape_left (hspared l hl)
  cases hcap : view.cap? g.aliases ptr with
  | none => exact h
  | some k => exact h.cap_left (hcapped k hcap)

theorem mem_capped_propagateTo {k : TypeKey} (hk : view.cap? g.aliases ptr = some k)
    (source : Layer TypeKey) : k ∈ (g.propagateTo view ptr source).facts.capped := by
  rw [propagateTo, recordChain, hk]
  refine List.foldlRecOn (motive := fun facts : Facts TypeKey => k ∈ facts.capped) _ _
    (OrdSet.mem_insert.2 (.inr rfl)) fun facts hfacts l _ => ?_
  rwa [Facts.capped_propagate]

/-- A run that does not trace stores, and one that does, at the same point. -/
structure Lockstep (view : View) (spared : Layer TypeKey → Prop) (early : TypeKey → Prop)
    (g t : Gathered) : Prop where
  aliases : t.aliases = g.aliases
  untraced : g.tracedStores = ∅
  stores : ∀ v ∈ t.tracedStores, (view.program.store? v).isSome
  facts : g.facts.Spares spared early t.facts

namespace Lockstep

theorem noting {stores : ValueId → Prop} (h : Lockstep view spared early g t)
    (hstores : ∀ v, stores v → v ∉ t.tracedStores) {step : Gathered → Gathered}
    (hstep : Notes view (fun _ => True) stores (fun _ => True) step) :
    Lockstep view spared early (step g) (step t) := by
  have halike : Alike view (fun _ => True) stores g t := by
    refine ⟨fun v _ => by rw [h.aliases], fun v hv => iff_of_false (hstores v hv) ?_⟩
    rw [h.untraced]
    exact OrdSet.not_mem_empty v
  obtain ⟨rs, -, hg, ht⟩ := hstep g t halike
  rw [hg, ht]
  exact ⟨h.aliases, h.untraced, h.stores, h.facts.noteAll rs⟩

theorem common (h : Lockstep view spared early g t) {step : Gathered → Gathered}
    (hstep : Notes view (fun _ => True) (fun _ => False) (fun _ => True) step) :
    Lockstep view spared early (step g) (step t) := h.noting (fun _ hv => hv.elim) hstep

theorem mono {early' : TypeKey → Prop} (h : Lockstep view spared early g t)
    (hearly : ∀ k, early k → k ∈ g.facts.capped ∨ early' k) :
    Lockstep view spared early' g t := { h with facts := h.facts.mono hearly }

theorem collectAliases (h : Lockstep view spared early g t) (f : FunctionId) :
    Lockstep view spared early (g.collectAliases view.program f)
      (t.collectAliases view.program f) := by
  rw [Gathered.collectAliases, Gathered.collectAliases, h.aliases]
  exact { h with aliases := rfl }

theorem confineStore (h : Lockstep view spared early g t)
    (hstore : view.program.store? store = some (value, ptr))
    (hearly : view.IsTraced flow value → ∀ k, view.cap? t.aliases ptr = some k → early k) :
    Lockstep view spared early (g.confineStore view none store value ptr)
      (t.confineStore view (some flow) store value ptr) := by
  unfold Gathered.confineStore
  cases hbase : view.program.baseFunction? value with
  | some f => exact h.common (.confineTarget trivial trivial)
  | none =>
    cases hpointee : view.program.functionPointee? (view.program.strip value) with
    | none => exact h
    | some pointee =>
      cases htrace : view.trace? flow value with
      | none => simpa [htrace] using h
      | some trace =>
        by_cases hempty : trace.functions.isEmpty = true
        · simpa [htrace, hempty] using h
        · have htraced : view.IsTraced flow value :=
            ⟨hbase, by simp [hpointee], trace, htrace, by simpa using hempty⟩
          have hconfined := List.foldlRecOn (motive := fun t' : Gathered =>
              t'.aliases = t.aliases ∧ t'.tracedStores = t.tracedStores ∧
                g.facts.Spares spared early t'.facts) trace.functions.toList
            (fun t f => t.confineTarget view ptr f) (b := t) ⟨rfl, rfl, h.facts⟩ ?_
          · obtain ⟨haliases, hstores, hfacts⟩ := hconfined
            simp only [Option.isNone_some, Bool.false_eq_true, if_false, Option.bind_none,
              Option.bind_some, htrace, hempty]
            refine ⟨haliases.trans h.aliases, h.untraced, ?_, hfacts⟩
            intro v hv
            rcases OrdSet.mem_insert.1 hv with hv | rfl
            · exact h.stores v (hstores ▸ hv)
            · rw [hstore]
              rfl
          · rintro t' ⟨haliases, hstores, hfacts⟩ f -
            have hstep : Notes view (fun _ => True) (fun _ => False) (fun _ => True)
                (·.confineTarget view ptr f) := .confineTarget trivial trivial
            refine ⟨(hstep.aliases t').trans haliases, (hstep.tracedStores t').trans hstores, ?_⟩
            exact spares_confineTarget hfacts (haliases ▸ hearly htraced) f

theorem confineInstr (h : Lockstep view spared early g t)
    (hearly : ∀ value ptr, view.program.store? v = some (value, ptr) →
      view.IsTraced flow value → ∀ k, view.cap? t.aliases ptr = some k → early k) :
    Lockstep view spared early (confineInstr view none g v)
      (Gathered.confineInstr view (some flow) t v) := by
  unfold Gathered.confineInstr
  split
  · rename_i value ptr hop
    have hstore : view.program.store? v = some (value, ptr) := by rw [Program.store?, hop]
    exact h.confineStore hstore (hearly value ptr hstore)
  · exact h.common (.foldl fun _ _ => .confineArg (fun _ => trivial) fun _ _ _ => trivial)
  · exact h

theorem propagateTraced (h : Lockstep view spared early g t) (htraced : store ∈ t.tracedStores)
    (source : Layer TypeKey) (hspared : ∀ l ∈ view.chain t.aliases ptr, spared l) :
    Lockstep view spared early
      (if store ∈ (g.propagateTo view ptr source).tracedStores then g.propagateTo view ptr source
        else (g.propagateTo view ptr source).escapeTo view ptr)
      (if store ∈ (t.propagateTo view ptr source).tracedStores then t.propagateTo view ptr source
        else (t.propagateTo view ptr source).escapeTo view ptr) := by
  have hcommon : Notes view (fun _ => True) (fun _ => False) (fun _ => True)
      (·.propagateTo view ptr source) := .propagateTo trivial source
  have hescaped : Notes view (fun _ => True) (fun _ => False) (fun _ => True)
      (·.escapeTo view ptr) := .escapeTo trivial
  have hcopied := h.common hcommon
  rw [hcommon.tracedStores, hcommon.tracedStores, if_pos htraced, h.untraced,
    if_neg (OrdSet.not_mem_empty store)]
  refine ⟨?_, ?_, hcopied.stores, spares_escapeTo hcopied.facts ?_ ?_⟩
  · rw [hescaped.aliases, hcopied.aliases]
  · rw [hescaped.tracedStores, hcopied.untraced]
  · intro k hk
    rw [hcommon.aliases, ← h.aliases] at hk
    exact mem_capped_propagateTo hk source
  · rw [hcommon.aliases, ← h.aliases]
    exact hspared

/-- Copies are recorded in both runs. Behind a pointer that was traced, layers escape in one
run only. -/
theorem propagateStore (h : Lockstep view spared early g t)
    (hspared : store ∈ t.tracedStores → ∀ l ∈ view.chain t.aliases ptr, spared l) :
    Lockstep view spared early (g.propagateStore view store ptr value)
      (t.propagateStore view store ptr value) := by
  by_cases htraced : store ∈ t.tracedStores
  · rw [Gathered.propagateStore, Gathered.propagateStore, h.aliases]
    split
    · exact h
    · split
      · exact h.common (.foldl fun l _ => .propagateTo trivial (view.layer l))
      · split
        · exact h.common (.propagateTo trivial _)
        · unfold propagatePointer
          split
          · rename_i pointee _
            split
            · exact h
            · exact h.propagateTraced htraced (view.layer ⟨pointee, .any⟩) (hspared htraced)
          · split
            · exact h.common (.escapeTo trivial)
            · exact h
  · have huntraced : ∀ v, v = store → v ∉ t.tracedStores := by
      rintro _ rfl
      exact htraced
    exact h.noting huntraced (.propagateStore rfl trivial trivial)

theorem propagateInstr (h : Lockstep view spared early g t)
    (hspared : ∀ value ptr, view.program.store? v = some (value, ptr) → v ∈ t.tracedStores →
      ∀ l ∈ view.chain t.aliases ptr, spared l) :
    Lockstep view spared early (propagateInstr view g v) (Gathered.propagateInstr view t v) := by
  unfold Gathered.propagateInstr
  split
  · rename_i ptr value hcopy
    refine h.propagateStore fun hv => ?_
    obtain ⟨⟨value', ptr'⟩, hstore⟩ := Option.isSome_iff_exists.1 (h.stores v hv)
    rw [copy?, Program.opcode?_of_store? hstore] at hcopy
    cases hcopy
    exact hspared value ptr hstore hv
  · exact h

end Lockstep

/-! ## Functions -/

theorem mem_capped_propagateStore (htraced : view.IsTraced flow value) {k : TypeKey}
    (hk : view.cap? g.aliases ptr = some k) :
    k ∈ (g.propagateStore view store ptr value).facts.capped := by
  have hcopied (source : Layer TypeKey) : k ∈ (g.propagateTo view ptr source).facts.capped :=
    mem_capped_propagateTo hk source
  have hlater {step : Gathered → Gathered} (g : Gathered) (hg : k ∈ g.facts.capped)
      (hstep : Notes view (fun _ => True) (fun _ => True) (fun _ => True) step) :
      k ∈ (step g).facts.capped := (Gains.of_notes hstep g).has (r := .capped k) hg
  rw [Gathered.propagateStore, htraced.not_isSettled, if_neg Bool.false_ne_true]
  split
  · exact hlater _ (hcopied _) (.foldl fun l _ => .propagateTo trivial (view.layer l))
  · split
    · exact hcopied _
    · obtain ⟨hbase, hpointee, -⟩ := htraced
      obtain ⟨pointee, hpointee⟩ := Option.isSome_iff_exists.1 hpointee
      unfold propagatePointer
      simp only [hpointee, hbase, Option.isSome_none, Bool.false_eq_true, if_false]
      split
      · exact hcopied _
      · exact hlater _ (hcopied _) (.escapeTo trivial)

end Gathered

/-- The type is capped behind the target of a store whose pointer can be traced. -/
def View.CapsBehind (view : View) (flow : Flow) (aliases : OrdMap ValueId ValueId) (f : FunctionId)
    (k : TypeKey) : Prop :=
  ∃ v ∈ view.program.instructionsOf f, ∃ value ptr, view.program.store? v = some (value, ptr) ∧
    view.IsTraced flow value ∧ view.cap? aliases ptr = some k

namespace Gathered

variable {view : View} {flow : Flow} {spared : Layer TypeKey → Prop} {early : TypeKey → Prop}
  {g t : Gathered} {f : FunctionId}

theorem mem_capped_propagateIn {k : TypeKey} (hk : view.CapsBehind flow g.aliases f k) :
    k ∈ (g.propagateIn view f).facts.capped := by
  obtain ⟨v, hv, value, ptr, hstore, htraced, hcap⟩ := hk
  have hcasts : Notes view (fun _ => True) (fun _ => True) (fun _ => True) fun g =>
      (conversions view.program f).toList.foldl (fun g v => g.propagateCast view v) g :=
    .foldl fun v _ => .propagateCast v
  have hinstr (w : ValueId) : Notes view (fun _ => True) (fun _ => True) (fun _ => True)
      (propagateInstr view · w) := .propagateInstr trivial fun _ _ => trivial
  rw [Gathered.propagateIn]
  refine (Gains.of_notes hcasts _).has (r := .capped k) ?_
  refine foldl_of_mem_of_inv (I := fun g' : Gathered => g'.aliases = g.aliases)
    (P := fun g' : Gathered => k ∈ g'.facts.capped) hv rfl ?_ ?_ ?_
  · intro g' w _ haliases
    rw [(hinstr w).aliases, haliases]
  · intro g' haliases
    have hcopy : copy? view.program v = some (ptr, value) := by
      rw [copy?, Program.opcode?_of_store? hstore]
    rw [propagateInstr, hcopy]
    exact mem_capped_propagateStore htraced (haliases ▸ hcap)
  · exact fun g' w _ _ hk => (Gains.of_notes (hinstr w) g').has (r := .capped k) hk

/-- What a function has recorded before it is the turn of an instruction. -/
def upTo (view : View) (flow : Option Flow) (g : Gathered) (f : FunctionId) (done : List ValueId) :
    Gathered :=
  done.foldl (propagateInstr view) ((g.collectAliases view.program f).confineIn view flow f)

theorem upTo_append (view : View) (flow : Option Flow) (g : Gathered) (f : FunctionId)
    (done : List ValueId) (v : ValueId) :
    g.upTo view flow f (done ++ [v]) = propagateInstr view (g.upTo view flow f done) v := by
  rw [upTo, upTo, List.foldl_append]
  rfl

namespace Lockstep

theorem confineIn (h : Lockstep view spared early g t)
    (hearly : ∀ k, view.CapsBehind flow g.aliases f k → early k) :
    Lockstep view spared early (g.confineIn view none f) (t.confineIn view (some flow) f) := by
  rw [Gathered.confineIn, Gathered.confineIn]
  refine (List.foldl_rel (r := fun g' t' => Lockstep view spared early g' t' ∧
    g'.aliases = g.aliases) ⟨h, rfl⟩ ?_).1
  rintro v hv g' t' ⟨h', haliases⟩
  constructor
  · refine h'.confineInstr fun value ptr hstore htraced k hk => ?_
    rw [h'.aliases, haliases] at hk
    exact hearly k ⟨v, hv, value, ptr, hstore, htraced, hk⟩
  · rw [(gains_confineInstr view.names_any (view.traces_any none) g' v).2, haliases]

/-- A function keeps the runs in step: what was capped early is capped in both when the copies
are recorded. -/
theorem function (h : Lockstep view spared (fun _ => False) g t)
    (hspared : ∀ done v rest, view.program.instructionsOf f = done ++ v :: rest →
      ∀ value ptr, view.program.store? v = some (value, ptr) →
        v ∈ (t.upTo view (some flow) f done).tracedStores →
        ∀ l ∈ view.chain (t.upTo view (some flow) f done).aliases ptr, spared l) :
    Lockstep view spared (fun _ => False) (function view none g f)
      (function view (some flow) t f) := by
  have hconfined : Lockstep view spared
      (view.CapsBehind flow (g.collectAliases view.program f).aliases f)
      ((g.collectAliases view.program f).confineIn view none f)
      ((t.collectAliases view.program f).confineIn view (some flow) f) :=
    ((h.collectAliases f).mono fun _ hk => hk.elim).confineIn fun _ hk => hk
  have haliases := (gains_confineIn view.names_any (view.traces_any none)
    (g.collectAliases view.program f) f).2
  have hcopied : Lockstep view spared
      (view.CapsBehind flow (g.collectAliases view.program f).aliases f)
      (g.upTo view none f (view.program.instructionsOf f))
      (t.upTo view (some flow) f (view.program.instructionsOf f)) := by
    refine prefix_induction (P := fun done => Lockstep view spared _ (g.upTo view none f done)
      (t.upTo view (some flow) f done)) hconfined ?_
    intro done v rest hrest hdone
    rw [upTo_append, upTo_append]
    exact hdone.propagateInstr (hspared done v rest hrest)
  refine (hcopied.common (.foldl fun v _ => .propagateCast v)).mono ?_
  exact fun k hk => .inl (mem_capped_propagateIn (haliases ▸ hk))

end Lockstep

end Gathered

/-! ## Modules -/

def View.definedIn (view : View) (m : Module) : List FunctionId :=
  m.functions.filter fun f => !view.program.isDeclaration f

namespace Gathered

variable {g : Gathered}

def modules (view : View) (flow : Option Flow) (ms : List Module) : Gathered :=
  ms.foldl (fun g m => g.module view flow m) {}

/-- What some modules have contributed, and of the next one the variables and some functions. -/
def before (view : View) (flow : Option Flow) (ms : List Module) (m : Module)
    (fs : List FunctionId) : Gathered :=
  fs.foldl (function view flow)
    (m.globals.foldl (fun g id => g.confineInit view id) (modules view flow ms))

/-- What a run over modules has gathered when it is the turn of an instruction to have its copy
recorded. -/
inductive Turn (view : View) (flow : Option Flow) (ms : List Module) :
    ValueId → Gathered → Prop where
  | intro {earlier later : List Module} {m : Module} {fs fs' : List FunctionId} {f : FunctionId}
      {done rest : List ValueId} {v : ValueId} (hms : ms = earlier ++ m :: later)
      (hfs : view.definedIn m = fs ++ f :: fs')
      (hinstrs : view.program.instructionsOf f = done ++ v :: rest) :
      Turn view flow ms v ((before view flow earlier m fs).upTo view flow f done)

/-- The layer is behind the target of a store that was traced, when it is the turn of the store. -/
def SparedBy (view : View) (flow : Flow) (ms : List Module) (l : Layer TypeKey) : Prop :=
  ∃ store g value ptr, Turn view (some flow) ms store g ∧
    view.program.store? store = some (value, ptr) ∧ store ∈ g.tracedStores ∧
    l ∈ view.chain g.aliases ptr

theorem lockstep_modules (view : View) (flow : Flow) (ms : List Module) :
    Lockstep view (SparedBy view flow ms) (fun _ => False) (modules view none ms)
      (modules view (some flow) ms) := by
  refine prefix_induction (P := fun ms' => Lockstep view (SparedBy view flow ms) (fun _ => False)
    (modules view none ms') (modules view (some flow) ms')) ?_ ?_
  · exact ⟨rfl, rfl, fun v hv => absurd hv (OrdSet.not_mem_empty v), .refl _⟩
  intro earlier m later hms hearlier
  have hinits : Notes view (fun _ => True) (fun _ => False) (fun _ => True) fun g =>
      m.globals.foldl (fun g id => g.confineInit view id) g :=
    .foldl fun id _ => .confineInit view.names_any id
  rw [modules, modules, List.foldl_append, List.foldl_append]
  change Lockstep view _ _ (before view none earlier m (view.definedIn m))
    (before view (some flow) earlier m (view.definedIn m))
  refine prefix_induction (P := fun fs => Lockstep view _ _ (before view none earlier m fs)
    (before view (some flow) earlier m fs)) (hearlier.common hinits) ?_
  intro fs f fs' hfs hbefore
  rw [before, before, List.foldl_append, List.foldl_append]
  refine hbefore.function fun done v rest hinstrs value ptr hstore htraced l hl => ?_
  exact ⟨v, _, value, ptr, .intro hms hfs hinstrs, hstore, htraced, hl⟩

theorem Turn.gains {view : View} {flow : Option Flow} {ms : List Module} {v : ValueId}
    (hturn : Turn view flow ms v g) : g.Gains (fun _ => True) (modules view flow ms) := by
  obtain ⟨hms, hfs, hinstrs⟩ := hturn
  rename_i earlier later m fs fs' f done rest
  have hinstr (w : ValueId) : Notes view (fun _ => True) (fun _ => True) (fun _ => True)
      (propagateInstr view · w) := .propagateInstr trivial fun _ _ => trivial
  have hcasts : Notes view (fun _ => True) (fun _ => True) (fun _ => True) fun g =>
      (conversions view.program f).toList.foldl (fun g v => g.propagateCast view v) g :=
    .foldl fun v _ => .propagateCast v
  have hfunction : ((before view flow earlier m fs).upTo view flow f done).Gains (fun _ => True)
      (function view flow (before view flow earlier m fs) f) := by
    rw [function, Gathered.propagateIn, hinstrs, List.foldl_append]
    exact (Gains.foldl (fun g w => .of_notes (hinstr w) g) (v :: rest) _).trans (.of_notes hcasts _)
  have hmodule : ((before view flow earlier m fs).upTo view flow f done).Gains (fun _ => True)
      (before view flow earlier m (view.definedIn m)) := by
    have hrest : before view flow earlier m (fs ++ f :: fs') =
        fs'.foldl (function view flow) (function view flow (before view flow earlier m fs) f) :=
      List.foldl_append
    rw [hfs, hrest]
    exact hfunction.trans (.foldl (gains_function view.names_any (view.traces_any flow)) fs' _)
  rw [hms, modules, List.foldl_append]
  exact hmodule.trans (.foldl (gains_module view.names_any (view.traces_any flow)) later _)

end Gathered

/-! ## Whole runs -/

theorem Facts.Spares.mapFunctions {κ : Type} [DecidableEq κ] {spared : Layer κ → Prop}
    {early : κ → Prop} {a b : Facts κ} (h : a.Spares spared early b)
    (map : FunctionId → FunctionId) :
    (a.mapFunctions map).Spares spared early (b.mapFunctions map) where
  propagated := h.propagated
  capped := h.capped
  early := h.early
  held l f hf := by
    obtain ⟨g, hg, rfl⟩ := mem_held_mapFunctions.1 hf
    exact mem_held_mapFunctions.2 ⟨g, h.held l g hg, rfl⟩
  escaped := h.escaped
  spared := h.spared

/-- The layer is in the chain of the pointer of a store that was traced, as it is when it is the
turn of the store. -/
def Analysis.BehindTraced (a : Analysis) (l : Layer TypeKey) : Prop :=
  ∃ store ∈ a.gathered.tracedStores, ∃ value ptr,
    a.view.program.store? store = some (value, ptr) ∧
      ∃ g, Gathered.Turn a.view a.flow a.view.program.modules.toList store g ∧
        l ∈ a.view.chain g.aliases ptr

namespace Strategy

variable {p : Program} {strategy other : Strategy}

theorem spares_prepared [Hasher] (hp : p.Valid) {options options' : LayerOptions}
    (hstrategy : strategy.indirect.options? = some options) (hoptions : options.dataflow = false)
    (hother : other.indirect.options? = some options') (hoptions' : options'.dataflow = true) :
    (strategy.prepared p).gathered.facts.Spares (other.prepared p).BehindTraced (fun _ => False)
      (other.prepared p).gathered.facts := by
  refine prepared_rec (P := fun a b => a.gathered.facts.Spares b.BehindTraced (fun _ => False)
    b.gathered.facts) hp (.refl _) ?_
  have hlinked := (Gathered.lockstep_modules (View.ofProgram p).link
    (Flow.ofView (View.ofProgram p).link) p.modules.toList).facts.mapFunctions
      (View.ofProgram p).link.definitionOf
  have hready : (strategy.ready p).gathered.facts =
      (Gathered.modules (View.ofProgram p).link none p.modules.toList).facts.mapFunctions
        (View.ofProgram p).link.definitionOf := by
    simp [ready, gatheredOf, flow?, hstrategy, hoptions, Gathered.linked, Gathered.record,
      Gathered.modules]
  have hflow : (other.ready p).flow = some (Flow.ofView (View.ofProgram p).link) := by
    simp [ready, flow?, hother, hoptions']
  have hready' : (other.ready p).gathered = (Gathered.modules (View.ofProgram p).link
      (some (Flow.ofView (View.ofProgram p).link)) p.modules.toList).linked
        (View.ofProgram p).link := by
    simp [ready, gatheredOf, flow?, hother, hoptions', Gathered.modules]
  rw [hready, hready']
  refine { hlinked with spared := fun l hl => (hlinked.spared l hl).imp_right ?_ }
  rintro ⟨store, g, value, ptr, hturn, hstore, htraced, hl⟩
  refine ⟨store, ?_, value, ptr, hstore, g, hflow ▸ hturn, hl⟩
  rw [hready']
  exact hturn.gains.traced store htraced

end Strategy

/-- Tracing stores turns escapes into confinement, and changes nothing else about layers. -/
theorem Config.dataflow_spares [Hasher] {p : Program} (hp : p.Valid) {c d : Config}
    (hc : c.kind = .multilayer) (hd : d.kind = .dataflowEnhanced) {a b : Analysis}
    (ha : c.strategy.Running p a) (hb : d.strategy.Running p b) :
    b.gathered.facts.propagated = a.gathered.facts.propagated ∧
      (∀ t, t ∈ b.gathered.facts.capped ↔ t ∈ a.gathered.facts.capped) ∧
      (∀ l, ∀ f ∈ a.gathered.facts.held l, f ∈ b.gathered.facts.held l) ∧
      (∀ l ∈ b.gathered.facts.escaped, l ∈ a.gathered.facts.escaped) ∧
      ∀ l ∈ a.gathered.facts.escaped, l ∉ b.gathered.facts.escaped → b.BehindTraced l := by
  have hplain : c.strategy.indirect.options? = some { max := c.maxTypeLayer } := by
    rw [strategy, hc]
    rfl
  have htracing : d.strategy.indirect.options? =
      some { max := d.maxTypeLayer, dataflow := true } := by
    rw [strategy, hd]
    rfl
  have hspares := Strategy.spares_prepared hp hplain rfl htracing rfl
  have hbehind : ∀ l, (d.strategy.prepared p).BehindTraced l → b.BehindTraced l := by
    intro l hl
    rwa [Analysis.BehindTraced, hb.same.gathered, hb.same.view, hb.same.flow]
  rw [ha.same.gathered, hb.same.gathered]
  refine ⟨hspares.propagated, fun t => ⟨?_, hspares.capped t⟩, hspares.held, hspares.escaped, ?_⟩
  · exact fun ht => (hspares.early t ht).resolve_right id
  · exact fun l hl hspared => hbehind l ((hspares.spared l hl).resolve_left hspared)

namespace Strategy

open Sample in
/-- `main` passes `f` to `set`, which stores its argument into a field. -/
def passedOn : Program :=
  let function (name : String) (t : Nat) (linkage : Linkage) (params instrs : List ValueId)
      (address : Nat) : Function :=
    ⟨name, ⟨t⟩, 0, linkage, params, [⟨0, instrs⟩], ⟨address⟩, false⟩
  Program.withUses
    { types := ⟨#[.void, .function 0 [] false, .pointer 1, .struct (some "S") [2] false,
        .pointer 3, .pointer 2, .function 0 [2] false, .pointer 6]⟩
      values := #[value 4 (.global 0), value 2 (.function 0), value 7 (.function 1),
        value 2 (.function 2), value 2 (.argument 1 0),
        instr 5 1 (.gep ⟨3, 0, [.const 0, .const 0]⟩), instr 0 1 (.store 4 5),
        instr 0 2 (.call ⟨2, [1], 6, false⟩)]
      functions := #[function "f" 1 .external [] [] 1,
        function "set" 6 .internal [4] [5, 6] 2, function "main" 1 .external [] [7] 3]
      globals := #[⟨"s", 0, 3, 0, none, .external, false⟩]
      modules := #[⟨0, "m", [0, 1, 2], [0], []⟩] }

theorem valid_passedOn : passedOn.Valid := Program.valid_withUses rfl

end Strategy

namespace Config

open Strategy

attribute [local instance] Hasher.digits

theorem flow_passedOn : Flow.ofView (View.ofProgram passedOn).link =
    ⟨(∅ : OrdMap (FunctionId × Nat) ParamFlow).insert (1, 0) (.known (OrdSet.ofList [0]))⟩ := by
  cbv

def fieldOfS : Layer TypeKey := ⟨⟨Hasher.hash "S,1"⟩, .nth 0⟩

/-- The run on this program that traces no stores. -/
def plainRun : Analysis := (mk .multilayer 10 false).strategy.prepared passedOn

def tracingRun : Analysis := (mk .dataflowEnhanced 10 false).strategy.prepared passedOn

theorem escaped_plainRun : plainRun.gathered.facts.escaped = OrdSet.ofList [fieldOfS] := by
  rw [plainRun, prepared_eq _ valid_passedOn (List.cons_ne_nil _ _)]
  show ((Gathered.modules (View.ofProgram passedOn).link none passedOn.modules.toList).linked
    (View.ofProgram passedOn).link).facts.escaped = _
  cbv

theorem escaped_tracingRun : tracingRun.gathered.facts.escaped = ∅ := by
  rw [tracingRun, prepared_eq _ valid_passedOn (List.cons_ne_nil _ _)]
  show ((Gathered.modules (View.ofProgram passedOn).link (some (Flow.ofView _))
    passedOn.modules.toList).linked (View.ofProgram passedOn).link).facts.escaped = _
  rw [flow_passedOn]
  cbv

/-- The field escapes in one run only, behind the store of `set`. -/
theorem dataflow_spares_passedOn :
    passedOn.Valid ∧ fieldOfS ∈ plainRun.gathered.facts.escaped ∧
      fieldOfS ∉ tracingRun.gathered.facts.escaped ∧ tracingRun.BehindTraced fieldOfS := by
  have hplain : fieldOfS ∈ plainRun.gathered.facts.escaped := by
    rw [escaped_plainRun]
    decide
  have htracing : fieldOfS ∉ tracingRun.gathered.facts.escaped := by
    rw [escaped_tracingRun]
    exact OrdSet.not_mem_empty _
  have hruns : (mk .multilayer 10 false).strategy.Running passedOn plainRun ∧
      (mk .dataflowEnhanced 10 false).strategy.Running passedOn tracingRun := ⟨.prepared, .prepared⟩
  obtain ⟨-, -, -, -, hbehind⟩ := dataflow_spares valid_passedOn rfl rfl hruns.1 hruns.2
  exact ⟨valid_passedOn, hplain, htracing, hbehind fieldOfS hplain htracing⟩

end Config

end CallTargets
