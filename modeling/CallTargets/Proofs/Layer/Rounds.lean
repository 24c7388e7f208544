import CallTargets.Proofs.Graph.Roam
import CallTargets.Proofs.Layer.Range

/-!
# Walks and rounds without a bound

Values may lead to each other in cycles. The walks to the next layers, and the loops that start
such a walk behind the last one, are described here by their executions that end, without a bound:
they share what they have been at, which never includes arguments. In a valid program they end
with the results of the bounded functions. A round that another one follows has come to an address
computation that no walk was at before, which bounds the number of rounds.

Main statement: `View.rounds_end`.
-/

namespace CallTargets

open Relation

variable {p : Program} {view : View} {u v base : ValueId} {seen seen' fresh : List ValueId}
  {layers : List (Layer TypeId)}

namespace Program

/-! ## One walk -/

/-- The walk to the next layers ends, with the values that walks have been at then. -/
abbrev Strides (p : Program) (seen : List ValueId) (v : ValueId) (seen' : List ValueId)
    (o : Outcome (Option ValueId) (List (Layer TypeId) × ValueId)) : Prop :=
  p.layerWalk.Roams p.isArgument seen [v] (some v) seen' o

/-- The fresh values are those that no walk has been at, apart from arguments. -/
abbrev Unwalked (p : Program) (fresh seen : List ValueId) : Prop :=
  Search.Tracks p.HasValue p.isArgument fresh seen

theorem unwalked_filter (p : Program) (seen : List ValueId) :
    p.Unwalked (p.valueIds.filter (· ∉ seen)) seen where
  nodup := p.nodup_valueIds.filter _
  mem_iff v hv _ := by simp [mem_valueIds.2 hv]

theorem unwalked_nil (p : Program) : p.Unwalked p.valueIds [] :=
  ⟨p.nodup_valueIds, fun _ hv _ => iff_of_true (mem_valueIds.2 hv) List.not_mem_nil⟩

theorem visit_layerWalk_goOn {root root' : Option ValueId} {next : List ValueId}
    (h : p.layerWalk.visit root v = .goOn root' next) (hu : u ∈ next) : p.WalksTo v u := by
  simp only [layerWalk] at h
  split at h
  · cases h
    cases hu
  · split at h
    · cases h
    · split at h
      · rename_i hback
        cases h
        exact walksTo_of_walkBack? hback hu
      · cases h
        cases hu

theorem Valid.exists_strides (hp : p.Valid) (hseen : p.Unwalked fresh seen) (hv : p.HasValue v) :
    ∃ seen', p.Strides seen v seen' (p.nextLayers fresh v).2 ∧
      p.Unwalked (p.nextLayers fresh v).1 seen' := by
  refine Search.exists_roams_run (fun s v s' next _ hvisit w hw => ?_) (fun s v hv => ?_) (some v)
    hseen fun w hw => List.mem_singleton.1 hw ▸ hv
  · exact hp.hasValue_of_walksTo (visit_layerWalk_goOn hvisit hw)
  · simp [layerWalk, hv]

/-- An address computation among the values that walks have been at now, but not before. -/
def Widens (p : Program) (before now : List ValueId) : Prop :=
  before ⊆ now ∧ ∃ g ∈ now, g ∉ before ∧ (p.gep? g).isSome

/-- Layers are those of an address computation that steps back lead to, and that no walk has been
at. -/
theorem Strides.answered (h : p.Strides seen v seen' (.answered (layers, base))) :
    p.Widens seen seen' ∧ ∃ u g, ReflTransGen p.WalksTo v u ∧ p.gep? u = some g ∧
      layers = p.gepLayers u g ∧ base = g.base := by
  obtain ⟨hsub, u, hu, hunseen, ⟨s, hstop⟩, v', hv', hpath⟩ :=
    Search.Roams.answered (R := p.WalksTo)
      (fun s v s' next hvisit w hw => visit_layerWalk_goOn hvisit hw) h
  obtain ⟨g, hg, hlayers, hbase⟩ := visit_layerWalk_stop hstop
  refine ⟨⟨hsub, u, hu, hunseen, by rw [hg]; rfl⟩, u, g, ?_, hg, hlayers, hbase⟩
  rwa [List.mem_singleton.1 hv'] at hpath

/-! ## Rounds -/

/-- What walks had been at when each round began. -/
structure Rounds (p : Program) (room : Nat) (seen : List ValueId)
    (rounds : List (List ValueId)) : Prop where
  head : rounds.head? = some seen
  /-- A round that another one follows comes to a further address computation. -/
  widens : rounds.IsChain p.Widens
  length_le : rounds.length ≤ room + 1

theorem Rounds.last (p : Program) (room : Nat) (seen : List ValueId) :
    p.Rounds room seen [seen] :=
  ⟨rfl, .singleton seen, by simp⟩

theorem Rounds.cons {room room' : Nat} {rounds : List (List ValueId)}
    (h : p.Rounds room seen' rounds) (hwidens : p.Widens seen seen') (hroom : room < room') :
    p.Rounds room' seen (seen :: rounds) := by
  obtain ⟨hhead, hchain, hlength⟩ := h
  refine ⟨rfl, ?_, by simpa using Nat.le_trans hlength hroom⟩
  obtain ⟨rest, rfl⟩ := List.head?_eq_some_iff.1 hhead
  exact .cons_cons hwidens hchain

/-- All layers behind a value and the root at the end, with the rounds it takes to find them. -/
inductive LayerRounds (p : Program) : List ValueId → ValueId → List (List ValueId) →
    List (Layer TypeId) × Option ValueId → Prop where
  | last {seen seen' v root} (h : p.Strides seen v seen' (.exhausted root)) :
      LayerRounds p seen v [seen] ([], root)
  | more {seen seen' v layers base rounds outer root}
      (h : p.Strides seen v seen' (.answered (layers, base)))
      (hrest : LayerRounds p seen' base rounds (outer, root)) :
      LayerRounds p seen v (seen :: rounds) (layers ++ outer, root)

theorem Valid.exists_layerRounds (hp : p.Valid) (hseen : p.Unwalked fresh seen)
    (hv : p.HasValue v) :
    ∃ rounds, p.LayerRounds seen v rounds (p.layersFrom fresh v) ∧
      p.Rounds fresh.length seen rounds := by
  fun_induction layersFrom p fresh v generalizing seen with
  | case1 fresh v left layers base hnext hlt outer root heq ih =>
    obtain ⟨seen', hstrides, hseen'⟩ := hp.exists_strides hseen hv
    rw [hnext] at hstrides hseen'
    obtain ⟨rounds, hrest, hrounds⟩ := ih hseen' (hp.of_nextLayers_answered hv hnext).2
    rw [heq] at hrest
    exact ⟨seen :: rounds, .more hstrides hrest, hrounds.cons hstrides.answered.1 hlt⟩
  | case2 fresh v left layers base hnext hlt =>
    exact absurd (Search.fresh_length_run_lt hnext) hlt
  | case3 fresh v left root hnext =>
    obtain ⟨seen', hstrides, -⟩ := hp.exists_strides hseen hv
    rw [hnext] at hstrides
    exact ⟨[seen], .last hstrides, .last p _ seen⟩

/-! ## Whole chains -/

/-- The search for the type that a value points into ends with it, or with none. -/
def CompositeType (p : Program) (aliases : OrdMap ValueId ValueId) (v : ValueId)
    (type : Option TypeId) : Prop :=
  ∃ seen o, (p.compositeSearch aliases).Roams (fun _ => false) [] [v] () seen o ∧
    o.answer? = type

/-- The layers a value may be nested in, and whether they are all, with the rounds it takes. -/
def ChainRounds (p : Program) (aliases : OrdMap ValueId ValueId) (v : ValueId)
    (rounds : List (List ValueId)) (chain : List (Layer TypeId) × Bool) : Prop :=
  ∃ type layers root, p.CompositeType aliases v type ∧ p.LayerRounds [] v rounds (layers, root) ∧
    ((type.map fun t => (⟨t, .nth 0⟩ : Layer TypeId)).toList ++ layers,
      root.any p.isClosedRoot) = chain

theorem walksTo_of_mem_next (h : u ∈ compositeSearch.next p v) : p.WalksTo v u := by
  unfold compositeSearch.next at h
  split at h
  · rename_i hop
    exact .select (List.mem_singleton.1 h ▸ hop)
  · rename_i hop
    exact .phi hop h
  · rename_i hop
    exact .load (List.mem_singleton.1 h ▸ hop)
  · exact .bitCast (Option.mem_toList.1 h)

theorem Valid.compositeType (hp : p.Valid) (aliases : OrdMap ValueId ValueId)
    (hv : p.HasValue v) : p.CompositeType aliases v (p.baseType? aliases v) := by
  have hnext : ∀ s v s' next, p.HasValue v →
      (p.compositeSearch aliases).visit s v = .goOn s' next → ∀ w ∈ next, p.HasValue w := by
    intro s v s' next _ hvisit w hw
    simp only [compositeSearch] at hvisit
    split at hvisit
    · cases hvisit
    · cases hvisit
      exact hp.hasValue_of_walksTo (walksTo_of_mem_next hw)
  have htracks : Search.Tracks p.HasValue (fun _ => false) p.valueIds [] :=
    ⟨p.nodup_valueIds, fun u hu _ => iff_of_true (mem_valueIds.2 hu) List.not_mem_nil⟩
  have hstart : ∀ w ∈ [v], p.HasValue w := fun w hw => List.mem_singleton.1 hw ▸ hv
  obtain ⟨seen, hroams, -⟩ := Search.exists_roams_run hnext (by simp) () htracks hstart
  refine ⟨seen, _, hroams, ?_⟩
  rw [baseType?]
  cases ((p.compositeSearch aliases).run p.valueIds [v] ()).2 <;> rfl

theorem Valid.exists_chainRounds (hp : p.Valid) (aliases : OrdMap ValueId ValueId)
    (hv : p.HasValue v) :
    ∃ rounds, p.ChainRounds aliases v rounds (p.typeChain aliases v) ∧
      p.Rounds p.values.size [] rounds := by
  obtain ⟨rounds, hlayers, hrounds⟩ := hp.exists_layerRounds p.unwalked_nil hv
  exact ⟨rounds, ⟨_, _, _, hp.compositeType aliases hv, hlayers, rfl⟩,
    by simpa [valueIds] using hrounds⟩

end Program

/-! ## Refinements -/

/-- Narrows the targets by all layers behind a value, with the rounds it takes. -/
inductive Refinement.Narrows (view : View) (facts : Facts TypeKey) (max : Nat) (type : TypeKey) :
    List ValueId → ValueId → Refinement → List (List ValueId) → Refinement × Stop → Prop where
  | limit {seen v r} (hmax : max ≤ r.depth) :
      Narrows view facts max type seen v r [seen] (r, .limit)
  | capped {seen v r} (hmax : ¬ max ≤ r.depth) (hcapped : facts.isCapped (r.last type) = true) :
      Narrows view facts max type seen v r [seen] (r, .capped (r.last type))
  | noLayers {seen v r seen' o} (hmax : ¬ max ≤ r.depth)
      (hcapped : ¬ facts.isCapped (r.last type) = true)
      (h : view.program.Strides seen v seen' o) (hnone : ∀ layers base,
        o = .answered (layers, base) → layers = []) :
      Narrows view facts max type seen v r [seen] (r, .noLayers)
  | stop {seen v r seen' layers base r' why} (hmax : ¬ max ≤ r.depth)
      (hcapped : ¬ facts.isCapped (r.last type) = true)
      (h : view.program.Strides seen v seen' (.answered (layers, base))) (hlayers : layers ≠ [])
      (hnarrow : r.narrow facts max (layers.map view.layer) = (r', some why)) :
      Narrows view facts max type seen v r [seen] (r', why)
  | more {seen v r seen' layers base r' rounds result} (hmax : ¬ max ≤ r.depth)
      (hcapped : ¬ facts.isCapped (r.last type) = true)
      (h : view.program.Strides seen v seen' (.answered (layers, base))) (hlayers : layers ≠ [])
      (hnarrow : r.narrow facts max (layers.map view.layer) = (r', none))
      (hrest : Narrows view facts max type seen' base r' rounds result) :
      Narrows view facts max type seen v r (seen :: rounds) result

theorem Refinement.exists_narrows (hp : view.program.Valid) (facts : Facts TypeKey) (max : Nat)
    (type : TypeKey) (hseen : view.program.Unwalked fresh seen) (hv : view.program.HasValue v)
    (r : Refinement) :
    ∃ rounds, Narrows view facts max type seen v r rounds (walk view facts max type fresh v r) ∧
      view.program.Rounds fresh.length seen rounds := by
  fun_induction Refinement.walk view facts max type fresh v r generalizing seen with
  | case1 fresh v r hmax => exact ⟨[seen], .limit hmax, .last _ _ seen⟩
  | case2 fresh v r hmax hcapped => exact ⟨[seen], .capped hmax hcapped, .last _ _ seen⟩
  | case3 fresh v r hmax hcapped left root hnext =>
    obtain ⟨seen', hstrides, -⟩ := hp.exists_strides hseen hv
    rw [hnext] at hstrides
    exact ⟨[seen], .noLayers hmax hcapped hstrides nofun, .last _ _ seen⟩
  | case4 fresh v r hmax hcapped left layers base hnext hempty =>
    obtain ⟨seen', hstrides, -⟩ := hp.exists_strides hseen hv
    rw [hnext] at hstrides
    refine ⟨[seen], .noLayers hmax hcapped hstrides ?_, .last _ _ seen⟩
    intro _ _ heq
    cases heq
    exact List.isEmpty_iff.1 hempty
  | case5 fresh v r hmax hcapped left layers base hnext hlayers r' stop hnarrow =>
    obtain ⟨seen', hstrides, -⟩ := hp.exists_strides hseen hv
    rw [hnext] at hstrides
    exact ⟨[seen], .stop hmax hcapped hstrides (mt List.isEmpty_iff.2 hlayers) hnarrow,
      .last _ _ seen⟩
  | case6 fresh v r hmax hcapped left layers base hnext hlayers r' hnarrow hlt ih =>
    obtain ⟨seen', hstrides, hseen'⟩ := hp.exists_strides hseen hv
    rw [hnext] at hstrides hseen'
    obtain ⟨rounds, hrest, hrounds⟩ := ih hseen' (hp.of_nextLayers_answered hv hnext).2
    exact ⟨seen :: rounds,
      .more hmax hcapped hstrides (mt List.isEmpty_iff.2 hlayers) hnarrow hrest,
      hrounds.cons hstrides.answered.1 hlt⟩
  | case7 fresh v r hmax hcapped left layers base hnext hlayers r' hnarrow hlt =>
    exact absurd (Search.fresh_length_run_lt hnext) hlt

/-! ## All walks -/

/-- Whatever starts at a value ends. -/
structure View.WalksEnd (view : View) (v : ValueId) : Prop where
  next : ∀ seen, ∃ seen', view.program.Strides seen v seen'
    (view.program.nextLayers (view.program.valueIds.filter (· ∉ seen)) v).2
  /-- Layers come from an address computation that steps back lead to. -/
  found : ∀ seen seen' layers base,
    view.program.Strides seen v seen' (.answered (layers, base)) →
    view.program.Widens seen seen' ∧ ∃ u g, ReflTransGen view.program.WalksTo v u ∧
      view.program.gep? u = some g ∧ layers = view.program.gepLayers u g ∧ base = g.base
  type : ∀ aliases, view.program.CompositeType aliases v (view.program.baseType? aliases v)
  chain : ∀ aliases, ∃ rounds,
    view.program.ChainRounds aliases v rounds (view.program.typeChain aliases v) ∧
      view.program.Rounds view.program.values.size [] rounds
  refinement : ∀ facts max type r, ∃ rounds,
    Refinement.Narrows view facts max type [] v r rounds
        (Refinement.walk view facts max type view.program.valueIds v r) ∧
      view.program.Rounds view.program.values.size [] rounds

/-- Walks from any value of a valid program end, however its values lead to each other. -/
theorem View.rounds_end (hp : view.program.Valid) (hv : view.program.HasValue v) :
    view.WalksEnd v where
  next seen := by
    obtain ⟨seen', hstrides, -⟩ := hp.exists_strides (view.program.unwalked_filter seen) hv
    exact ⟨seen', hstrides⟩
  found _ _ _ _ h := Program.Strides.answered h
  type aliases := hp.compositeType aliases hv
  chain aliases := hp.exists_chainRounds aliases hv
  refinement facts max type r := by
    obtain ⟨rounds, hnarrows, hrounds⟩ :=
      Refinement.exists_narrows hp facts max type view.program.unwalked_nil hv r
    exact ⟨rounds, hnarrows, by simpa [Program.valueIds] using hrounds⟩

open Sample in
/-- A function with a join of itself and of the address of a field, whose base is the join. -/
def Program.joinedField : Program :=
  withUses
    { types := ⟨#[.void, .function 0 [] false, .pointer 1, .struct (some "S") [4] false,
        .pointer 3]⟩
      values := #[⟨2, none, .function 0⟩, instr 4 0 (.phi [1, 2]),
        instr 4 0 (.gep ⟨3, 1, [.const 0, .const 0]⟩)]
      functions := #[⟨"f", 1, 0, .external, [], [⟨0, [1, 2]⟩], 0, false⟩]
      modules := #[⟨0, "m", [0], [], []⟩] }

attribute [local instance] Hasher.digits

theorem View.rounds_end_joinedField :
    Program.joinedField.gep? 2 = some ⟨3, 1, [.const 0, .const 0]⟩ ∧
      (View.ofProgram Program.joinedField).WalksEnd 1 :=
  ⟨by decide, View.rounds_end (Program.valid_withUses rfl) (show 1 < 3 by decide)⟩

end CallTargets
