import CallTargets.Proofs.Flow.Params
import CallTargets.Proofs.Layer.Growth
import CallTargets.Proofs.Layer.Traced

/-!
# Layers and what is gathered about them in range

Walks through a valid program keep to values that exist, and the layers they lead to are those
of types that exist. The functions that layers hold and the conversions that type results of
calls exist as well (`Gathered.InRange`), which everything that modules contribute keeps.
-/

namespace CallTargets

/-! ## Layers in range -/

def Program.HasLayers (p : Program) (layers : List (Layer TypeId)) : Prop :=
  ∀ l ∈ layers, p.HasType l.type

theorem Program.visit_layerWalk_stop {p : Program} {root : Option ValueId} {v base : ValueId}
    {layers : List (Layer TypeId)} (h : p.layerWalk.visit root v = .stop (layers, base)) :
    ∃ g, p.gep? v = some g ∧ layers = p.gepLayers v g ∧ base = g.base := by
  simp only [layerWalk] at h
  split at h
  · cases h
  · split at h
    · rename_i g hg
      cases h
      exact ⟨g, hg, rfl, rfl⟩
    · split at h <;> cases h

namespace Program.Valid

variable {p : Program} (hp : p.Valid) {t u : TypeId} {v w : ValueId}
include hp

theorem hasLayers_indexLayers (ht : p.HasType t) (indices : List GepIndex) :
    p.HasLayers (indexLayers p.types t indices).1 ∧
      p.HasType (indexLayers p.types t indices).2 := by
  induction indices generalizing t with
  | nil => exact ⟨fun _ hl => absurd hl List.not_mem_nil, ht⟩
  | cons index rest ih =>
    unfold indexLayers
    split
    · rename_i next hnext
      obtain ⟨hlayers, hlast⟩ := ih (hp.hasType_of_element? hnext)
      refine ⟨fun l hl => ?_, hlast⟩
      rcases List.mem_append.1 hl with hl | hl
      · exact hlayers l hl
      · rw [List.mem_singleton.1 hl]
        exact ht
    · refine ⟨fun l hl => ?_, ht⟩
      rw [List.mem_singleton.1 hl]
      exact ht

theorem hasLayers_gepLayers {g : Gep} (hg : p.gep? v = some g) : p.HasLayers (p.gepLayers v g) := by
  obtain ⟨hlayers, hlast⟩ := hp.hasLayers_indexLayers (hp.hasType_of_gep? hg) g.indices.tail
  unfold gepLayers
  dsimp only
  split
  · split
    · intro l hl
      rcases List.mem_cons.1 hl with rfl | hl
      · exact hlast
      · exact hlayers l hl
    · exact hlayers
  · exact hlayers

theorem hasValue_of_walksTo (h : p.WalksTo v w) : p.HasValue w := by
  cases h with
  | load h | unary h => exact hp.hasValue_of_opcode? h List.mem_cons_self
  | select h => exact hp.hasValue_of_opcode? h (List.mem_cons_of_mem _ List.mem_cons_self)
  | phi h hw => exact hp.hasValue_of_opcode? h hw
  | bitCast h => exact hp.hasValue_of_cast? (cast?_of_bitCast? h)

theorem hasValue_of_walkBack? {next : List ValueId} (h : p.walkBack? v = some next)
    (hw : w ∈ next) : p.HasValue w :=
  hp.hasValue_of_walksTo (walksTo_of_walkBack? h hw)

theorem keeps_layerWalk : p.layerWalk.Keeps fun _ todo root =>
    (∀ v ∈ todo, p.HasValue v) ∧ ∀ v, root = some v → p.HasValue v where
  visit {_ todo v s s' next} h _ hvisit := by
    obtain ⟨htodo, hroot⟩ := h
    have hv := htodo v List.mem_cons_self
    -- what waits behind the value already did
    have hrest : ∀ next' : List ValueId, (∀ w ∈ next', p.HasValue w) →
        ∀ w ∈ p.layerWalk.turn.join next' todo, p.HasValue w := fun next' hnext w hw =>
      (Turn.mem_join.1 hw).elim (hnext w) fun hw => htodo w (List.mem_cons_of_mem v hw)
    simp only [layerWalk] at hvisit
    split at hvisit
    · cases hvisit
      exact ⟨hrest [] fun _ hw => absurd hw List.not_mem_nil, fun w hw => Option.some.inj hw ▸ hv⟩
    · split at hvisit
      · cases hvisit
      · split at hvisit
        · rename_i hback
          cases hvisit
          exact ⟨hrest _ fun w hw => hp.hasValue_of_walkBack? hback hw, hroot⟩
        · cases hvisit
          refine ⟨hrest [] fun _ hw => absurd hw List.not_mem_nil, fun w hw => ?_⟩
          split at hw
          · cases hw
            exact hv
          · cases hw
  pass {_ _ v _} h _ := ⟨fun w hw => h.1 w (List.mem_cons_of_mem v hw), fun w hw =>
    Option.some.inj hw ▸ h.1 v List.mem_cons_self⟩

theorem of_nextLayers_answered {fresh left : List ValueId} {layers : List (Layer TypeId)}
    (hv : p.HasValue v) (h : p.nextLayers fresh v = (left, .answered (layers, w))) :
    p.HasLayers layers ∧ p.HasValue w := by
  obtain ⟨_, u, _, s, -, -, hvisit⟩ := hp.keeps_layerWalk.answered
    ⟨fun _ hw => List.mem_singleton.1 hw ▸ hv, fun _ hw => Option.some.inj hw ▸ hv⟩ h
  obtain ⟨g, hg, rfl, rfl⟩ := visit_layerWalk_stop hvisit
  exact ⟨hp.hasLayers_gepLayers hg, hp.hasValue_of_gep? hg⟩

theorem of_nextLayers_exhausted {fresh left : List ValueId} {root : Option ValueId}
    (hv : p.HasValue v) (h : p.nextLayers fresh v = (left, .exhausted root)) :
    ∀ w, root = some w → p.HasValue w :=
  (hp.keeps_layerWalk.exhausted
    ⟨fun _ hw => List.mem_singleton.1 hw ▸ hv, fun _ hw => Option.some.inj hw ▸ hv⟩ h).2

theorem of_layersFrom (fresh : List ValueId) (hv : p.HasValue v) :
    p.HasLayers (p.layersFrom fresh v).1 ∧
      ∀ w, (p.layersFrom fresh v).2 = some w → p.HasValue w := by
  fun_induction layersFrom p fresh v with
  | case1 fresh v left layers base hnext hlt outer root heq ih =>
    obtain ⟨hlayers, hbase⟩ := hp.of_nextLayers_answered hv hnext
    have hrest := ih hbase
    rw [heq] at hrest
    exact ⟨fun l hl => (List.mem_append.1 hl).elim (hlayers l) (hrest.1 l), hrest.2⟩
  | case2 fresh v left layers base hnext hlt =>
    exact ⟨(hp.of_nextLayers_answered hv hnext).1, fun w hw => by cases hw⟩
  | case3 fresh v left root hnext =>
    exact ⟨fun _ hl => absurd hl List.not_mem_nil, hp.of_nextLayers_exhausted hv hnext⟩

theorem hasType_of_here? {aliases : OrdMap ValueId ValueId}
    (h : compositeSearch.here? p aliases v = some t) : p.HasType t := by
  obtain ⟨u, hu, h⟩ := Option.bind_eq_some_iff.1 h
  split at h
  · cases h
    obtain ⟨x, hx, rfl⟩ := Option.map_eq_some_iff.1 hu
    exact hp.hasType_of_value hx
  · obtain ⟨pointee, hpointee, h⟩ := Option.bind_eq_some_iff.1 h
    split at h
    · cases h
      exact hp.hasType_of_pointeeOf? hpointee
    · obtain ⟨conversion, -, h⟩ := Option.bind_eq_some_iff.1 h
      exact hp.hasType_of_pointee? h

theorem hasType_of_baseType? {aliases : OrdMap ValueId ValueId}
    (h : p.baseType? aliases v = some t) : p.HasType t := by
  unfold baseType? at h
  split at h
  · rename_i hrun
    cases h
    have hkeeps : (p.compositeSearch aliases).Keeps fun _ _ _ => True :=
      ⟨fun _ _ _ => trivial, fun _ _ => trivial⟩
    obtain ⟨_, u, _, _, -, -, hvisit⟩ := hkeeps.answered trivial (Prod.ext rfl hrun)
    simp only [compositeSearch] at hvisit
    split at hvisit
    · rename_i hhere
      cases hvisit
      exact hp.hasType_of_here? hhere
    · cases hvisit
  · cases h

theorem hasLayers_typeChain (aliases : OrdMap ValueId ValueId) (hv : p.HasValue v) :
    p.HasLayers (p.typeChain aliases v).1 := by
  intro l hl
  rcases List.mem_append.1 hl with hl | hl
  · obtain ⟨t, ht, rfl⟩ := Option.map_eq_some_iff.1 (Option.mem_toList.1 hl)
    exact hp.hasType_of_baseType? ht
  · exact (hp.of_layersFrom p.valueIds hv).1 l hl

theorem hasLayers_layersOf (hv : p.HasValue v) : p.HasLayers (Gathered.layersOf p v) := by
  unfold Gathered.layersOf
  split
  · rename_i hnext
    exact (hp.of_nextLayers_answered hv (Prod.ext rfl hnext)).1
  · exact fun _ hl => absurd hl List.not_mem_nil

theorem hasValue_of_copy? {copy : ValueId × ValueId} (h : Gathered.copy? p v = some copy) :
    p.HasValue copy.1 ∧ p.HasValue copy.2 := by
  unfold Gathered.copy? at h
  split at h
  · rename_i hop
    cases h
    exact ⟨hp.hasValue_of_opcode? hop (List.mem_cons_of_mem _ List.mem_cons_self),
      hp.hasValue_of_opcode? hop List.mem_cons_self⟩
  · rename_i hop
    obtain ⟨_, -, rfl⟩ := Option.map_eq_some_iff.1 h
    exact ⟨hp.hasValue_of_opcode? hop List.mem_cons_self,
      hp.hasValue_of_opcode? hop (List.mem_cons_of_mem _ List.mem_cons_self)⟩
  · cases h

end Program.Valid

/-! ## What is gathered is in range -/

/-- The functions that are held exist. -/
structure Facts.InRange (p : Program) (facts : Facts TypeKey) : Prop where
  confined : facts.confined.All fun _ fields =>
    fields.All fun _ functions => ∀ f ∈ functions, p.HasFunction f
  stored : ∀ f ∈ facts.stored, p.HasFunction f

namespace Facts.InRange

variable {p : Program} {facts : Facts TypeKey} (h : facts.InRange p) {f : FunctionId}

theorem empty (p : Program) : ({} : Facts TypeKey).InRange p :=
  ⟨.empty, fun _ hf => absurd hf (OrdSet.not_mem_empty _)⟩

include h

theorem confine (hf : p.HasFunction f) (l : Layer TypeKey) : (facts.confine l f).InRange p where
  confined := h.confined.alter fun fields? hfields => by
    refine OrdMap.All.alter ?_ fun functions? hfunctions g hg => ?_
    · cases fields? with
      | none => exact .empty
      | some fields => exact hfields fields rfl
    · rcases OrdSet.mem_insert.1 hg with hg | rfl
      · cases functions? with
        | none => exact absurd hg (OrdSet.not_mem_empty g)
        | some functions => exact hfunctions functions rfl g hg
      · exact hf
  stored := h.stored

theorem propagate (target source : Layer TypeKey) : (facts.propagate target source).InRange p := by
  unfold Facts.propagate
  split
  · exact h
  · exact ⟨h.confined, h.stored⟩

theorem markStored (hf : p.HasFunction f) : (facts.markStored f).InRange p :=
  ⟨h.confined, fun g hg => (OrdSet.mem_insert.1 hg).elim (h.stored g) fun hg => hg ▸ hf⟩

theorem mapFunctions {map : FunctionId → FunctionId}
    (hmap : ∀ f, p.HasFunction f → p.HasFunction (map f)) : (facts.mapFunctions map).InRange p := by
  have himage : ∀ functions : OrdSet FunctionId, (∀ f ∈ functions, p.HasFunction f) →
      ∀ f ∈ functions.image map, p.HasFunction f := by
    intro functions hfunctions f hf
    obtain ⟨g, hg, rfl⟩ := OrdSet.mem_image.1 hf
    exact hmap g (hfunctions g hg)
  exact ⟨h.confined.mapValues fun _ _ hfields => hfields.mapValues fun _ => himage,
    himage facts.stored h.stored⟩

end Facts.InRange

theorem Facts.InRange.gains {p : Program} {g g' : Gathered} (h : g.facts.InRange p)
    (hgains : g.Gains p.HasFunction g') : g'.facts.InRange p := by
  obtain ⟨rs, hrs, hfacts⟩ := hgains.noted
  rw [hfacts]
  refine List.foldlRecOn rs Facts.note h fun facts hfacts r hr => ?_
  have hnames := hrs r hr
  cases r with
  | held l f => exact hfacts.confine hnames l
  | copied target source => exact hfacts.propagate target source
  | escaped l => exact ⟨hfacts.confined, hfacts.stored⟩
  | capped t => exact ⟨hfacts.confined, hfacts.stored⟩
  | stored f => exact hfacts.markStored hnames

/-- The functions that are held and the conversions that type results of calls exist. -/
structure Gathered.InRange (p : Program) (g : Gathered) : Prop where
  facts : g.facts.InRange p
  aliases : g.aliases.All fun _ w => p.HasValue w

namespace Gathered

/-- The aggregates around elements exist. -/
def Containers.InRange (p : Program) (containers : Containers) : Prop :=
  containers.All fun _ around => p.HasValue around.1

theorem Containers.InRange.around {p : Program} {containers : Containers}
    (h : containers.InRange p) {v : ValueId} {e : ValueId × Nat} (he : e ∈ containers.around v) :
    p.HasValue e.1 := by
  have hkeeps : containers.wayOut.Keeps fun _ _ found => ∀ e ∈ found, p.HasValue e.1 := by
    refine ⟨fun {_ _ u found _ _} hfound _ hvisit => ?_, fun hfound _ => hfound⟩
    simp only [wayOut] at hvisit
    split at hvisit
    · rename_i container slot hget
      cases hvisit
      intro e he
      rcases List.mem_append.1 he with he | he
      · exact hfound e he
      · rw [List.mem_singleton.1 he]
        exact h.of_get? hget
    · cases hvisit
      exact hfound
  obtain ⟨_, hfound⟩ := hkeeps.explore containers.keys [v] []
    fun _ he => absurd he List.not_mem_nil
  exact hfound e he

def Element.InRange (p : Program) : Element → Prop
  | .function f => p.HasFunction f
  | .capped t => p.HasType t
  | _ => True

section Element

variable {p : Program} (hp : p.Valid) {container v : ValueId} (hcontainer : p.HasValue container)
include hp

theorem inRange_plainElement : (plainElement p v).InRange p := by
  unfold plainElement
  split
  · rename_i hpointee _
    split
    · exact hp.hasType_of_pointee? hpointee
    · trivial
  · split <;> trivial

include hcontainer

theorem inRange_convertedElement : (convertedElement p container v).InRange p := by
  unfold convertedElement
  split
  · rename_i hkind
    exact hp.kindOk hkind
  · split
    · exact hp.hasType_typeOf hcontainer
    · trivial
  · trivial

theorem inRange_element : (element p container v).InRange p := by
  unfold element
  split
  · rename_i hfunction
    exact hp.kindOk (Program.function?_bind_eq_some_iff.1 hfunction)
  · split
    · trivial
    · split
      · exact inRange_convertedElement hp hcontainer
      · exact inRange_convertedElement hp hcontainer
      · exact inRange_plainElement hp

end Element

namespace InRange

variable {view : View} (hview : view.Valid) {g : Gathered} (h : g.InRange view.program)

theorem notes (h : g.InRange view.program) {step : Gathered → Gathered}
    (hstep : Notes view (fun _ => True) (fun _ => True) view.program.HasFunction step) :
    (step g).InRange view.program where
  facts := h.facts.gains (.of_notes hstep g)
  aliases := by
    rw [hstep.aliases]
    exact h.aliases

include h in
theorem collectAliases (hp : view.program.Valid) (f : FunctionId) :
    (g.collectAliases view.program f).InRange view.program := by
  let Found : OrdMap ValueId (Option ValueId) → Prop := fun found =>
    found.All fun _ conversion => ∀ v, conversion = some v → view.program.HasValue v
  unfold Gathered.collectAliases recover
  extract_lets found
  have hfound : Found found := by
    refine List.foldlRecOn _ _ .empty fun found hfound v hv => ?_
    split
    · refine hfound.alter fun conversion _ w hw => ?_
      cases conversion with
      | none => exact Option.some.inj hw ▸ hp.hasValue_instruction hv
      | some _ => cases hw
    · exact hfound
  refine ⟨h.facts, List.foldlRecOn _ _ h.aliases fun known hknown e he => ?_⟩
  obtain ⟨call, conversion⟩ := e
  cases conversion with
  | none => exact hknown
  | some v => exact hknown.insert (hfound _ he v rfl)

theorem containers_visitElement {v : ValueId} (hv : view.program.HasValue v)
    {state : Facts TypeKey × Containers × List ValueId} (hstate : state.2.1.InRange view.program)
    (e : ValueId × Nat) : (visitElement view v state e).2.1.InRange view.program := by
  have hcontainers : Containers.InRange view.program (state.2.1.insert e.1 (v, e.2)) :=
    OrdMap.All.insert hstate (show view.program.HasValue (v, e.2).1 from hv)
  unfold visitElement
  dsimp only
  split <;> exact hcontainers

theorem keeps_aggregateSearch (view : View) : (aggregateSearch view).Keeps fun left _ state =>
    (∀ v ∈ left, view.program.HasValue v) ∧ state.2.InRange view.program where
  visit {left todo v state state' next} hinv hv hvisit := by
    obtain ⟨hleft, hstate⟩ := hinv
    have hfound := List.foldlRecOn (motive := fun s : Facts TypeKey × Containers × List ValueId =>
        s.2.1.InRange view.program) ((view.program.elements? v).getD []).zipIdx
      (visitElement view v) (b := (state.1, state.2, [])) hstate
      fun s hs e _ => containers_visitElement (hleft v hv) hs e
    simp only [aggregateSearch, visitAggregate] at hvisit
    cases hvisit
    exact ⟨fun w hw => hleft w (List.mem_of_mem_erase hw), hfound⟩
  pass hinv _ := hinv

variable {flow : Option Flow} (hflow : ∀ fl, flow = some fl → fl.InRange view.program)
include hview hflow

theorem traces : view.Traces flow view.program.HasFunction := by
  intro value trace htrace f hf
  obtain ⟨fl, hfl, htrace⟩ := Option.bind_eq_some_iff.1 htrace
  exact Flow.hasFunction_of_trace? hview (hflow fl hfl) htrace hf

include h

theorem confineInstr (v : ValueId) : (confineInstr view flow g v).InRange view.program := by
  obtain ⟨hgains, haliases⟩ :=
    gains_confineInstr hview.program.kindOk (traces hview hflow) g v
  exact ⟨h.facts.gains hgains, haliases ▸ h.aliases⟩

theorem confineIn (f : FunctionId) : (g.confineIn view flow f).InRange view.program :=
  List.foldlRecOn _ _ h fun _ hg v _ => hg.confineInstr hview hflow v

theorem function (f : FunctionId) : (function view flow g f).InRange view.program :=
  ((h.collectAliases hview.program f).confineIn hview hflow f).notes (notes_propagateIn f)

theorem module (m : Module) : (g.module view flow m).InRange view.program := by
  rw [Gathered.module]
  refine List.foldlRecOn _ _ ?_ fun _ hg f _ => hg.function hview hflow f
  exact List.foldlRecOn _ _ h fun _ hg id _ => hg.notes (.confineInit hview.program.kindOk id)

omit hflow in
theorem linked : (g.linked view).InRange view.program :=
  ⟨h.facts.mapFunctions fun _ hf => hview.hasFunction_definitionOf hf, h.aliases⟩

end InRange

end Gathered

section Conversions

variable {p : Program} (hp : p.Valid) {s t : TypeId} (hs : p.HasType s) (ht : p.HasType t)
include hp

include hs ht in
theorem Program.Valid.hasType_of_reinterpretation? {found : TypeId × Bool}
    (h : Gathered.reinterpretation? p.types s t = some found) : p.HasType found.1 := by
  have hinner := hp.hasType_innermost hs
  have houter := hp.hasType_innermost ht
  unfold Gathered.reinterpretation? at h
  dsimp only at h
  split at h
  · split at h
    · cases h
      exact hinner
    · split at h
      · cases h
        exact houter
      · cases h
  · split at h
    · cases h
      exact hinner
    · cases h
  · split at h
    · cases h
      exact houter
    · cases h
  · cases h

theorem Program.Valid.hasValue_of_mem_conversions {f : FunctionId} {v : ValueId}
    (h : v ∈ Gathered.conversions p f) : p.HasValue v := by
  suffices hall : ∀ u ∈ Gathered.conversions p f, p.HasValue u from hall v h
  refine List.foldlRecOn (motive := fun found : OrdSet ValueId => ∀ u ∈ found, p.HasValue u) _ _
    (fun u hu => absurd hu (OrdSet.not_mem_empty u)) fun found hfound w hw u hu => ?_
  rcases OrdSet.mem_insertMany.1 hu with hu | hu
  · split at hu
    · rcases OrdSet.mem_insert.1 hu with hu | rfl
      · exact hfound u hu
      · exact hp.hasValue_instruction hw
    · exact hfound u hu
  · exact hp.hasValue_operand (List.mem_of_mem_filter hu)

end Conversions

end CallTargets
