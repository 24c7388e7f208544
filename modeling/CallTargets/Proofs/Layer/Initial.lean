import CallTargets.Proofs.Layer.Range
import CallTargets.Proofs.Layer.Stored
import Mathlib

/-!
# Functions in initial values

The aggregates of an initial value are looked at breadth first, each of them once. Which aggregate
an element stands in is known by the last place where it was found until then, so a function is held
by the layers on one way out of each aggregate that has its address as an element, and not by those
on all ways. `mem_held_confineInit_iff` says exactly which layers these are.
-/

namespace CallTargets

open Relation

namespace Gathered

variable {u e : ValueId} {i : Nat} {place : Place} {before : List ValueId}

/-! ## Places -/

/-- An aggregate and the number of an element. -/
abbrev Place := ValueId × Nat

def elementAt? (p : Program) (place : Place) : Option ValueId :=
  (p.elements? place.1).bind (·[place.2]?)

def placedIn (v : ValueId) (elements : List (ValueId × Nat)) : List (ValueId × Place) :=
  elements.map fun e => (e.1, (v, e.2))

theorem placedIn_concat (v : ValueId) (elements : List (ValueId × Nat)) (e : ValueId × Nat) :
    placedIn v (elements ++ [e]) = placedIn v elements ++ [(e.1, (v, e.2))] := List.map_append

/-- The elements of aggregates with their places, one aggregate after the other. -/
def placed (p : Program) (seen : List ValueId) : List (ValueId × Place) :=
  seen.flatMap fun v => placedIn v ((p.elements? v).getD []).zipIdx

def lastPlace? (p : Program) (seen : List ValueId) (v : ValueId) : Option Place :=
  ((placed p seen).filter fun e => e.1 = v).getLast?.map Prod.snd

def Stands (p : Program) (seen : List ValueId) (place outer : Place) : Prop :=
  lastPlace? p seen place.1 = some outer

variable {p : Program} {seen : List ValueId} {v : ValueId} {place : Place}

theorem mem_zipIdx_iff :
    (e, i) ∈ ((p.elements? u).getD []).zipIdx ↔ elementAt? p (u, i) = some e := by
  rw [List.mem_zipIdx_iff_getElem?, elementAt?]
  cases p.elements? u <;> simp

theorem mem_placed : (v, place) ∈ placed p seen ↔ place.1 ∈ seen ∧ elementAt? p place = some v := by
  rw [← mem_zipIdx_iff, placed, List.mem_flatMap]
  constructor
  · rintro ⟨u, hu, hmem⟩
    obtain ⟨e, he, heq⟩ := List.mem_map.1 hmem
    cases heq
    exact ⟨hu, he⟩
  · rintro ⟨hseen, hmem⟩
    exact ⟨place.1, hseen, List.mem_map.2 ⟨_, hmem, rfl⟩⟩

theorem of_lastPlace? (h : lastPlace? p seen v = some place) :
    place.1 ∈ seen ∧ elementAt? p place = some v := by
  obtain ⟨e, he, rfl⟩ := Option.map_eq_some_iff.1 h
  obtain ⟨hmem, hv⟩ := List.mem_filter.1 (List.mem_of_getLast? he)
  obtain rfl : e.1 = v := by simpa using hv
  exact mem_placed.1 hmem

theorem exists_lastPlace? (hseen : place.1 ∈ seen) (hv : elementAt? p place = some v) :
    ∃ last, lastPlace? p seen v = some last := by
  have hmem : (v, place) ∈ (placed p seen).filter fun e => e.1 = v :=
    List.mem_filter.2 ⟨mem_placed.2 ⟨hseen, hv⟩, by simp⟩
  unfold lastPlace?
  cases hlast : ((placed p seen).filter fun e => e.1 = v).getLast? with
  | none =>
    rw [List.getLast?_eq_none_iff.1 hlast] at hmem
    cases hmem
  | some e => exact ⟨e.2, rfl⟩

/-! ## Containers -/

def Containers.noteAll (containers : Containers) (found : List (ValueId × Place)) : Containers :=
  found.foldl (fun containers e => containers.insert e.1 e.2) containers

theorem Containers.noteAll_concat (containers : Containers) (found : List (ValueId × Place))
    (e : ValueId × Place) :
    containers.noteAll (found ++ [e]) = (containers.noteAll found).insert e.1 e.2 := by
  rw [noteAll, List.foldl_append]
  rfl

theorem Containers.get?_noteAll (containers : Containers) (found : List (ValueId × Place))
    (v : ValueId) : (containers.noteAll found).get? v =
      ((found.filter fun e => e.1 = v).getLast?.map Prod.snd).or (containers.get? v) := by
  induction found using List.reverseRecOn with
  | nil => rfl
  | append_singleton found e ih =>
    rw [noteAll_concat, OrdMap.get?_insert, List.filter_append]
    by_cases he : e.1 = v
    · rw [if_pos he, List.filter_cons_of_pos (by simpa using he), List.filter_nil,
        List.getLast?_concat]
      rfl
    · rw [if_neg he, List.filter_cons_of_neg (by simpa using he), List.filter_nil, List.append_nil]
      exact ih

theorem Containers.exists_around (containers : Containers) (v : ValueId) : ∃ seen : List ValueId,
    (∀ place, place ∈ containers.around v ↔ ∃ u ∈ seen, containers.get? u = some place) ∧
      (v ∈ containers.keys → v ∈ seen) ∧
      (∀ u ∈ seen, ∀ place, containers.get? u = some place → place.1 ∈ containers.keys →
        place.1 ∈ seen) ∧
      ∀ u ∈ seen, ReflTransGen (fun u w => (containers.get? u).map Prod.fst = some w) v u := by
  have hvisit : ∀ found v, containers.wayOut.visit found v =
      .goOn (found ++ (containers.get? v).toList) ((containers.get? v).map Prod.fst).toList := by
    intro found v
    simp only [wayOut]
    cases containers.get? v <;> simp
  have hfold : ∀ (seen : List ValueId) (found : List Place),
      seen.foldl (fun found v => found ++ (containers.get? v).toList) found =
        found ++ seen.flatMap fun v => (containers.get? v).toList := by
    intro seen
    induction seen with
    | nil => simp
    | cons v seen ih => simp [ih]
  obtain ⟨seen, left, hrun, -, hstart, hclosed, hreach⟩ :=
    Search.run_eq_foldl hvisit (fun _ _ => rfl) containers.keys [v] [] containers.nodup
  have haround : containers.around v = seen.flatMap fun v => (containers.get? v).toList := by
    rw [Containers.around, Search.explore, hrun, hfold, List.nil_append]
  refine ⟨seen, fun place => by simp [haround], hstart v List.mem_cons_self,
    fun u hu place hplace hkey => hclosed u hu place.1 (by simp [hplace]) hkey, fun u hu => ?_⟩
  obtain ⟨w, hw, hpath⟩ := hreach u hu
  obtain rfl := List.mem_singleton.1 hw
  exact ReflTransGen.mono (fun a b hleads => Option.mem_toList.1 hleads) _ _ hpath

theorem Containers.mem_around {containers : Containers} {v : ValueId} :
    place ∈ containers.around v ↔ ∃ first, containers.get? v = some first ∧
      ReflTransGen (fun place outer => containers.get? place.1 = some outer) first place := by
  obtain ⟨seen, haround, hstart, hclosed, hreach⟩ := containers.exists_around v
  have hkey : ∀ {u : ValueId} {outer : Place}, containers.get? u = some outer →
      u ∈ containers.keys := fun hget => List.mem_map.2 ⟨_, OrdMap.mem_toList_of_get? hget, rfl⟩
  rw [haround]
  constructor
  · rintro ⟨u, hu, hplace⟩
    have hpath := hreach u hu
    clear haround hstart hreach
    induction hpath using ReflTransGen.head_induction_on with
    | refl => exact ⟨place, hplace, .refl⟩
    | head hstep _ ih =>
      obtain ⟨first, hfirst, rfl⟩ := Option.map_eq_some_iff.1 hstep
      obtain ⟨next, hnext, hway⟩ := ih
      exact ⟨first, hfirst, .head hnext hway⟩
  · rintro ⟨first, hfirst, hway⟩
    clear haround
    induction hway with
    | refl => exact ⟨v, hstart (hkey hfirst), hfirst⟩
    | @tail inner outer _ hstep ih =>
      obtain ⟨u, hu, hinner⟩ := ih
      exact ⟨inner.1, hclosed u hu inner hinner (hkey hstep), hstep⟩

/-! ## Addresses -/

/-- The address of a function, or a conversion of it to something that is not composite. -/
def IsAddress (p : Program) (v : ValueId) (f : FunctionId) : Prop :=
  (p.value? v).bind Value.function? = some f ∨
    (p.value? v).bind Value.function? = none ∧ p.isComposite v = false ∧ ∃ operand,
      (p.cast? v = some (.bitCast, operand) ∨ p.cast? v = some (.ptrToInt, operand)) ∧
        (p.value? operand).bind Value.function? = some f

theorem element_eq_function_iff (container : ValueId) {f : FunctionId} :
    element p container v = .function f ↔ IsAddress p v f := by
  have hconverted : ∀ {operand : ValueId}, convertedElement p container operand = .function f ↔
      (p.value? operand).bind Value.function? = some f := by
    intro operand
    rw [Program.function?_bind_eq_some_iff]
    unfold convertedElement
    split
    · rename_i hkind
      simp [hkind]
    · rename_i hkind
      split <;> simp [hkind]
    · rename_i hother _
      simp only [reduceCtorEq, false_iff]
      exact fun hkind => hother f hkind
  have hplain : plainElement p v ≠ .function f := by
    unfold plainElement
    split
    · split <;> simp
    · split <;> simp
  rw [element, IsAddress]
  split
  · rename_i hfunction
    simp [hfunction]
  · rename_i hfunction
    split
    · rename_i hcomposite
      simp [hfunction, hcomposite]
    · rename_i hcomposite
      split
      · rename_i hcast
        simp [hfunction, hcomposite, hcast, hconverted]
      · rename_i hcast
        simp [hfunction, hcomposite, hcast, hconverted]
      · rename_i hbit hint
        refine iff_of_false hplain ?_
        rintro (h | ⟨-, -, operand, h | h, -⟩)
        · rw [hfunction] at h
          cases h
        · exact hbit operand h
        · exact hint operand h

/-- What waits to be looked at behind an aggregate. -/
def Element.inner? : Element → Option ValueId
  | nested v => some v
  | _ => none

def inner (p : Program) (v : ValueId) : List ValueId :=
  ((p.elements? v).getD []).filterMap fun e => (element p v e).inner?

def looked (p : Program) (init : ValueId) : List ValueId :=
  Search.order .oldest (inner p) p.valueIds [init]

/-! ## Confining -/

def layerAt (view : View) (place : Place) : Layer TypeKey :=
  ⟨view.typeKey (view.program.typeOf place.1), .nth place.2⟩

variable {view : View} {facts : Facts TypeKey} {containers : Containers} {f g : FunctionId}
  {l : Layer TypeKey}

theorem mem_held_confineElement : f ∈ (confineElement view containers facts v g).held l ↔
    f ∈ facts.held l ∨ f = g ∧ view.program.isIntrinsic g = false ∧
      ∃ place ∈ containers.around v, l = layerAt view place := by
  have hfold : ∀ (places : List Place) (facts : Facts TypeKey),
      f ∈ (places.foldl (fun facts place => facts.confine (layerAt view place) g) facts).held l ↔
        f ∈ facts.held l ∨ f = g ∧ ∃ place ∈ places, l = layerAt view place := by
    intro places
    induction places with
    | nil => simp
    | cons place places ih =>
      intro facts
      rw [List.foldl_cons, ih, Facts.mem_held_confine]
      simp only [List.exists_mem_cons_iff]
      tauto
  unfold confineElement
  cases view.program.isIntrinsic g with
  | true => simp
  | false =>
    simp only [Bool.false_eq_true, if_false, true_and]
    exact hfold (containers.around v) (facts.markStored g)

theorem mem_held_visitElement {e : ValueId × Nat}
    {state : Facts TypeKey × Containers × List ValueId} :
    f ∈ (visitElement view u state e).1.held l ↔ f ∈ state.1.held l ∨
      IsAddress view.program e.1 f ∧ view.program.isIntrinsic f = false ∧
        ∃ place ∈ Containers.around (state.2.1.insert e.1 (u, e.2)) e.1,
          l = layerAt view place := by
  rw [← element_eq_function_iff u]
  unfold visitElement
  dsimp only
  split
  · rename_i g helement
    rw [mem_held_confineElement, helement, Element.function.injEq]
    constructor
    · rintro (hf | ⟨rfl, hg⟩)
      · exact .inl hf
      · exact .inr ⟨rfl, hg⟩
    · rintro (hf | ⟨rfl, hg⟩)
      · exact .inl hf
      · exact .inr ⟨rfl, hg⟩
  · rename_i helement
    simp [helement]
  · rename_i helement
    simp only [helement, reduceCtorEq, false_and, or_false]
    exact Iff.rfl
  · rename_i helement
    simp [helement]

theorem containers_visitElement {e : ValueId × Nat}
    {state : Facts TypeKey × Containers × List ValueId} :
    (visitElement view u state e).2 = (state.2.1.insert e.1 (u, e.2),
      state.2.2 ++ (element view.program u e.1).inner?.toList) := by
  unfold visitElement
  dsimp only
  split <;> rename_i helement <;> simp [helement, Element.inner?]

theorem containers_foldl_visitElement (view : View) (u : ValueId) (elements : List (ValueId × Nat))
    (state : Facts TypeKey × Containers × List ValueId) :
    (elements.foldl (visitElement view u) state).2 =
      (state.2.1.noteAll (placedIn u elements), state.2.2 ++
        elements.filterMap fun e => (element view.program u e.1).inner?) := by
  induction elements using List.reverseRecOn with
  | nil => simp [Containers.noteAll, placedIn]
  | append_singleton elements e ih =>
    rw [List.foldl_append, List.foldl_cons, List.foldl_nil, containers_visitElement, ih]
    simp [Containers.noteAll, placedIn, List.filterMap_append, List.filterMap_cons]
    cases (element view.program u e.1).inner? <;> rfl

theorem mem_held_foldl_visitElement (elements : List (ValueId × Nat))
    (state : Facts TypeKey × Containers × List ValueId) :
    f ∈ (elements.foldl (visitElement view u) state).1.held l ↔ f ∈ state.1.held l ∨
      ∃ before e after, elements = before ++ e :: after ∧ IsAddress view.program e.1 f ∧
        view.program.isIntrinsic f = false ∧
          ∃ place ∈ (state.2.1.noteAll (placedIn u (before ++ [e]))).around e.1,
            l = layerAt view place := by
  induction elements using List.reverseRecOn with
  | nil => simp
  | append_singleton elements e ih =>
    have hstate := congrArg Prod.fst (containers_foldl_visitElement view u elements state)
    rw [List.foldl_append, List.foldl_cons, List.foldl_nil, mem_held_visitElement, hstate, ih,
      Search.exists_split_concat_iff, or_assoc, placedIn_concat, Containers.noteAll_concat]

/-! ## Ways out -/

theorem reflTransGen_congr {α : Type} {R S : α → α → Prop} {I : α → Prop}
    (hiff : ∀ a b, I a → (R a b ↔ S a b)) (hkeeps : ∀ a b, I a → S a b → I b) {a b : α} (ha : I a) :
    ReflTransGen R a b ↔ ReflTransGen S a b := by
  constructor
  · intro h
    suffices hway : ReflTransGen S a b ∧ I b from hway.1
    induction h with
    | refl => exact ⟨.refl, ha⟩
    | tail _ hstep ih =>
      have hS := (hiff _ _ ih.2).1 hstep
      exact ⟨ih.1.tail hS, hkeeps _ _ ih.2 hS⟩
  · intro h
    suffices hway : ReflTransGen R a b ∧ I b from hway.1
    induction h with
    | refl => exact ⟨.refl, ha⟩
    | tail _ hstep ih => exact ⟨ih.1.tail ((hiff _ _ ih.2).2 hstep), hkeeps _ _ ih.2 hstep⟩

section

variable (hp : p.Valid)

include hp

theorem lt_of_elementAt? (h : elementAt? p place = some v) : v.index < place.1.index := by
  obtain ⟨elements, helements, hv⟩ := Option.bind_eq_some_iff.1 h
  obtain ⟨val, hval, hkind⟩ := Option.map_eq_some_iff.1
    (Program.const?_eq_some_iff.1 (Program.const?_of_elements? helements))
  have hoperand : v ∈ val.operands := by
    rw [Value.operands, hkind]
    exact List.mem_of_getElem? hv
  rcases ((hp.records.value hval).operand v hoperand).2 with hconst | hlt
  · rw [Value.const?, hkind] at hconst
    cases hconst
  · exact hlt

theorem mem_around_iff {containers : Containers}
    (hcontainers : ∀ v, containers.get? v = lastPlace? p before v) {found : List (ValueId × Place)}
    (hfound : ∀ e ∈ found, e.1.index < u.index) (he : elementAt? p (u, i) = some e) :
    place ∈ (containers.noteAll (found ++ [(e, (u, i))])).around e ↔
      ReflTransGen (Stands p before) (u, i) place := by
  have hget : (containers.noteAll (found ++ [(e, (u, i))])).get? e = some (u, i) := by
    rw [Containers.noteAll_concat, OrdMap.get?_insert, if_pos rfl]
  -- the values on the way out come after the aggregate, so they are not among its elements
  have hsame : ∀ outer : Place, u.index ≤ outer.1.index →
      (containers.noteAll (found ++ [(e, (u, i))])).get? outer.1 = lastPlace? p before outer.1 := by
    intro outer houter
    have hnone : (found ++ [(e, (u, i))]).filter (fun e => e.1 = outer.1) = [] := by
      refine List.filter_eq_nil_iff.2 fun x hx => ?_
      have hlt : x.1.index < u.index := by
        rcases List.mem_append.1 hx with hx | hx
        · exact hfound x hx
        · rw [List.mem_singleton.1 hx]
          exact lt_of_elementAt? hp he
      rw [decide_eq_true_eq]
      rintro heq
      rw [heq] at hlt
      omega
    rw [Containers.get?_noteAll, hnone]
    exact hcontainers outer.1
  rw [Containers.mem_around, hget]
  simp only [Option.some.injEq, exists_eq_left']
  refine reflTransGen_congr (I := fun outer => u.index ≤ outer.1.index) ?_ ?_ (Nat.le_refl _)
  · intro inner outer hinner
    rw [hsame inner hinner]
    exact Iff.rfl
  · intro inner outer hinner hstands
    have := lt_of_elementAt? hp (of_lastPlace? hstands).2
    omega

end

/-! ## Whole initial values -/

def lookAt (view : View) (state : Facts TypeKey × Containers) (v : ValueId) :
    Facts TypeKey × Containers :=
  let found := ((view.program.elements? v).getD []).zipIdx.foldl (visitElement view v)
    (state.1, state.2, [])
  (found.1, found.2.1)

theorem visit_aggregateSearch (view : View) (state : Facts TypeKey × Containers) (v : ValueId) :
    (aggregateSearch view).visit state v = .goOn (lookAt view state v) (inner view.program v) := by
  have hinner := congrArg Prod.snd (containers_foldl_visitElement view v
    ((view.program.elements? v).getD []).zipIdx (state.1, state.2, []))
  change visitAggregate view state v = _
  rw [visitAggregate, hinner]
  have hfst : ((view.program.elements? v).getD []).zipIdx.filterMap
      (fun e => (element view.program v e.1).inner?) = inner view.program v := by
    have hmap : (((view.program.elements? v).getD []).zipIdx.map Prod.fst).filterMap
        (fun e => (element view.program v e).inner?) = _ := List.filterMap_map
    rw [List.zipIdx_map_fst] at hmap
    exact hmap.symm
  rw [List.nil_append, hfst]
  rfl

/-- The address of a function is an element of an aggregate, and the layer is that of a place on the
way out of the aggregate through those that were looked at before. -/
def ConfinesIn (view : View) (before : List ValueId) (u : ValueId) (f : FunctionId)
    (l : Layer TypeKey) : Prop :=
  ∃ i e, elementAt? view.program (u, i) = some e ∧ IsAddress view.program e f ∧
    ∃ place, ReflTransGen (Stands view.program before) (u, i) place ∧ l = layerAt view place

theorem mem_held_lookAt (hp : view.program.Valid) {state : Facts TypeKey × Containers}
    (hcontainers : ∀ v, state.2.get? v = lastPlace? view.program before v) :
    f ∈ (lookAt view state u).1.held l ↔ f ∈ state.1.held l ∨
      view.program.isIntrinsic f = false ∧ ConfinesIn view before u f l := by
  have haround : ∀ {found after : List (ValueId × Nat)} {e : ValueId × Nat} {place : Place},
      ((view.program.elements? u).getD []).zipIdx = found ++ e :: after →
        (place ∈ (state.2.noteAll (placedIn u (found ++ [e]))).around e.1 ↔
          ReflTransGen (Stands view.program before) (u, e.2) place) := by
    intro found after e place hsplit
    have hmem : ∀ x ∈ found ++ [e], elementAt? view.program (u, x.2) = some x.1 := by
      intro x hx
      refine mem_zipIdx_iff.1 ?_
      rw [hsplit]
      simp only [List.mem_append, List.mem_cons] at hx ⊢
      tauto
    rw [placedIn_concat]
    refine mem_around_iff hp hcontainers ?_ (hmem e (by simp))
    intro x hx
    obtain ⟨y, hy, rfl⟩ := List.mem_map.1 hx
    exact lt_of_elementAt? hp (hmem y (List.mem_append_left _ hy))
  change f ∈ (((view.program.elements? u).getD []).zipIdx.foldl (visitElement view u)
    (state.1, state.2, [])).1.held l ↔ _
  rw [mem_held_foldl_visitElement]
  refine or_congr_right ⟨?_, ?_⟩
  · rintro ⟨found, e, after, hsplit, haddress, hintrinsic, place, hplace, hl⟩
    have he : e ∈ ((view.program.elements? u).getD []).zipIdx := by simp [hsplit]
    exact ⟨hintrinsic, e.2, e.1, mem_zipIdx_iff.1 he, haddress, place,
      (haround hsplit).1 hplace, hl⟩
  · rintro ⟨hintrinsic, i, e, he, haddress, place, hway, hl⟩
    obtain ⟨found, after, hsplit⟩ := List.append_of_mem (mem_zipIdx_iff.2 he)
    exact ⟨found, (e, i), after, hsplit, haddress, hintrinsic, place, (haround hsplit).2 hway, hl⟩

/-- A layer holds a function because of an aggregate that was looked at. -/
def Confines (view : View) (order : List ValueId) (f : FunctionId) (l : Layer TypeKey) : Prop :=
  ∃ before u after, order = before ++ u :: after ∧ ConfinesIn view before u f l

theorem confines_concat {order : List ValueId} :
    Confines view (order ++ [u]) f l ↔ Confines view order f l ∨ ConfinesIn view order u f l :=
  Search.exists_split_concat_iff

theorem lastPlace?_concat (p : Program) (seen : List ValueId) (u v : ValueId) :
    lastPlace? p (seen ++ [u]) v =
      (((placedIn u ((p.elements? u).getD []).zipIdx).filter fun e => e.1 = v).getLast?.map
        Prod.snd).or (lastPlace? p seen v) := by
  rw [lastPlace?, placed, List.flatMap_append, List.filter_append, List.getLast?_append,
    Option.map_or]
  simp [lastPlace?, placed]

theorem foldl_lookAt (hp : view.program.Valid) (facts : Facts TypeKey) (order : List ValueId) :
    (∀ v, (order.foldl (lookAt view) (facts, ∅)).2.get? v = lastPlace? view.program order v) ∧
      ∀ f l, f ∈ (order.foldl (lookAt view) (facts, ∅)).1.held l ↔
        f ∈ facts.held l ∨ view.program.isIntrinsic f = false ∧ Confines view order f l := by
  induction order using List.reverseRecOn with
  | nil => exact ⟨fun v => rfl, fun f l => by simp [Confines]⟩
  | append_singleton order u ih =>
    obtain ⟨hcontainers, hheld⟩ := ih
    rw [List.foldl_append, List.foldl_cons, List.foldl_nil]
    generalize order.foldl (lookAt view) (facts, ∅) = state at hcontainers hheld
    refine ⟨fun v => ?_, fun f l => ?_⟩
    · have hnoted := congrArg Prod.fst (containers_foldl_visitElement view u
        ((view.program.elements? u).getD []).zipIdx (state.1, state.2, []))
      change OrdMap.get? (((view.program.elements? u).getD []).zipIdx.foldl (visitElement view u)
        (state.1, state.2, [])).2.1 v = _
      rw [hnoted, Containers.get?_noteAll, hcontainers, lastPlace?_concat]
    · rw [mem_held_lookAt hp hcontainers, hheld, confines_concat, or_assoc, and_or_left]

theorem mem_inner_iff {v : ValueId} : v ∈ inner p u ↔
    ∃ i e, elementAt? p (u, i) = some e ∧ (element p u e).inner? = some v := by
  rw [inner, List.mem_filterMap]
  constructor
  · rintro ⟨e, he, hv⟩
    obtain ⟨i, hi⟩ := List.mem_iff_getElem?.1 he
    exact ⟨i, e, mem_zipIdx_iff.1 (List.mem_zipIdx_iff_getElem?.2 hi), hv⟩
  · rintro ⟨i, e, he, hv⟩
    exact ⟨e, List.mem_of_getElem? (List.mem_zipIdx_iff_getElem?.1 (mem_zipIdx_iff.2 he)), hv⟩

theorem mem_held_confineInit (hp : view.program.Valid) (gathered : Gathered) {id : GlobalId}
    {global : Global} {init : ValueId} (hglobal : view.program.global? id = some global)
    (hinit : global.init = some init) (hname : global.name ∉ linkerLists)
    (haggregate : (view.program.elements? init).isSome = true) :
    f ∈ (gathered.confineInit view id).facts.held l ↔ f ∈ gathered.facts.held l ∨
      view.program.isIntrinsic f = false ∧ Confines view (looked view.program init) f l := by
  have hskip : ¬ (linkerLists.contains global.name ||
      (view.program.elements? init).isNone) = true := by
    rw [Bool.or_eq_true, List.contains_iff_mem, Option.isNone_iff_eq_none]
    rintro (hlinker | hnone)
    · exact hname hlinker
    · rw [hnone] at haggregate
      cases haggregate
  have hfacts : (gathered.confineInit view id).facts =
      ((looked view.program init).foldl (lookAt view) (gathered.facts, ∅)).1 := by
    have horder := Search.explore_eq_foldl_order (visit_aggregateSearch view) (fun _ _ => rfl)
      view.program.valueIds [init] (gathered.facts, ∅)
    obtain ⟨name, module, type, value, _, linkage, isConstant⟩ := global
    cases hinit
    rw [confineInit, hglobal]
    dsimp only
    rw [if_neg hskip]
    exact congrArg Prod.fst horder
  rw [hfacts]
  exact (foldl_lookAt hp gathered.facts (looked view.program init)).2 f l

/-! ## Chains -/

/-- A way from an aggregate through its elements to the address of a function, with the places on
it from the outside in. -/
inductive Chain (p : Program) : ValueId → List Place → FunctionId → Prop
  | address {v e : ValueId} {i : Nat} {f : FunctionId} (he : elementAt? p (v, i) = some e)
    (haddress : IsAddress p e f) : Chain p v [(v, i)] f
  | deeper {v e : ValueId} {i : Nat} {places : List Place} {f : FunctionId}
    (he : elementAt? p (v, i) = some e) (hcomposite : p.isComposite e = true)
    (hrest : Chain p e places f) : Chain p v ((v, i) :: places) f

/-- Only the first place leads to the aggregate of the second one. -/
def LeadsAlone (p : Program) (init : ValueId) (place next : Place) : Prop :=
  ∀ u ∈ looked p init, ∀ i e, elementAt? p (u, i) = some e →
    (element p u e).inner? = some next.1 → (u, i) = place

theorem LeadsAlone.mem_before {init : ValueId} {next : Place} {after : List ValueId}
    (h : LeadsAlone p init place next) (hne : next.1 ≠ init)
    (horder : looked p init = before ++ u :: after) (hseen : next.1 = u ∨ next.1 ∈ before) :
    place.1 ∈ before := by
  obtain ⟨earlier, later, hsplit, hsub⟩ : ∃ earlier later,
      looked p init = earlier ++ next.1 :: later ∧ ∀ w ∈ earlier, w ∈ before := by
    rcases hseen with hu | hmem
    · exact ⟨before, after, hu ▸ horder, fun w hw => hw⟩
    · obtain ⟨earlier, later, rfl⟩ := List.append_of_mem hmem
      exact ⟨earlier, later ++ u :: after, by simpa using horder, fun w hw =>
        List.mem_append_left _ hw⟩
  rcases Search.exists_leads_of_order hsplit with hinit | ⟨w, hw, hleads⟩
  · exact absurd (List.mem_singleton.1 hinit) hne
  · obtain ⟨i, e, he, hinner⟩ := mem_inner_iff.1 hleads
    have hlooked : w ∈ looked p init := by
      rw [hsplit]
      exact List.mem_append_left _ hw
    rw [← h w hlooked i e he hinner]
    exact hsub w hw

section

variable {init : ValueId} {places : List Place}

theorem inner?_element {container x : ValueId} (hx : elementAt? p (v, i) = some x)
    (hcomposite : p.isComposite v = true) : (element p container v).inner? = some v := by
  obtain ⟨elements, helements, -⟩ := Option.bind_eq_some_iff.1 hx
  have hkind := Program.const?_eq_some_iff.1 (Program.const?_of_elements? helements)
  have hfunction : (p.value? v).bind Value.function? = none := by
    obtain ⟨val, hval, hkind⟩ := Option.map_eq_some_iff.1 hkind
    rw [hval, Option.bind_some, Value.function?, hkind]
  rw [element, hfunction]
  simp [hcomposite, Element.inner?]

theorem Chain.exists_elementAt? (h : Chain p v places f) :
    ∃ i x rest, places = (v, i) :: rest ∧ elementAt? p (v, i) = some x := by
  cases h with
  | address he _ => exact ⟨_, _, _, rfl, he⟩
  | deeper he _ _ => exact ⟨_, _, _, rfl, he⟩

variable (hp : p.Valid)

include hp

theorem Chain.mem_looked (h : Chain p e places f) (hcomposite : p.isComposite e = true)
    (he : elementAt? p (v, i) = some e) (hv : v ∈ looked p init) : e ∈ looked p init := by
  obtain ⟨j, x, _, -, hx⟩ := h.exists_elementAt?
  have hinner : e ∈ inner p v := mem_inner_iff.2 ⟨i, e, he, inner?_element hx hcomposite⟩
  have hvalue : p.HasValue e := by
    obtain ⟨elements, helements, hmem⟩ := Option.bind_eq_some_iff.1 he
    exact hp.hasValue_of_const? (Program.const?_of_elements? helements) (List.mem_of_getElem? hmem)
  exact (Search.order_closed p.nodup_valueIds [init]).2 v hv e hinner
    (Program.mem_valueIds.2 hvalue)

theorem Chain.suffix (h : Chain p v places f) (hv : v ∈ looked p init)
    (hle : v.index ≤ init.index) {outer inner : List Place}
    (hsplit : places = outer ++ place :: inner) :
    Chain p place.1 (place :: inner) f ∧ place.1 ∈ looked p init ∧ place.1.index ≤ init.index := by
  induction h generalizing outer with
  | address he haddress =>
    cases outer with
    | nil =>
      cases hsplit
      exact ⟨.address he haddress, hv, hle⟩
    | cons _ outer => simp at hsplit
  | deeper he hcomposite hrest ih =>
    cases outer with
    | nil =>
      cases hsplit
      exact ⟨.deeper he hcomposite hrest, hv, hle⟩
    | cons _ outer =>
      have hlt := lt_of_elementAt? hp he
      dsimp only at hlt
      exact ih (hrest.mem_looked hp hcomposite he hv) (by omega) (List.cons.inj hsplit).2

/-- If each aggregate on a chain is led to by the one before it alone, the way out goes back along
the chain. -/
theorem Chain.exists_way (h : Chain p v places f) (hv : v ∈ looked p init)
    (hle : v.index ≤ init.index) (halone : places.IsChain (LeadsAlone p init)) :
    ∃ u i e, u ∈ looked p init ∧ elementAt? p (u, i) = some e ∧ IsAddress p e f ∧
      ∀ before after, looked p init = before ++ u :: after →
        (v = u ∨ v ∈ before) ∧ ∃ first ∈ places.head?,
          ReflTransGen (Stands p before) (u, i) first := by
  induction h with
  | @address v e i f he haddress =>
    exact ⟨v, i, e, hv, he, haddress, fun _ _ _ => ⟨.inl rfl, (v, i), rfl, .refl⟩⟩
  | @deeper v e i places f he hcomposite hrest ih =>
    have hlt : e.index < v.index := lt_of_elementAt? hp he
    obtain ⟨j, x, rest, rfl, hx⟩ := hrest.exists_elementAt?
    obtain ⟨hleads, halone⟩ := List.isChain_cons_cons.1 halone
    obtain ⟨u, k, y, hu, hy, haddress, hway⟩ :=
      ih (hrest.mem_looked hp hcomposite he hv) (by omega) halone
    refine ⟨u, k, y, hu, hy, haddress, fun before after horder => ?_⟩
    obtain ⟨hseen, first, hfirst, hway⟩ := hway before after horder
    cases hfirst
    have hne : e ≠ init := by
      rintro rfl
      omega
    have hbefore : v ∈ before := hleads.mem_before hne horder hseen
    obtain ⟨last, hlast⟩ := exists_lastPlace? hbefore he
    have hstands : last = (v, i) := by
      obtain ⟨hmem, helement⟩ := of_lastPlace? hlast
      refine hleads last.1 ?_ last.2 e helement (inner?_element hx hcomposite)
      rw [horder]
      exact List.mem_append_left _ hmem
    exact ⟨.inr hbefore, (v, i), rfl, hway.tail (hstands ▸ hlast)⟩

end

/-- Exactly which layers hold a function because of an initial value. A layer on a chain to the
function is among them if each further aggregate on the chain is led to from one place only. -/
theorem mem_held_confineInit_iff (hp : view.program.Valid) {gathered : Gathered} {id : GlobalId}
    {global : Global} {init : ValueId} (hglobal : view.program.global? id = some global)
    (hinit : global.init = some init) (hname : global.name ∉ linkerLists)
    (haggregate : (view.program.elements? init).isSome = true) :
    (∀ f l, f ∈ (gathered.confineInit view id).facts.held l ↔ f ∈ gathered.facts.held l ∨
        view.program.isIntrinsic f = false ∧ Confines view (looked view.program init) f l) ∧
      ∀ f places, view.program.isIntrinsic f = false → Chain view.program init places f →
        ∀ outer place inner, places = outer ++ place :: inner →
          (place :: inner).IsChain (LeadsAlone view.program init) →
            f ∈ (gathered.confineInit view id).facts.targets (layerAt view place) := by
  have hheld := fun f l => mem_held_confineInit (f := f) (l := l) hp gathered hglobal hinit hname
    haggregate
  refine ⟨hheld, fun f places hintrinsic hchain outer place inner hsplit halone => ?_⟩
  have hvalue : view.program.HasValue init := (hp.records.global hglobal).init init hinit
  have hlooked : init ∈ looked view.program init :=
    (Search.order_closed view.program.nodup_valueIds [init]).1 init (.head _)
      (Program.mem_valueIds.2 hvalue)
  obtain ⟨hrest, hplace, hle⟩ := hchain.suffix hp hlooked (Nat.le_refl _) hsplit
  obtain ⟨u, i, e, hu, he, haddress, hway⟩ := hrest.exists_way hp hplace hle halone
  obtain ⟨before, after, horder⟩ := List.append_of_mem hu
  obtain ⟨-, first, hfirst, hway⟩ := hway before after horder
  cases hfirst
  exact Facts.mem_targets_of_mem_held ((hheld f _).2 (.inr ⟨hintrinsic, before, u, after, horder, i,
    e, he, haddress, place, hway, rfl⟩))

/-! ## An aggregate that stands in two places -/

open Sample in
/-- A table with two entries that are one and the same aggregate, and a third one. -/
def sharedEntries : Program :=
  let entry (f : Nat) : Value := value 4 (.const (.aggregate [2, ⟨f⟩]))
  let function (name : String) (address : Nat) : Function :=
    ⟨name, 1, 0, .external, [], [], ⟨address⟩, false⟩
  Program.withUses
    { types := ⟨#[.void, .function 0 [] false, .pointer 1, .integer 32,
        .struct (some "Entry") [3, 2] false, .struct (some "Table") [4, 4, 4] false,
        .pointer 5]⟩
      values := #[value 2 (.function 0), value 2 (.function 1), value 3 (.const (.int 0)),
        entry 0, entry 1, value 5 (.const (.aggregate [3, 3, 4])), value 6 (.global 0)]
      functions := #[function "twice" 0, function "once" 1]
      globals := #[⟨"table", 0, 5, 6, some 5, .external, false⟩]
      modules := #[⟨0, "m", [0, 1], [0], []⟩] }

theorem valid_sharedEntries : sharedEntries.Valid := Program.valid_withUses rfl

theorem looked_sharedEntries : looked sharedEntries 5 = [5, 3, 4] := by cbv

theorem element_sharedEntries (u : ValueId) :
    element sharedEntries u 0 = .function 0 ∧ element sharedEntries u 1 = .function 1 ∧
      element sharedEntries u 2 = .other ∧ element sharedEntries u 3 = .nested 3 ∧
        element sharedEntries u 4 = .nested 4 := by
  refine ⟨?_, ?_, ?_, ?_, ?_⟩ <;> cbv

/-- The third entry stands at the end of the table only, and the first function in the shared entry
only. -/
theorem place_sharedEntries (hu : u ∈ looked sharedEntries 5)
    (he : elementAt? sharedEntries (u, i) = some e) :
    ((element sharedEntries u e).inner? = some 4 → (u, i) = (5, 2)) ∧
      (element sharedEntries u e = .function 0 → (u, i) = (3, 1)) := by
  have htable : sharedEntries.elements? 5 = some [3, 3, 4] := rfl
  have hshared : sharedEntries.elements? 3 = some [2, 0] := rfl
  have hsingle : sharedEntries.elements? 4 = some [2, 1] := rfl
  rw [looked_sharedEntries] at hu
  simp only [List.mem_cons, List.not_mem_nil, or_false] at hu
  rcases hu with rfl | rfl | rfl
  · rw [elementAt?, htable, Option.bind_some] at he
    rcases i with _ | _ | _ | i <;> cases he <;> simp +decide [element_sharedEntries]
  · rw [elementAt?, hshared, Option.bind_some] at he
    rcases i with _ | _ | i <;> cases he <;> simp +decide [element_sharedEntries]
  · rw [elementAt?, hsingle, Option.bind_some] at he
    rcases i with _ | _ | i <;> cases he <;> simp +decide [element_sharedEntries]

attribute [local instance] Hasher.digits

/-- The third entry stands in one place, and so the table holds its function there. -/
theorem mem_held_confineInit_iff_sharedEntries :
    1 ∈ (({} : Gathered).confineInit (View.ofProgram sharedEntries) 0).facts.targets
      (layerAt (View.ofProgram sharedEntries) (5, 2)) := by
  have hchain : Chain sharedEntries 5 [(5, 2), (4, 1)] 1 :=
    .deeper (e := 4) rfl rfl (.address (e := 1) rfl (.inl rfl))
  have halone : LeadsAlone sharedEntries 5 (5, 2) (4, 1) := fun _ hu _ _ he hinner =>
    (place_sharedEntries hu he).1 hinner
  exact (mem_held_confineInit_iff valid_sharedEntries rfl rfl (by decide) rfl).2 1 _ (by cbv)
    hchain [] _ _ rfl (.cons_cons halone (.singleton _))

theorem field_of_confines_sharedEntries {l : Layer TypeKey}
    (h : Confines (View.ofProgram sharedEntries) (looked sharedEntries 5) 0 l) :
    l.field = .nth 1 := by
  obtain ⟨before, u, after, horder, i, e, he, haddress, place, hway, rfl⟩ := h
  have hu : u ∈ looked sharedEntries 5 := by
    rw [horder]
    simp
  obtain ⟨rfl, rfl⟩ := Prod.mk.inj
    ((place_sharedEntries hu he).2 ((element_eq_function_iff u).2 haddress))
  have hbefore : before = [5] := by
    rw [looked_sharedEntries] at horder
    rcases before with _ | ⟨_, _ | ⟨_, _ | ⟨_, before⟩⟩⟩ <;> simp_all +decide
  subst hbefore
  have hshared : lastPlace? sharedEntries [5] 3 = some (5, 1) := rfl
  have htable : lastPlace? sharedEntries [5] 5 = none := rfl
  have hplace : place = (3, 1) ∨ place = (5, 1) := by
    clear horder hu
    induction hway with
    | refl => exact .inl rfl
    | tail _ hstands ih =>
      rcases ih with rfl | rfl
      · exact .inr (Option.some.inj (hstands.symm.trans hshared))
      · cases hstands.symm.trans htable
  rcases hplace with rfl | rfl <;> rfl

/-- The table has the shared entry in the first place, but does not hold its function there. -/
theorem not_mem_targets_sharedEntries :
    Chain sharedEntries 5 [(5, 0), (3, 1)] 0 ∧
      0 ∉ (({} : Gathered).confineInit (View.ofProgram sharedEntries) 0).facts.targets
        (layerAt (View.ofProgram sharedEntries) (5, 0)) := by
  have hheld : ∀ l,
      0 ∈ (({} : Gathered).confineInit (View.ofProgram sharedEntries) 0).facts.held l →
        l.field = .nth 1 := by
    intro l hl
    rcases (mem_held_confineInit valid_sharedEntries {} rfl rfl (by decide) rfl).1 hl with
      hempty | ⟨-, hconfines⟩
    · cases hempty
    · exact field_of_confines_sharedEntries hconfines
  refine ⟨.deeper (e := 3) rfl rfl (.address (e := 0) rfl (.inl rfl)),
    fun htargets => ?_⟩
  rcases OrdSet.mem_union.1 htargets with hl | hl
  · cases hheld _ hl
  · cases hheld _ hl

end Gathered

end CallTargets
