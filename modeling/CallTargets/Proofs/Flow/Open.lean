import CallTargets.Proofs.Analysis.Phases
import CallTargets.Proofs.Flow.Params

/-!
# Parameters of which nothing is known

Nothing is known about the parameters of a function whose address is taken, because calls through
pointers pass arguments that the flow does not see. A parameter also becomes unknown if a
direct call passes something to it that cannot be traced when the call is visited, and these are
all the reasons (`unknown_ofView_iff`). In particular, only the address that the function itself has
counts. The address of a declaration that stands for the function may be taken as well, and
the function be called through it, but that is not asked for (`known_of_takenDeclaration`).
-/

namespace CallTargets

theorem Program.Valid.addressTaken_iff {p : Program} (hp : p.Valid) {f : FunctionId} {fn : Function}
    (hf : p.function? f = some fn) :
    fn.addressTaken = true ↔ ∃ user ∈ p.usersOf fn.value, p.takesAddress fn.value user = true := by
  have husers : p.findUsers = p.users := congrArg Program.users hp.derived
  have hfn := function?_withUses (p := p) (f := f)
  rw [hp.derived, hf, husers] at hfn
  rw [congrArg Function.addressTaken (Option.some.inj hfn)]
  exact List.any_eq_true

namespace Flow

open Relation

variable {view : View} {flow final : Flow} {a : Passing} {k : FunctionId × Nat}

/-! ## Merging one argument at a time -/

def Passing.mergeInto (view : View) (a : Passing) (flow : Flow) : Flow :=
  (pass view flow a.callee a.index a.arg).1

/-- A direct call of the program passes the argument. -/
def IsPassed (view : View) (a : Passing) : Prop :=
  ∃ caller ∈ defined view.program, a ∈ passings view caller

/-- One flow becomes another one by merging arguments of direct calls, one at a time. -/
def Merges (view : View) : Flow → Flow → Prop :=
  ReflTransGen fun flow flow' => ∃ a, IsPassed view a ∧ flow' = a.mergeInto view flow

theorem merges_visit {caller : FunctionId} (hcaller : caller ∈ defined view.program)
    (flow : Flow) : Merges view flow (visit view flow caller).1 := by
  rw [visit_eq]
  refine List.foldlRecOn (motive := fun state : Flow × OrdSet FunctionId =>
    Merges view flow state.1) _ _ .refl fun state hstate a ha => ?_
  exact hstate.tail ⟨a, ⟨caller, hcaller, ha⟩, rfl⟩

theorem merges_settle {members : List FunctionId}
    (hmembers : ∀ f ∈ members, f ∈ defined view.program) (queue : List FunctionId)
    (hqueue : ∀ f ∈ queue, f ∈ members) (flow : Flow) :
    Merges view flow (settle view members queue flow) := by
  fun_induction settle view members queue flow with
  | case1 flow => exact .refl
  | case2 flow f queue next hlt again ih =>
    have hf : f ∈ defined view.program := hmembers f (hqueue f List.mem_cons_self)
    refine (merges_visit hf flow).trans (ih fun g hg => ?_)
    rcases List.mem_append.1 hg with hg | hg
    · exact hqueue g (List.mem_cons_of_mem f hg)
    · have hmember := (List.mem_filter.1 hg).2
      simp only [Bool.and_eq_true, List.contains_iff_mem] at hmember
      exact hmember.1
  | case3 flow f queue next hlt ih => exact ih fun g hg => hqueue g (List.mem_cons_of_mem f hg)

/-- The flow before any call is looked at, all functions with a body taken together. -/
def first (view : View) : Flow :=
  start view.program (defined view.program) (directCalls view (defined view.program))

theorem merges_ofView (view : View) : Merges view (first view) (ofView view) := by
  rw [ofView]
  refine List.foldlRecOn _ _ .refl fun flow hflow members hmembers => ?_
  refine hflow.trans (merges_settle (fun f hf => ?_) members (fun f hf => hf) flow)
  exact (perm_flatten_rounds view).mem_iff.1 (List.mem_flatten.2 ⟨members, hmembers, hf⟩)

/-! ## What becomes unknown -/

theorem get?_mergeInto (view : View) (a : Passing) (flow : Flow) (k : FunctionId × Nat) :
    (a.mergeInto view flow).params.get? k =
      if a.param = k then
        (flow.params.get? k).map (·.merge ((view.trace? flow a.arg).map Trace.functions))
      else flow.params.get? k := by
  unfold Passing.mergeInto pass
  by_cases hk : a.param = k
  · subst hk
    rw [if_pos rfl, show flow.params.get? a.param = flow.params.get? (a.callee, a.index) from rfl]
    cases hold : flow.params.get? (a.callee, a.index) with
    | none => exact hold
    | some old => exact (OrdMap.get?_insert _ _ _ _).trans (if_pos rfl)
  · rw [if_neg hk]
    cases flow.params.get? (a.callee, a.index) with
    | none => rfl
    | some old => exact (OrdMap.get?_insert _ _ _ _).trans (if_neg hk)

theorem merge_eq_unknown_iff {old : ParamFlow} {incoming : Option (OrdSet FunctionId)} :
    old.merge incoming = .unknown ↔ old = .unknown ∨ incoming = none := by
  cases old <;> cases incoming <;> simp [ParamFlow.merge]

/-- A merge makes a parameter unknown only if it is that of the argument, and the argument
cannot be traced. -/
theorem unknown_mergeInto_iff (hk : (flow.params.get? k).isSome) :
    (a.mergeInto view flow).params.get? k = some .unknown ↔
      flow.params.get? k = some .unknown ∨ a.param = k ∧ view.trace? flow a.arg = none := by
  obtain ⟨old, hold⟩ := Option.isSome_iff_exists.1 hk
  rw [get?_mergeInto, hold]
  by_cases ha : a.param = k
  · rw [if_pos ha, Option.map_some, Option.some.injEq, merge_eq_unknown_iff, Option.map_eq_none_iff]
    simp [ha]
  · simp [ha]

theorem isSome_mergeInto (hk : (flow.params.get? k).isSome) :
    ((a.mergeInto view flow).params.get? k).isSome := by
  rw [get?_mergeInto]
  split
  · rw [Option.isSome_map]
    exact hk
  · exact hk

theorem Merges.isSome (h : Merges view flow final) (hk : (flow.params.get? k).isSome) :
    (final.params.get? k).isSome := by
  induction h with
  | refl => exact hk
  | tail _ hstep ih =>
    obtain ⟨a, -, rfl⟩ := hstep
    exact isSome_mergeInto ih

theorem Merges.unknown (h : Merges view flow final) (hk : flow.params.get? k = some .unknown) :
    final.params.get? k = some .unknown := by
  induction h with
  | refl => exact hk
  | tail _ hstep ih =>
    obtain ⟨a, -, rfl⟩ := hstep
    exact (unknown_mergeInto_iff (by simp [ih])).2 (.inl ih)

/-- A direct call passes to a parameter something that cannot be traced when it is merged, on the
way from one flow to another. -/
def LosesTrack (view : View) (flow final : Flow) (k : FunctionId × Nat) : Prop :=
  ∃ a now, IsPassed view a ∧ a.param = k ∧ Merges view flow now ∧
    view.trace? now a.arg = none ∧ Merges view (a.mergeInto view now) final

theorem Merges.unknown_iff (h : Merges view flow final) (hk : (flow.params.get? k).isSome) :
    final.params.get? k = some .unknown ↔
      flow.params.get? k = some .unknown ∨ LosesTrack view flow final k := by
  constructor
  · induction h with
    | refl => exact .inl
    | tail hpath hstep ih =>
      obtain ⟨a, ha, rfl⟩ := hstep
      intro hunknown
      have hsome := Merges.isSome hpath hk
      rcases (unknown_mergeInto_iff hsome).1 hunknown with hold | ⟨hparam, hlost⟩
      · rcases ih hold with hfirst | ⟨b, now, hb, hbk, hnow, hlost, hrest⟩
        · exact .inl hfirst
        · exact .inr ⟨b, now, hb, hbk, hnow, hlost, hrest.tail ⟨a, ha, rfl⟩⟩
      · exact .inr ⟨a, _, ha, hparam, hpath, hlost, .refl⟩
  · rintro (hfirst | ⟨a, now, ha, hparam, hnow, hlost, hrest⟩)
    · exact h.unknown hfirst
    · exact hrest.unknown ((unknown_mergeInto_iff (hnow.isSome hk)).2 (.inr ⟨hparam, hlost⟩))

/-! ## What is unknown from the start -/

section Track

variable {p : Program} {f g : FunctionId} {fn : Function} {index : Nat} {param : ValueId}
  {params : OrdMap (FunctionId × Nat) ParamFlow}

theorem get?_track_of_ne (hne : g ≠ f) (isOpen : Bool) (e : ValueId × Nat) :
    (track p g isOpen params e).get? (f, index) = params.get? (f, index) := by
  unfold track
  split
  · rw [OrdMap.get?_insert, if_neg fun h => hne (congrArg Prod.fst h)]
  · rfl

theorem get?_trackAll_of_ne (hne : g ≠ f) (called : List Nat) (place : Nat) :
    (trackAll p called params (g, place)).get? (f, index) = params.get? (f, index) := by
  unfold trackAll
  split
  · exact List.foldlRecOn (motive := fun tracked : OrdMap (FunctionId × Nat) ParamFlow =>
      tracked.get? (f, index) = params.get? (f, index)) _ _ rfl
      fun tracked h e _ => (get?_track_of_ne hne _ e).trans h
  · rfl

variable (hf : p.function? f = some fn) (hparam : fn.params[index]? = some param)
  (hpointer : (p.functionPointee? param).isSome)
include hf hparam hpointer

theorem get?_trackAll (called : List Nat) (place : Nat) :
    (trackAll p called params (f, place)).get? (f, index) =
      some (if isOpen called place fn then .unknown else .known ∅) := by
  simp only [trackAll, hf]
  refine foldl_of_mem (P := fun tracked : OrdMap (FunctionId × Nat) ParamFlow =>
      tracked.get? (f, index) = some (if isOpen called place fn then .unknown else .known ∅))
    (List.mk_mem_zipIdx_iff_getElem?.2 hparam) (fun tracked => ?_) fun tracked e h => ?_
  · simp [track, hpointer]
  · unfold track
    split
    · rw [OrdMap.get?_insert]
      split
      · rfl
      · exact h
    · exact h

/-- In the beginning a function pointer parameter is unknown if the function is open, and else
is passed nothing. -/
theorem get?_start {fs : List FunctionId} (hn : fs.Nodup) {place : Nat}
    (hplace : fs[place]? = some f) (calls : Adjacency) :
    (start p fs calls).params.get? (f, index) =
      some (if isOpen calls.toList.flatten place fn then .unknown else .known ∅) := by
  rw [params_start]
  refine foldl_of_mem_of_inv (I := fun _ => True)
    (P := fun tracked : OrdMap (FunctionId × Nat) ParamFlow => tracked.get? (f, index) =
      some (if isOpen calls.toList.flatten place fn then .unknown else .known ∅))
    (List.mk_mem_zipIdx_iff_getElem?.2 hplace) trivial (fun _ _ _ _ => trivial)
    (fun tracked _ => get?_trackAll hf hparam hpointer _ place) fun tracked e he _ h => ?_
  obtain ⟨g, place'⟩ := e
  have hplace' := List.mk_mem_zipIdx_iff_getElem?.1 he
  by_cases hne : g = f
  · -- the function has one place only
    subst hne
    obtain ⟨hlt, hget⟩ := List.getElem?_eq_some_iff.1 hplace
    obtain ⟨hlt', hget'⟩ := List.getElem?_eq_some_iff.1 hplace'
    obtain rfl : place' = place := hn.getElem_inj_iff.1 (hget'.trans hget.symm)
    exact get?_trackAll hf hparam hpointer _ place'
  · exact (get?_trackAll_of_ne hne _ place').trans h

end Track

def IsCalled (view : View) (f : FunctionId) : Prop :=
  ∃ g ∈ defined view.program, ∃ site ∈ view.program.callSites g,
    view.directTarget? site.call.callee = some f

theorem contains_called_iff (view : View) {f : FunctionId} {place : Nat}
    (hplace : (defined view.program)[place]? = some f) :
    (directCalls view (defined view.program)).toList.flatten.contains place = true ↔
      IsCalled view f := by
  have hidx : (defined view.program).idxOf? f = some place := by
    obtain ⟨hlt, hget⟩ := List.getElem?_eq_some_iff.1 hplace
    refine List.idxOf?_eq_some_iff.2 ⟨hlt, hget, fun j hj heq => ?_⟩
    have := (nodup_defined view.program).getElem_inj_iff.1 (heq.trans hget.symm)
    omega
  rw [List.contains_iff_mem]
  simp only [directCalls, List.toList_toArray, List.mem_flatten, List.mem_map, IsCalled]
  constructor
  · rintro ⟨_, ⟨g, hg, rfl⟩, hmem⟩
    obtain ⟨site, hsite, htarget⟩ := List.mem_filterMap.1 hmem
    obtain ⟨f', hf', hidx'⟩ := Option.bind_eq_some_iff.1 htarget
    obtain ⟨hlt, hget, -⟩ := List.idxOf?_eq_some_iff.1 hidx'
    obtain rfl : f' = f := Option.some.inj
      ((List.getElem?_eq_some_iff.2 ⟨hlt, hget⟩).symm.trans hplace)
    exact ⟨g, hg, site, hsite, hf'⟩
  · rintro ⟨g, hg, site, hsite, htarget⟩
    exact ⟨_, ⟨g, hg, rfl⟩, List.mem_filterMap.2 ⟨site, hsite, by rw [htarget]; exact hidx⟩⟩

section Unknown

variable {f : FunctionId} {fn : Function} {index : Nat} {param : ValueId}

theorem isOpen_iff {called : List Nat} {place : Nat} :
    isOpen called place fn = true ↔
      fn.addressTaken = true ∨ fn.linkage.isExternal = true ∧ ¬ called.contains place = true := by
  rw [isOpen, Bool.or_eq_true, Bool.and_eq_true, Bool.not_eq_true', Bool.not_eq_true]

theorem get?_first (view : View) (hf : view.program.function? f = some fn)
    (hparam : fn.params[index]? = some param)
    (hpointer : (view.program.functionPointee? param).isSome) {place : Nat}
    (hplace : (defined view.program)[place]? = some f) :
    (first view).params.get? (f, index) =
      some (if isOpen (directCalls view (defined view.program)).toList.flatten place fn
        then .unknown else .known ∅) :=
  get?_start hf hparam hpointer (nodup_defined view.program) hplace _

/-- A function pointer parameter of a function with a body is unknown exactly if the address of
the function is taken, if the function can be seen from outside and no direct call leads to it,
or if a direct call passes it something that cannot be traced. -/
theorem unknown_ofView_iff [Hasher] {p : Program} (hp : p.Valid) (hf : p.function? f = some fn)
    (hbody : p.isDeclaration f = false) (hparam : fn.params[index]? = some param)
    (hpointer : (p.functionPointee? param).isSome) :
    (ofView (View.ofProgram p).link).params.get? (f, index) = some .unknown ↔
      (∃ user ∈ p.usersOf fn.value, p.takesAddress fn.value user = true) ∨
      (fn.linkage.isExternal = true ∧ ¬ IsCalled (View.ofProgram p).link f) ∨
      LosesTrack (View.ofProgram p).link (first (View.ofProgram p).link)
        (ofView (View.ofProgram p).link) (f, index) := by
  have hmem : f ∈ defined p := mem_defined.2 ⟨Program.hasFunction_of_eq_some hf, hbody⟩
  obtain ⟨place, hplace⟩ := List.getElem?_of_mem hmem
  have hfirst := get?_first (View.ofProgram p).link hf hparam hpointer hplace
  have hcalled := contains_called_iff (View.ofProgram p).link hplace
  rw [(merges_ofView _).unknown_iff (Option.isSome_iff_exists.2 ⟨_, hfirst⟩), ← or_assoc]
  refine or_congr_left ?_
  rw [hfirst, ← hp.addressTaken_iff hf, ← hcalled, ← isOpen_iff]
  split <;> simp [*]

open Sample in
/-- `main` calls `run` directly and passes itself. In the other module `use` puts the address of
the declaration of `run` in a slot, and that of `walk`, and passes itself to what it loads. -/
def reached : Program :=
  let function (name : String) (t m : Nat) (linkage : Linkage) (params : List ValueId)
      (blocks : List Block) (address : Nat) : Function :=
    ⟨name, ⟨t⟩, ⟨m⟩, linkage, params, blocks, ⟨address⟩, false⟩
  Program.withUses
    { types := ⟨#[.void, .function 0 [] false, .pointer 1, .function 0 [2] false,
        .pointer 3, .pointer 4]⟩
      values := #[value 4 (.function 0), value 2 (.argument 0 0), value 2 (.function 1),
        value 4 (.function 2), value 2 (.argument 2 0), value 2 (.function 3),
        value 4 (.function 4), value 2 (.argument 4 0),
        instr 0 0 (.call ⟨1, [], 1, false⟩), instr 0 1 (.call ⟨0, [2], 3, false⟩),
        instr 5 3 (.alloca 4), instr 0 3 (.store 3 10), instr 0 3 (.store 6 10),
        instr 4 3 (.load 10), instr 0 3 (.call ⟨13, [5], 3, false⟩)]
      functions := #[function "run" 3 0 .external [1] [⟨0, [8]⟩] 0,
        function "main" 1 0 .external [] [⟨0, [9]⟩] 2,
        function "run" 3 1 .external [4] [] 3,
        function "use" 1 1 .external [] [⟨0, [10, 11, 12, 13, 14]⟩] 5,
        function "walk" 3 1 .internal [7] [⟨0, []⟩] 6]
      globals := #[]
      modules := #[⟨0, "a", [0, 1], [], []⟩, ⟨1, "b", [2, 3, 4], [], []⟩] }

theorem valid_reached : reached.Valid := Program.valid_withUses rfl

attribute [local instance] Hasher.digits

/-- The address of `walk` is taken, so that nothing is known of its parameter. -/
theorem unknown_ofView_iff_walk :
    (∃ user ∈ reached.usersOf 6, reached.takesAddress 6 user = true) ∧
      (ofView (View.ofProgram reached).link).params.get? (4, 0) = some .unknown := by
  have hwalk : reached.function? 4 =
      some ⟨"walk", 3, 1, .internal, [7], [⟨0, []⟩], 6, true⟩ := by cbv
  have husers : reached.usersOf 6 = [12] := by cbv
  have htaken : ∃ user ∈ reached.usersOf 6, reached.takesAddress 6 user = true :=
    ⟨12, husers ▸ List.mem_cons_self, rfl⟩
  have hparam : [(7 : ValueId)][0]? = some 7 := rfl
  exact ⟨htaken, (unknown_ofView_iff valid_reached hwalk (by cbv) hparam rfl).2 (.inl htaken)⟩

/-- The address of the declaration of `run` is taken, and the pointer that `use` calls may come
from it. Still `run` is known to be passed `main` only. -/
theorem known_of_takenDeclaration :
    reached.Valid ∧ (View.ofProgram reached).link.definitionOf 2 = 0 ∧
      (∃ user ∈ reached.usersOf 3, reached.takesAddress 3 user = true) ∧
      (View.ofProgram reached).link.ComesFrom 13 3 ∧
      (ofView (View.ofProgram reached).link).params.get? (0, 0) =
        some (.known (.ofList [1])) := by
  have husers : reached.usersOf 3 = [11] := by cbv
  have htaken : ∃ user ∈ reached.usersOf 3, reached.takesAddress 3 user = true :=
    ⟨11, husers ▸ List.mem_cons_self, rfl⟩
  have hload : (reached.value? 13).map Value.kind =
      some (.instr ⟨3, 0, .load 10, none⟩) := rfl
  have hheld : reached.heldIn (reached.strip 10) = [3, 6] := by cbv
  have horigins : (View.ofProgram reached).link.origins 13 = [3, 6] := by
    simp only [View.origins, show (View.ofProgram reached).link.program = reached from rfl, hload,
      hheld]
  have hcomes : (View.ofProgram reached).link.ComesFrom 13 3 :=
    .single (show _ ∈ _ from horigins ▸ List.mem_cons_self)
  exact ⟨valid_reached, by cbv, htaken, hcomes, by cbv⟩

end Unknown

end Flow

end CallTargets
