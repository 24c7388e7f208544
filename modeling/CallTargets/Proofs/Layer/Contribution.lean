import CallTargets.Proofs.Layer.Spared

/-!
# What each function contributes

Without tracing, whatever is gathered is the union of what the initial values and the functions
contribute, each for itself (`Gathered.Collected.modules`). What a function contributes depends on
the functions before it in one way only: they may have recovered the types of untyped memory, and
by these the struct types behind some pointers can be told (`View.Asks`).

So a function contributes the same at any turn, unless a pointer it asks for may come from the
result of a call whose type another function recovers (`Gathered.AsksAbroad`).

Main statement: `Gathered.Contributed.reorder`.
-/

namespace CallTargets

/-- The struct type behind a value may come from another one. -/
def Program.ComesFrom (p : Program) : ValueId → ValueId → Prop :=
  Relation.ReflTransGen fun v w => w ∈ compositeSearch.next p v

theorem Program.baseType?_congr {p : Program} {known known' : OrdMap ValueId ValueId} {v : ValueId}
    (h : ∀ w, p.ComesFrom v w → known'.get? w = known.get? w) :
    p.baseType? known' v = p.baseType? known v := by
  have hhere : ∀ w, p.ComesFrom v w →
      compositeSearch.here? p known' w = compositeSearch.here? p known w := by
    intro w hw
    unfold compositeSearch.here?
    rw [h w hw]
  have hrun : (p.compositeSearch known').run p.valueIds [v] () =
      (p.compositeSearch known).run p.valueIds [v] () := by
    refine Search.run_congr (P := p.ComesFrom v) ?_ ?_ ?_ ?_ _ _ ?_
    · rfl
    · intro _ w hw
      simp only [compositeSearch, hhere w hw]
    · exact fun _ _ => rfl
    · intro _ w _ next hw hvisit u hu
      simp only [compositeSearch] at hvisit
      split at hvisit
      · cases hvisit
      · cases hvisit
        exact hw.tail hu
    · intro w hw
      rw [List.mem_singleton.1 hw]
      exact .refl
  rw [baseType?, baseType?, hrun]

/-- The pointers whose struct types are asked for when it is the turn of a function. -/
def View.Asks (view : View) (f : FunctionId) (w : ValueId) : Prop :=
  ∃ v ∈ view.program.instructionsOf f, view.InstrAsks v w

namespace Gathered

theorem Notes.contribution (view : View) (f : FunctionId) :
    Notes view (view.Asks f) (fun _ => True) (fun _ => True)
      fun g => (g.confineIn view none f).propagateIn view f :=
  .function view.names_any (fun v hv _ hw => ⟨v, hv, hw⟩) fun _ _ => trivial

/-! ## What is known at a function's turn -/

/-- The conversion that types the result of a call, if a function recovers it. -/
def recovered? (p : Program) (f : FunctionId) (v : ValueId) : Option ValueId :=
  (recover p ∅ f).get? v

theorem get?_recover (p : Program) (known : OrdMap ValueId ValueId) (f : FunctionId)
    (v : ValueId) : (recover p known f).get? v = (recovered? p f v).or (known.get? v) := by
  refine List.foldl_rel (r := fun all own : OrdMap ValueId ValueId =>
    all.get? v = (own.get? v).or (known.get? v)) rfl ?_
  rintro ⟨call, conversion⟩ - all own hget
  cases conversion with
  | none => exact hget
  | some w =>
    dsimp only [Option.elim_some]
    rw [OrdMap.get?_insert, OrdMap.get?_insert, hget]
    split
    · rfl
    · rfl

/-- The conversions that functions have recovered, one after the other. -/
def known (p : Program) (fs : List FunctionId) : OrdMap ValueId ValueId := fs.foldl (recover p) ∅

theorem known_concat (p : Program) (fs : List FunctionId) (f : FunctionId) :
    known p (fs ++ [f]) = recover p (known p fs) f := by
  rw [known, List.foldl_concat]
  rfl

def contributed (view : View) (known : OrdMap ValueId ValueId) (f : FunctionId) : Facts TypeKey :=
  (((knowing known).confineIn view none f).propagateIn view f).facts

def initial (view : View) (id : GlobalId) : Facts TypeKey :=
  (({} : Gathered).confineInit view id).facts

/-- A function contributes the record when it is its turn: with what the functions before it and
it itself have recovered. -/
def Contributed (view : View) (fs : List FunctionId) (r : Record TypeKey) : Prop :=
  ∃ before f after, fs = before ++ f :: after ∧
    (contributed view (known view.program (before ++ [f])) f).Has r

structure Collected (view : View) (ids : List GlobalId) (fs : List FunctionId) (g : Gathered) :
    Prop where
  aliases : g.aliases = known view.program fs
  tracedStores : g.tracedStores = ∅
  has : ∀ r, g.facts.Has r ↔ (∃ id ∈ ids, (initial view id).Has r) ∨ Contributed view fs r

namespace Collected

variable {view : View} {ids : List GlobalId} {fs : List FunctionId} {g : Gathered}

theorem empty (view : View) : Collected view [] [] {} := by
  refine ⟨rfl, rfl, fun r => iff_of_false Facts.not_has_empty ?_⟩
  rintro (⟨id, hid, -⟩ | ⟨before, f, after, hfs, -⟩)
  · cases hid
  · cases before <;> cases hfs

theorem confineInit (h : Collected view ids fs g) (id : GlobalId) :
    Collected view (ids ++ [id]) fs (g.confineInit view id) := by
  have hnotes : Notes view (fun _ => False) (fun _ => False) (fun _ => True)
      (·.confineInit view id) := .confineInit view.names_any id
  refine ⟨(hnotes.aliases g).trans h.aliases, (hnotes.tracedStores g).trans h.tracedStores, ?_⟩
  intro r
  have hadds : (g.confineInit view id).facts.Has r ↔ g.facts.Has r ∨ (initial view id).Has r :=
    hnotes.has_iff ⟨fun _ hv => hv.elim, fun _ hv => hv.elim⟩ rfl r
  rw [hadds, h.has, or_right_comm]
  simp [or_and_right, exists_or]

theorem function (h : Collected view ids fs g) (f : FunctionId) :
    Collected view ids (fs ++ [f]) (Gathered.function view none g f) := by
  have hnotes := Notes.contribution view f
  have hfunction : Gathered.function view none g f =
      (({ g with aliases := known view.program (fs ++ [f]) } : Gathered).confineIn view none
        f).propagateIn view f := by
    rw [Gathered.function, collectAliases, h.aliases, known_concat]
  rw [hfunction]
  refine ⟨hnotes.aliases _, (hnotes.tracedStores _).trans h.tracedStores, fun r => ?_⟩
  have halike : Alike view (view.Asks f) (fun _ => True)
      { g with aliases := known view.program (fs ++ [f]) }
      (knowing (known view.program (fs ++ [f]))) :=
    ⟨fun _ _ => rfl, fun v _ => by rw [h.tracedStores]; rfl⟩
  have hadds := hnotes.has_iff halike rfl r
  refine hadds.trans ?_
  rw [h.has, or_assoc]
  exact or_congr_right Search.exists_split_concat_iff.symm

theorem module (h : Collected view ids fs g) (m : Module) :
    Collected view (ids ++ m.globals) (fs ++ view.definedIn m) (g.module view none m) := by
  have hinits : ∀ new : List GlobalId, Collected view (ids ++ new) fs
      (new.foldl (fun g id => g.confineInit view id) g) := by
    intro new
    induction new using List.reverseRecOn with
    | nil => rwa [List.append_nil]
    | append_singleton new id ih =>
      rw [List.foldl_concat, ← List.append_assoc]
      exact ih.confineInit id
  have hfunctions : ∀ new : List FunctionId, Collected view (ids ++ m.globals) (fs ++ new)
      (new.foldl (Gathered.function view none)
        (m.globals.foldl (fun g id => g.confineInit view id) g)) := by
    intro new
    induction new using List.reverseRecOn with
    | nil =>
      rw [List.append_nil]
      exact hinits m.globals
    | append_singleton new f ih =>
      rw [List.foldl_concat, ← List.append_assoc]
      exact ih.function f
  exact hfunctions (view.definedIn m)

theorem modules (view : View) (ms : List Module) :
    Collected view (ms.flatMap Module.globals) (ms.flatMap view.definedIn)
      (Gathered.modules view none ms) := by
  induction ms using List.reverseRecOn with
  | nil => exact empty view
  | append_singleton ms m ih =>
    rw [Gathered.modules, List.foldl_concat, List.flatMap_append, List.flatMap_append,
      List.flatMap_singleton, List.flatMap_singleton]
    exact ih.module m

end Collected

/-! ## Functions that depend on others -/

section Abroad

variable {view : View} {fs fs' : List FunctionId} {f : FunctionId} {r : Record TypeKey}

theorem get?_known_of_own {p : Program} {v : ValueId} {before : List FunctionId}
    (h : ∀ g ∈ before, g ≠ f → recovered? p g v = none) :
    (known p (before ++ [f])).get? v = recovered? p f v := by
  have hbefore : (known p before).get? v = none ∨
      (known p before).get? v = recovered? p f v := by
    induction before using List.reverseRecOn with
    | nil => exact .inl rfl
    | append_singleton before g ih =>
      have hrest := ih fun g' hg' => h g' (List.mem_append_left [g] hg')
      rw [known_concat, get?_recover]
      by_cases hg : g = f
      · rw [hg]
        rcases hrest with hrest | hrest <;> simp [hrest]
      · rw [h g (by simp) hg, Option.none_or]
        exact hrest
  rw [known_concat, get?_recover]
  rcases hbefore with hbefore | hbefore <;> simp [hbefore]

/-- The function asks for a struct type that may depend on what another one recovers. -/
def AsksAbroad (view : View) (fs : List FunctionId) (f : FunctionId) : Prop :=
  ∃ v w, view.Asks f v ∧ view.program.ComesFrom v w ∧
    ∃ g ∈ fs, g ≠ f ∧ (recovered? view.program g w).isSome

theorem contributed_of_not_asksAbroad (hf : ¬ AsksAbroad view fs f)
    {before before' : List FunctionId} (hbefore : ∀ g ∈ before, g ∈ fs)
    (hbefore' : ∀ g ∈ before', g ∈ fs)
    (hr : (contributed view (known view.program (before ++ [f])) f).Has r) :
    (contributed view (known view.program (before' ++ [f])) f).Has r := by
  have halike : Alike view (view.Asks f) (fun _ => True)
      (knowing (known view.program (before' ++ [f])))
      (knowing (known view.program (before ++ [f]))) := by
    refine ⟨fun v hv => Program.baseType?_congr fun w hw => ?_, fun _ _ => Iff.rfl⟩
    have hown : ∀ g ∈ fs, g ≠ f → recovered? view.program g w = none := fun g hg hne =>
      Option.not_isSome_iff_eq_none.1 fun hsome => hf ⟨v, w, hv, hw, g, hg, hne, hsome⟩
    exact (get?_known_of_own fun g hg => hown g (hbefore g hg)).trans
      (get?_known_of_own fun g hg => hown g (hbefore' g hg)).symm
  exact ((Notes.contribution view f).has_iff halike rfl r).2 (.inr hr)

/-- The record comes, in some order, from a function that depends on others. -/
def Wavers (view : View) (fs : List FunctionId) (r : Record TypeKey) : Prop :=
  ∃ f ∈ fs, AsksAbroad view fs f ∧ ∃ before, (∀ g ∈ before, g ∈ fs) ∧
    (contributed view (known view.program (before ++ [f])) f).Has r

theorem Contributed.reorder (h : Contributed view fs r) {all : List FunctionId}
    (hfs : ∀ g, g ∈ fs ↔ g ∈ all) (hfs' : ∀ g, g ∈ fs' ↔ g ∈ all) :
    Contributed view fs' r ∨ Wavers view all r := by
  obtain ⟨before, f, after, rfl, hr⟩ := h
  have hf : f ∈ all := (hfs f).1 (by simp)
  have hbefore : ∀ g ∈ before, g ∈ all := fun g hg => (hfs g).1 (List.mem_append_left _ hg)
  by_cases habroad : AsksAbroad view all f
  · exact .inr ⟨f, hf, habroad, before, hbefore, hr⟩
  · obtain ⟨before', after', rfl⟩ := List.append_of_mem ((hfs' f).2 hf)
    refine .inl ⟨before', f, after', rfl, ?_⟩
    exact contributed_of_not_asksAbroad habroad hbefore
      (fun g hg => (hfs' g).1 (List.mem_append_left _ hg)) hr

end Abroad

end Gathered

end CallTargets
