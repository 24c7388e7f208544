import CallTargets.Proofs.Analysis.Phases
import CallTargets.Proofs.Layer.Facts
import Mathlib.Data.List.Infix

/-!
# What a refinement comes to

The layers behind the callee of an indirect call are fixed (`Program.layersBehind`), and so is what
any of them leave of the candidates (`Facts.left`). A refinement uses the longest beginning of
these layers that may be used (`Facts.Usable`): nothing escaped, nothing behind a capped type,
no more than the limit, and never so that nothing is left. It tells one of the reasons that keep
it from using the next layer (`Facts.Prevents`).

`Refinement.Used` says that a refinement has come so far; narrowing and walking go on from there
(`Used.narrow`, `Used.walk`). Whatever else is known about the refinement of a call follows from
the layers that it uses (`Analysis.Recalls.uses`).
-/

namespace CallTargets

variable {ls : List (Layer TypeKey)} {facts : Facts TypeKey} {stop : Stop}

/-! ## What is kept -/

def Matches.Recalls (kept : Matches) (facts : Facts TypeKey) : Prop :=
  ∀ l s, kept.get? l = some s → s = facts.matched l

theorem Matches.Recalls.recall {kept : Matches} (h : kept.Recalls facts) (l : Layer TypeKey) :
    kept.recall facts l = facts.matched l := by
  unfold Matches.recall
  cases hget : kept.get? l with
  | none => rfl
  | some s => exact h l s hget

theorem Matches.Recalls.insertIfNew {kept : Matches} (h : kept.Recalls facts) (l : Layer TypeKey) :
    Matches.Recalls (OrdMap.insertIfNew kept l (kept.recall facts l)) facts := by
  intro l' s hs
  rw [OrdMap.insertIfNew, OrdMap.get?_alter] at hs
  split at hs
  · rename_i hl
    subst hl
    cases hs
    cases hget : kept.get? l with
    | none => exact h.recall l
    | some s => exact h l s hget
  · exact h l' s hs

/-! ## Layers and what they leave -/

/-- The layers behind a value, innermost first, up to the first address computation that selects
no field. -/
def Program.layersBehind (p : Program) (fresh : List ValueId) (v : ValueId) :
    List (Layer TypeId) :=
  match p.nextLayers fresh v with
  | (left, .answered (layers, base)) =>
    if layers.isEmpty then []
    else if left.length < fresh.length then layers ++ p.layersBehind left base
    else layers
  | (_, .exhausted _) => []
termination_by fresh.length

theorem Program.layersBehind_of_nextLayers {p : Program} {fresh left : List ValueId}
    {v base : ValueId} {layers : List (Layer TypeId)}
    (hnext : p.nextLayers fresh v = (left, .answered (layers, base)))
    (hlayers : layers.isEmpty = false) :
    p.layersBehind fresh v = layers ++ p.layersBehind left base := by
  rw [Program.layersBehind, hnext]
  dsimp only
  rw [hlayers, if_neg Bool.false_ne_true, if_pos (Search.fresh_length_run_lt hnext)]

namespace Facts

variable {facts : Facts TypeKey} {max : Nat} {type : TypeKey} {baseline : OrdSet FunctionId}
  {used front : List (Layer TypeKey)} {l : Layer TypeKey}

def leave (facts : Facts TypeKey) (fs : OrdSet FunctionId) (l : Layer TypeKey) :
    OrdSet FunctionId :=
  fs.filter fun f => f ∈ facts.matched l

def left (facts : Facts TypeKey) (fs : OrdSet FunctionId) (ls : List (Layer TypeKey)) :
    OrdSet FunctionId :=
  ls.foldl facts.leave fs

/-- Layers, each with what is left when its turn has come. -/
def trail (facts : Facts TypeKey) (fs : OrdSet FunctionId) :
    List (Layer TypeKey) → List (Layer TypeKey × OrdSet FunctionId)
  | [] => []
  | l :: ls => (l, facts.leave fs l) :: facts.trail (facts.leave fs l) ls

theorem left_concat (fs : OrdSet FunctionId) (ls : List (Layer TypeKey)) (l : Layer TypeKey) :
    facts.left fs (ls ++ [l]) = facts.leave (facts.left fs ls) l := by
  simp [left, List.foldl_append]

theorem mem_left {f : FunctionId} :
    f ∈ facts.left baseline used ↔ f ∈ baseline ∧ ∀ l ∈ used, f ∈ facts.matched l := by
  induction used using List.reverseRecOn with
  | nil => simp [left]
  | append_singleton used l ih =>
    rw [left_concat, leave, OrdSet.mem_filter, ih]
    simp [or_imp, forall_and, and_assoc]

theorem trail_append (fs : OrdSet FunctionId) (ls ls' : List (Layer TypeKey)) :
    facts.trail fs (ls ++ ls') = facts.trail fs ls ++ facts.trail (facts.left fs ls) ls' := by
  induction ls generalizing fs with
  | nil => rfl
  | cons l ls ih => exact congrArg (_ :: ·) (ih _)

theorem trail_concat (fs : OrdSet FunctionId) (ls : List (Layer TypeKey)) (l : Layer TypeKey) :
    facts.trail fs (ls ++ [l]) = facts.trail fs ls ++ [(l, facts.left fs (ls ++ [l]))] := by
  rw [trail_append, left_concat]
  rfl

theorem mem_trail {s : Layer TypeKey × OrdSet FunctionId} (h : s ∈ facts.trail baseline used) :
    s.1 ∈ used ∧ ∀ f ∈ s.2, f ∈ facts.matched s.1 := by
  induction used generalizing baseline with
  | nil => cases h
  | cons l ls ih =>
    rcases List.mem_cons.1 h with rfl | h
    · exact ⟨List.mem_cons_self, fun f hf => of_decide_eq_true (OrdSet.mem_filter.1 hf).2⟩
    · exact ⟨List.mem_cons_of_mem l (ih h).1, (ih h).2⟩

theorem map_fst_trail (fs : OrdSet FunctionId) (ls : List (Layer TypeKey)) :
    (facts.trail fs ls).map Prod.fst = ls := by
  induction ls generalizing fs with
  | nil => rfl
  | cons l ls ih => exact congrArg (l :: ·) (ih _)

def reached (type : TypeKey) (used : List (Layer TypeKey)) : TypeKey :=
  (used.getLast?.map Layer.type).getD type

@[simp]
theorem reached_concat (type : TypeKey) (used : List (Layer TypeKey)) (l : Layer TypeKey) :
    reached type (used ++ [l]) = l.type := by
  simp [reached]

/-- The layers may be used on the candidates for a call of some type, one after the other. -/
structure Usable (facts : Facts TypeKey) (max : Nat) (type : TypeKey)
    (baseline : OrdSet FunctionId) (used : List (Layer TypeKey)) : Prop where
  /-- The signature is the first layer that counts. -/
  limit : used.length ≤ max - 1
  call : facts.isCapped type = true → used = []
  escaped : ∀ l ∈ used, facts.isEscaped l = false
  capped : ∀ l ∈ used.dropLast, facts.isCapped l.type = false
  left : ∀ front, front <+: used → facts.left baseline front ≠ ∅

/-- The reason keeps a layer from being used behind others, or there is no such layer. -/
def Prevents (facts : Facts TypeKey) (max : Nat) (type : TypeKey) (baseline : OrdSet FunctionId)
    (used : List (Layer TypeKey)) (next : Option (Layer TypeKey)) : Stop → Prop
  | .noCandidates => baseline = ∅
  | .limit => max ≤ used.length + 1
  | .capped t => t = reached type used ∧ facts.isCapped t = true
  | .noLayers => next = none
  | .escaped l => next = some l ∧ facts.isEscaped l = true
  | .nothingLeft l => next = some l ∧ facts.left baseline (used ++ [l]) = ∅

theorem Usable.nil (h : baseline ≠ ∅) : facts.Usable max type baseline [] where
  limit := Nat.zero_le _
  call _ := rfl
  escaped _ hl := by cases hl
  capped _ hl := by cases hl
  left front hfront := by
    rw [List.prefix_nil.1 hfront]
    exact h

theorem Usable.of_le {max' : Nat} (hle : max ≤ max') (h : facts.Usable max type baseline used) :
    facts.Usable max' type baseline used :=
  ⟨h.limit.trans (Nat.sub_le_sub_right hle 1), h.call, h.escaped, h.capped, h.left⟩

/-- One more layer may be used if the type reached is not capped and nothing speaks against the
layer. -/
theorem Usable.concat (h : facts.Usable max type baseline used)
    (hopen : facts.isCapped (reached type used) = false) (hlimit : used.length + 1 < max)
    (hescaped : facts.isEscaped l = false) (hleft : facts.left baseline (used ++ [l]) ≠ ∅) :
    facts.Usable max type baseline (used ++ [l]) where
  limit := by
    rw [List.length_append, List.length_singleton]
    omega
  call hcall := by
    rw [h.call hcall] at hopen
    exact absurd hcall (Bool.eq_false_iff.1 hopen)
  escaped l' hl' := by
    rcases List.mem_append.1 hl' with hl' | hl'
    · exact h.escaped l' hl'
    · rw [List.mem_singleton.1 hl']
      exact hescaped
  capped l' hl' := by
    rw [List.dropLast_concat] at hl'
    rcases List.eq_nil_or_concat' used with rfl | ⟨front, last, rfl⟩
    · cases hl'
    · rcases List.mem_append.1 hl' with hl' | hl'
      · exact h.capped l' (by simpa using hl')
      · rw [List.mem_singleton.1 hl']
        simpa using hopen
  left front hfront := by
    rcases List.prefix_concat_iff.1 hfront with rfl | hfront
    · exact hleft
    · exact h.left front hfront

theorem Prevents.not_usable {rest : List (Layer TypeKey)}
    (h : facts.Prevents max type baseline used (some l) stop) (hfront : front = used ++ l :: rest) :
    ¬ facts.Usable max type baseline front := by
  subst hfront
  intro husable
  cases stop with
  | noCandidates => exact husable.left [] List.nil_prefix h
  | limit =>
    have hlimit := husable.limit
    rw [List.length_append, List.length_cons] at hlimit
    change max ≤ used.length + 1 at h
    omega
  | capped t =>
    obtain ⟨rfl, hcapped⟩ := h
    rcases List.eq_nil_or_concat' used with rfl | ⟨before, last, rfl⟩
    · cases husable.call hcapped
    · have hlast : last ∈ (before ++ [last] ++ l :: rest).dropLast := by
        rw [List.dropLast_append_of_ne_nil (List.cons_ne_nil l rest)]
        simp
      have hopen := husable.capped last hlast
      simp [hopen] at hcapped
  | noLayers => cases h
  | escaped l' =>
    obtain ⟨hl, hescaped⟩ := h
    cases hl
    rw [husable.escaped l (by simp)] at hescaped
    cases hescaped
  | nothingLeft l' =>
    obtain ⟨hl, hleft⟩ := h
    cases hl
    exact husable.left (used ++ [l]) ⟨rest, by simp⟩ hleft

theorem Prevents.prefix_of_usable {rest : List (Layer TypeKey)}
    (h : facts.Prevents max type baseline used rest.head? stop) (hfront : front <+: used ++ rest)
    (husable : facts.Usable max type baseline front) : front <+: used := by
  rcases List.prefix_or_prefix_of_prefix hfront (List.prefix_append used rest) with
    hshort | ⟨more, rfl⟩
  · exact hshort
  · obtain ⟨rest', rfl⟩ := (List.prefix_append_right_inj used).1 hfront
    cases more with
    | nil => simp
    | cons l more => exact absurd husable (h.not_usable rfl)

end Facts

/-! ## Refinements under way -/

namespace Refinement

variable {facts : Facts TypeKey} {max : Nat} {type : TypeKey} {baseline : OrdSet FunctionId}
  {r : Refinement} {used : List (Layer TypeKey)}

structure Used (facts : Facts TypeKey) (max : Nat) (type : TypeKey)
    (baseline : OrdSet FunctionId) (used : List (Layer TypeKey)) (r : Refinement) : Prop where
  usable : facts.Usable max type baseline used
  steps : r.steps = facts.trail baseline used
  targets : r.targets = facts.left baseline used
  kept : r.kept.Recalls facts

/-- How a refinement ends that has layers to come: with a reason against the next one. -/
def Ends (facts : Facts TypeKey) (max : Nat) (type : TypeKey) (baseline : OrdSet FunctionId)
    (used ls : List (Layer TypeKey)) (r : Refinement) (stop : Stop) : Prop :=
  ∃ more rest, ls = more ++ rest ∧ Used facts max type baseline (used ++ more) r ∧
    facts.Prevents max type baseline (used ++ more) rest.head? stop

theorem Ends.append (more : List (Layer TypeKey))
    (h : Ends facts max type baseline (used ++ more) ls r stop) :
    Ends facts max type baseline used (more ++ ls) r stop := by
  obtain ⟨more', rest, rfl, hused, hstop⟩ := h
  rw [List.append_assoc] at hused hstop
  exact ⟨more ++ more', rest, (List.append_assoc ..).symm, hused, hstop⟩

namespace Used

variable (h : Used facts max type baseline used r)
include h

theorem depth : r.depth = used.length + 1 := by
  have hlength := congrArg List.length (facts.map_fst_trail baseline used)
  rw [List.length_map] at hlength
  rw [Refinement.depth, h.steps, hlength]

theorem last : r.last type = Facts.reached type used := by
  have hlast := congrArg List.getLast? (facts.map_fst_trail baseline used)
  rw [List.getLast?_map] at hlast
  rw [Refinement.last, Facts.reached, h.steps, ← hlast, Option.map_map]
  rfl

theorem ends (stop : Stop) (hstop : facts.Prevents max type baseline used ls.head? stop) :
    Ends facts max type baseline used ls r stop :=
  ⟨[], ls, rfl, by rwa [List.append_nil], by rwa [List.append_nil]⟩

theorem leave (l : Layer TypeKey) : (r.targets.filter fun f => f ∈ r.kept.recall facts l) =
    facts.left baseline (used ++ [l]) := by
  rw [Facts.left_concat, h.targets, h.kept.recall]
  rfl

theorem use {l : Layer TypeKey} (husable : facts.Usable max type baseline (used ++ [l])) :
    Used facts max type baseline (used ++ [l])
      ⟨r.targets.filter fun f => f ∈ r.kept.recall facts l,
        r.steps ++ [(l, r.targets.filter fun f => f ∈ r.kept.recall facts l)],
        r.kept.insertIfNew l (r.kept.recall facts l)⟩ := by
  refine ⟨husable, ?_, h.leave l, h.kept.insertIfNew l⟩
  rw [h.leave l, h.steps, Facts.trail_concat]

end Used

/-- What narrowing by layers comes to if others are behind them: all are used and their last
type is not capped, or the refinement ends. -/
def Narrowed (facts : Facts TypeKey) (max : Nat) (type : TypeKey) (baseline : OrdSet FunctionId)
    (used ls behind : List (Layer TypeKey)) : Refinement × Option Stop → Prop
  | (r, none) => Used facts max type baseline (used ++ ls) r ∧
      facts.isCapped (Facts.reached type (used ++ ls)) = false
  | (r, some stop) => Ends facts max type baseline used (ls ++ behind) r stop

theorem Narrowed.cons {l : Layer TypeKey} {behind : List (Layer TypeKey)}
    {out : Refinement × Option Stop}
    (h : Narrowed facts max type baseline (used ++ [l]) ls behind out) :
    Narrowed facts max type baseline used (l :: ls) behind out := by
  obtain ⟨r, none | stop⟩ := out
  · rwa [Narrowed, List.append_assoc] at h
  · exact Ends.append [l] h

theorem Used.narrow (h : Used facts max type baseline used r)
    (hopen : facts.isCapped (Facts.reached type used) = false)
    (ls behind : List (Layer TypeKey)) :
    Narrowed facts max type baseline used ls behind (r.narrow facts max ls) := by
  induction ls generalizing r used with
  | nil => exact ⟨by rwa [List.append_nil], by rwa [List.append_nil]⟩
  | cons l rest ih =>
    rw [Refinement.narrow]
    by_cases hlimit : max ≤ r.depth
    · rw [if_pos hlimit]
      exact h.ends .limit (show max ≤ used.length + 1 from h.depth ▸ hlimit)
    rw [if_neg hlimit]
    by_cases hescaped : facts.isEscaped l = true
    · rw [if_pos hescaped]
      exact h.ends (.escaped l) ⟨rfl, hescaped⟩
    rw [if_neg hescaped]
    dsimp only
    by_cases hempty : (r.targets.filter fun f => f ∈ r.kept.recall facts l).isEmpty = true
    · rw [if_pos hempty]
      have hkept : Used facts max type baseline used
          { r with kept := r.kept.insertIfNew l (r.kept.recall facts l) } :=
        ⟨h.usable, h.steps, h.targets, h.kept.insertIfNew l⟩
      rw [h.leave l] at hempty
      exact hkept.ends (.nothingLeft l) ⟨rfl, OrdSet.ext (List.isEmpty_iff.1 hempty)⟩
    rw [if_neg hempty]
    -- nothing speaks against the layer
    have hleft : facts.left baseline (used ++ [l]) ≠ ∅ := by
      rw [← h.leave l]
      rintro he
      rw [he] at hempty
      exact hempty rfl
    have hused := h.use (h.usable.concat hopen (by rw [h.depth] at hlimit; omega)
      (Bool.eq_false_iff.2 hescaped) hleft)
    by_cases hcapped : facts.isCapped l.type = true
    · rw [if_pos hcapped]
      refine (hused.ends (.capped l.type) ⟨?_, hcapped⟩).append [l]
      rw [Facts.reached_concat]
    · rw [if_neg hcapped]
      refine (ih hused ?_).cons
      rw [Facts.reached_concat]
      exact Bool.eq_false_iff.2 hcapped

theorem Used.walk (h : Used facts max type baseline used r) (view : View) (fresh : List ValueId)
    (v : ValueId) :
    Ends facts max type baseline used ((view.program.layersBehind fresh v).map view.layer)
      (r.walk view facts max type fresh v).1 (r.walk view facts max type fresh v).2 := by
  fun_induction Refinement.walk view facts max type fresh v r generalizing used with
  | case1 fresh v r hmax => exact h.ends .limit (show max ≤ used.length + 1 from h.depth ▸ hmax)
  | case2 fresh v r hmax hcapped =>
    rw [h.last] at hcapped ⊢
    exact h.ends (.capped _) ⟨rfl, hcapped⟩
  | case3 fresh v r hmax hcapped left root hnext =>
    rw [Program.layersBehind, hnext]
    exact h.ends .noLayers rfl
  | case4 fresh v r hmax hcapped left layers base hnext hempty =>
    rw [Program.layersBehind, hnext]
    dsimp only
    rw [if_pos hempty]
    exact h.ends .noLayers rfl
  | case5 fresh v r hmax hcapped left layers base hnext hempty r₁ stop hnarrow =>
    rw [Program.layersBehind_of_nextLayers hnext (Bool.eq_false_iff.2 hempty), List.map_append]
    have hnarrowed := h.narrow (by rwa [← h.last, ← Bool.not_eq_true]) (layers.map view.layer)
      ((view.program.layersBehind left base).map view.layer)
    rwa [hnarrow] at hnarrowed
  | case6 fresh v r hmax hcapped left layers base hnext hempty r₁ hnarrow hless ih =>
    rw [Program.layersBehind_of_nextLayers hnext (Bool.eq_false_iff.2 hempty), List.map_append]
    have hnarrowed := h.narrow (by rwa [← h.last, ← Bool.not_eq_true]) (layers.map view.layer) []
    rw [hnarrow] at hnarrowed
    exact (ih hnarrowed.1).append _
  | case7 fresh v r hmax hcapped left layers base hnext hempty r₁ hnarrow hless =>
    exact absurd (Search.fresh_length_run_lt hnext) hless

end Refinement

/-! ## Resolutions -/

/-- The resolution comes from some layers, of which no more could be used though others follow. -/
structure Resolution.Longest (facts : Facts TypeKey) (max : Nat) (type : TypeKey)
    (used rest : List (Layer TypeKey)) (r : Resolution) : Prop where
  usable : facts.Usable max type r.baseline used
  longest : ∀ front, front <+: used ++ rest → facts.Usable max type r.baseline front →
    front <+: used
  steps : r.steps = facts.trail r.baseline used
  targets : r.targets = facts.left r.baseline used
  stop : facts.Prevents max type r.baseline used rest.head? r.stop

/-- The resolution uses as many of some layers as it may. Without candidates it uses none. -/
structure Resolution.Uses (facts : Facts TypeKey) (max : Nat) (type : TypeKey)
    (ls used : List (Layer TypeKey)) (r : Resolution) : Prop where
  begins : used <+: ls
  usable : used = [] ∨ facts.Usable max type r.baseline used
  longest : ∀ front, front <+: ls → facts.Usable max type r.baseline front → front <+: used
  steps : r.steps = facts.trail r.baseline used
  targets : r.targets = facts.left r.baseline used

namespace Resolution.Uses

variable {facts : Facts TypeKey} {max max' : Nat} {type : TypeKey}
  {ls used used' : List (Layer TypeKey)} {r r' : Resolution}

theorem escaped (h : r.Uses facts max type ls used) : ∀ l ∈ used, facts.isEscaped l = false := by
  rcases h.usable with rfl | husable
  · exact fun l hl => by cases hl
  · exact husable.escaped

theorem prefix_of_le (h : r.Uses facts max type ls used) (h' : r'.Uses facts max' type ls used')
    (hbase : r'.baseline = r.baseline) (hle : max ≤ max') : used <+: used' := by
  rcases h.usable with rfl | husable
  · exact List.nil_prefix
  · exact h'.longest used h.begins (hbase ▸ husable.of_le hle)

end Resolution.Uses

namespace View

variable {facts : Facts TypeKey} {kept : Matches} {baseline : OrdSet FunctionId}

theorem refine_of_isEmpty (view : View) (max : Nat) (call : Call)
    (hbaseline : baseline.isEmpty = true) :
    view.refine facts max kept baseline (some call) =
      (⟨baseline, [], .noCandidates, baseline⟩, kept) := by
  rw [View.refine]
  dsimp only
  rw [if_pos hbaseline]

theorem refine_longest_of_recalls (hkept : kept.Recalls facts) (view : View) (max : Nat)
    (call : Call) (hbaseline : baseline ≠ ∅) :
    (view.refine facts max kept baseline (some call)).2.Recalls facts ∧
      ∃ used rest, (view.program.layersBehind view.program.valueIds call.callee).map view.layer =
          used ++ rest ∧
        (view.refine facts max kept baseline (some call)).1.Longest facts max
          (view.typeKey call.type) used rest := by
  have hempty : ¬ baseline.isEmpty = true := fun h => hbaseline (OrdSet.ext (List.isEmpty_iff.1 h))
  have hstart : Refinement.Used facts max (view.typeKey call.type) baseline []
      { targets := baseline, kept } := ⟨.nil hbaseline, rfl, rfl, hkept⟩
  obtain ⟨used, rest, hlayers, hused, hstop⟩ :=
    hstart.walk view view.program.valueIds call.callee
  rw [View.refine]
  dsimp only
  rw [if_neg hempty]
  refine ⟨hused.kept, used, rest, hlayers, hused.usable, fun front hfront husable => ?_,
    hused.steps, hused.targets, hstop⟩
  exact hstop.prefix_of_usable hfront husable

end View

/-! ## Runs -/

namespace Analysis

variable {a : Analysis} {v : ValueId} {f : FunctionId} {options : LayerOptions}

theorem fst_refine (options : LayerOptions) (a : Analysis) (v : ValueId) :
    (a.refine options v).1 =
      (a.view.refine a.gathered.facts options.limit a.kept (a.candidates v)
        ((a.view.program.callSite? v).map CallSite.call)).1 := by rw [Analysis.refine]

theorem baseline_refine (options : LayerOptions) (a : Analysis) (v : ValueId) :
    (a.refine options v).1.baseline = a.candidates v := by
  rw [fst_refine]
  unfold View.refine
  split
  · split
    · rfl
    · rfl
  · rfl

def layersBehind (a : Analysis) (v : ValueId) : List (Layer TypeKey) :=
  (a.view.program.callSite? v).elim [] fun site =>
    (a.view.program.layersBehind a.view.program.valueIds site.call.callee).map a.view.layer

def calledType (a : Analysis) (v : ValueId) : TypeKey :=
  a.view.typeKey ((a.view.program.callSite? v).elim 0 fun site => site.call.type)

/-- What a run keeps about layers is what its facts say. -/
def Recalls (a : Analysis) : Prop := a.kept.Recalls a.gathered.facts

theorem Recalls.countRefined (h : a.Recalls) (r : Resolution) : (a.countRefined r).Recalls := by
  unfold Analysis.countRefined
  split
  · exact h
  · split <;> exact h

/-- A refinement uses as many of the layers behind the callee as it may, and keeps what it finds
out about them. -/
theorem Recalls.refine (h : a.Recalls) (options : LayerOptions) (v : ValueId) :
    (a.refine options v).2.Recalls ∧
      ∃ used, (a.refine options v).1.Uses a.gathered.facts options.limit (a.calledType v)
        (a.layersBehind v) used := by
  rw [Analysis.refine]
  dsimp only
  unfold layersBehind calledType
  cases a.view.program.callSite? v with
  | none =>
    exact ⟨h.countRefined _, [], List.nil_prefix, .inl rfl, fun _ hfront _ => hfront, rfl, rfl⟩
  | some site =>
    dsimp only [Option.map_some, Option.elim_some]
    by_cases hempty : a.candidates v = ∅
    · rw [View.refine_of_isEmpty _ _ _ (by rw [hempty]; rfl)]
      refine ⟨h.countRefined _, [], List.nil_prefix, .inl rfl, fun _ _ husable => ?_, rfl, rfl⟩
      exact absurd hempty (husable.left [] List.nil_prefix)
    · obtain ⟨hkept, used, rest, hlayers, hlongest⟩ :=
        View.refine_longest_of_recalls h a.view options.limit site.call hempty
      have hrecalls : Analysis.Recalls { a with kept := _ } := hkept
      refine ⟨hrecalls.countRefined _, used, ?_, .inr hlongest.usable, fun front hfront => ?_,
        hlongest.steps, hlongest.targets⟩
      · exact hlayers ▸ List.prefix_append used rest
      · exact hlongest.longest front (hlayers ▸ hfront)

theorem mem_candidates_of_mem_refine (h : a.Recalls) (hf : f ∈ (a.refine options v).1.targets) :
    f ∈ a.candidates v := by
  obtain ⟨-, used, huses⟩ := h.refine options v
  rw [huses.targets, baseline_refine] at hf
  exact (Facts.mem_left.1 hf).1

theorem targets_refine_of_nil {max : Nat} {type : TypeKey}
    (h : (a.refine options v).1.Uses facts max type ls []) :
    (a.refine options v).1.targets = a.candidates v := by
  rw [h.targets, baseline_refine]
  rfl

theorem targets_refine_of_steps_eq_nil (h : a.Recalls)
    (hsteps : (a.refine options v).1.steps = []) :
    (a.refine options v).1.targets = a.candidates v := by
  obtain ⟨-, used, huses⟩ := h.refine options v
  have hused := a.gathered.facts.map_fst_trail (a.refine options v).1.baseline used
  rw [← huses.steps, hsteps] at hused
  exact targets_refine_of_nil (hused ▸ huses)

theorem Recalls.resolveIndirect (h : a.Recalls) (indirect : Indirect) (v : ValueId) :
    (a.resolveIndirect indirect v).2.Recalls := by
  cases indirect with
  | signature => exact h
  | layers o => exact (h.refine o v).1
  | pointerFlow o =>
    simp only [Analysis.resolveIndirect]
    split
    · exact (h.refine o v).1
    · unfold noteSimple
      split
      · exact h
      · exact h

/-! ## Runs that know the same about layers -/

/-- Both runs know the same about candidates and layers. -/
structure SameLayers (a b : Analysis) : Prop where
  view : b.view = a.view
  gathered : b.gathered = a.gathered
  candidates : Store.SameCandidates a.store b.store

theorem SameFacts.sameLayers {b : Analysis} (h : SameFacts a b) : SameLayers a b :=
  ⟨h.view, h.gathered, h.candidates⟩

namespace SameLayers

variable {b c : Analysis}

theorem symm (h : SameLayers a b) : SameLayers b a :=
  ⟨h.view.symm, h.gathered.symm, ⟨h.candidates.addressTaken.symm, h.candidates.buckets.symm⟩⟩

theorem trans (hab : SameLayers a b) (hbc : SameLayers b c) : SameLayers a c :=
  ⟨hbc.view.trans hab.view, hbc.gathered.trans hab.gathered, hab.candidates.trans hbc.candidates⟩

variable (h : SameLayers a b)
include h

theorem candidates_eq (v : ValueId) : b.candidates v = a.candidates v := by
  unfold Analysis.candidates Store.withSignature
  rw [h.view, h.candidates.buckets]

theorem baseline_refine (options options' : LayerOptions) (v : ValueId) :
    (b.refine options' v).1.baseline = (a.refine options v).1.baseline := by
  rw [Analysis.baseline_refine, Analysis.baseline_refine, h.candidates_eq]

theorem uses (hb : b.Recalls) (options : LayerOptions) (v : ValueId) :
    ∃ used, (b.refine options v).1.Uses a.gathered.facts options.limit (a.calledType v)
      (a.layersBehind v) used := by
  have huses := (hb.refine options v).2
  unfold calledType layersBehind at huses
  rwa [h.view, h.gathered] at huses

variable (ha : a.Recalls) (hb : b.Recalls)
include ha hb

theorem refine_of_le {options options' : LayerOptions} (hle : options.limit ≤ options'.limit)
    (v : ValueId) :
    (a.refine options v).1.steps <+: (b.refine options' v).1.steps ∧
      ∀ f ∈ (b.refine options' v).1.targets, f ∈ (a.refine options v).1.targets := by
  obtain ⟨-, used, huses⟩ := ha.refine options v
  obtain ⟨used', huses'⟩ := h.uses hb options' v
  have hbase := h.baseline_refine options options' v
  obtain ⟨more, rfl⟩ := huses.prefix_of_le huses' hbase hle
  rw [huses.steps, huses'.steps, huses.targets, huses'.targets, hbase, Facts.trail_append]
  refine ⟨List.prefix_append _ _, fun f hf => ?_⟩
  rw [Facts.mem_left] at hf ⊢
  exact ⟨hf.1, fun l hl => hf.2 l (List.mem_append_left more hl)⟩

theorem targets_refine_eq (options : LayerOptions) (v : ValueId) :
    (b.refine options v).1.targets = (a.refine options v).1.targets := by
  obtain ⟨-, used, huses⟩ := ha.refine options v
  obtain ⟨used', huses'⟩ := h.uses hb options v
  have hbase := h.baseline_refine options options v
  have hle := huses.prefix_of_le huses' hbase (Nat.le_refl _)
  have hge := huses'.prefix_of_le huses hbase.symm (Nat.le_refl _)
  rw [huses.targets, huses'.targets, hbase, hle.eq_of_length_le hge.length_le]

end SameLayers

end Analysis

namespace Strategy

variable {strategy : Strategy} {p : Program} {a : Analysis}

theorem kept_prepared [Hasher] (strategy : Strategy) (p : Program) :
    (strategy.prepared p).kept = ∅ := by
  refine List.foldlRecOn (motive := fun a : Analysis => a.kept = ∅) _ _ rfl fun a ha m _ => ?_
  have hlinked : a.linked.kept = ∅ := by
    unfold Analysis.linked
    split
    · exact ha
    · exact ha
  unfold Analysis.prepare
  split
  · split
    · rw [prepareModule_eq]
      exact hlinked
    · exact hlinked
  · exact hlinked

theorem Running.recalls [Hasher] (ha : strategy.Running p a) : a.Recalls := by
  induction ha with
  | prepared =>
    intro l s hs
    rw [kept_prepared] at hs
    cases hs
  | run m _ ih => exact Analysis.keeps_run (fun _ h => h) (fun v h => h.resolveIndirect _ v) m ih
  | resolve v _ ih => exact ih.resolveIndirect _ v

end Strategy

end CallTargets
