import CallTargets.Graph.Search
import Mathlib.Data.List.Nodup
import Mathlib.Logic.Relation

/-!
# What a search has seen

Two ways to reason about `Search.run`. A property of its progress that every step keeps
(`Search.Keeps`) holds when the search ends, and also at the vertex that ends it. If what
a vertex leads to does not depend on the state, the search is a fold over the vertices it
looked at: those that can be reached from where it started (`run_eq_foldl`).
-/

namespace CallTargets

universe u v w

theorem Turn.mem_join {α : Type u} {turn : Turn} {next todo : List α} {v : α} :
    v ∈ turn.join next todo ↔ v ∈ next ∨ v ∈ todo := by
  cases turn
  · exact List.mem_append
  · exact List.mem_append.trans or_comm

/-- The answer of a search, if a vertex ended it. -/
def Outcome.answer? {σ : Type v} {β : Type w} : Outcome σ β → Option β
  | answered b => some b
  | exhausted _ => none

namespace Search

variable {α : Type u} {σ : Type v} {β : Type w} [DecidableEq α] {search : Search α σ β}

/-! ## Seen or waiting -/

theorem seen_or_waits_erase {turn : Turn} {fresh todo next : List α} {v w : α} (hn : fresh.Nodup)
    (h : w ∉ fresh ∨ w ∈ v :: todo) : w ∉ fresh.erase v ∨ w ∈ turn.join next todo := by
  rcases h with hw | hw
  · exact .inl fun hmem => hw (List.mem_of_mem_erase hmem)
  · rcases List.mem_cons.1 hw with rfl | hw
    · exact .inl fun hmem => ((hn.mem_erase_iff).1 hmem).1 rfl
    · exact .inr (Turn.mem_join.2 (.inr hw))

omit [DecidableEq α] in
theorem seen_or_waits_tail {fresh todo : List α} {v w : α} (hv : v ∉ fresh)
    (h : w ∉ fresh ∨ w ∈ v :: todo) : w ∉ fresh ∨ w ∈ todo := by
  rcases h with hw | hw
  · exact .inl hw
  · rcases List.mem_cons.1 hw with rfl | hw
    · exact .inl hv
    · exact .inr hw

/-! ## Properties that every step keeps -/

/-- A property of the fresh vertices, the waiting ones and the state is kept by looking at
a vertex and by passing over one. -/
structure Keeps (search : Search α σ β) (Inv : List α → List α → σ → Prop) : Prop where
  visit : ∀ {fresh todo : List α} {v : α} {s s' : σ} {next : List α},
    Inv fresh (v :: todo) s → v ∈ fresh → search.visit s v = .goOn s' next →
      Inv (fresh.erase v) (search.turn.join next todo) s'
  pass : ∀ {fresh todo : List α} {v : α} {s : σ},
    Inv fresh (v :: todo) s → v ∉ fresh → Inv fresh todo (search.pass s v)

namespace Keeps

variable {Inv : List α → List α → σ → Prop} (h : search.Keeps Inv) {fresh todo left : List α}
  {s s' : σ} {b : β}

include h in
theorem exhausted (h₀ : Inv fresh todo s)
    (hrun : search.run fresh todo s = (left, .exhausted s')) : Inv left [] s' := by
  fun_induction run search fresh todo s with
  | case1 =>
    cases hrun
    exact h₀
  | case2 => simp at hrun
  | case3 fresh s v todo hv s₁ next hvisit ih => exact ih (h.visit h₀ hv hvisit) hrun
  | case4 fresh s v todo hv ih => exact ih (h.pass h₀ hv) hrun

include h in
theorem answered (h₀ : Inv fresh todo s)
    (hrun : search.run fresh todo s = (left, .answered b)) :
    ∃ fresh' v todo' s', Inv fresh' (v :: todo') s' ∧ v ∈ fresh' ∧
      search.visit s' v = .stop b := by
  fun_induction run search fresh todo s with
  | case1 => simp at hrun
  | case2 fresh s v todo hv b' hvisit =>
    cases hrun
    exact ⟨fresh, v, todo, s, h₀, hv, hvisit⟩
  | case3 fresh s v todo hv s₁ next hvisit ih => exact ih (h.visit h₀ hv hvisit) hrun
  | case4 fresh s v todo hv ih => exact ih (h.pass h₀ hv) hrun

theorem explore {search : Search α σ Empty} (h : search.Keeps Inv) (fresh todo : List α) (s : σ)
    (h₀ : Inv fresh todo s) : ∃ left, Inv left [] (search.explore fresh todo s) := by
  unfold Search.explore
  rcases hrun : search.run fresh todo s with ⟨left, answer | s'⟩
  · cases answer
  · exact ⟨left, h.exhausted h₀ hrun⟩

end Keeps

theorem sublist_run (search : Search α σ β) (fresh todo : List α) (s : σ) :
    (search.run fresh todo s).1.Sublist fresh := by
  fun_induction run search fresh todo s with
  | case1 => exact .refl _
  | case2 => exact List.erase_sublist
  | case3 _ _ _ _ _ _ _ _ ih => exact ih.trans List.erase_sublist
  | case4 _ _ _ _ _ ih => exact ih

theorem mem_of_mem_run {fresh todo left : List α} {s : σ} {outcome : Outcome σ β}
    (hrun : search.run fresh todo s = (left, outcome)) {v : α} (hv : v ∈ left) : v ∈ fresh := by
  have hsublist := search.sublist_run fresh todo s
  rw [hrun] at hsublist
  exact hsublist.subset hv

/-! ## One step -/

section Step

variable {fresh todo : List α} {v : α}

theorem run_fresh (h : v ∈ fresh) (s : σ) :
    search.run fresh (v :: todo) s = match search.visit s v with
      | .stop answer => (fresh.erase v, .answered answer)
      | .goOn s' next => search.run (fresh.erase v) (search.turn.join next todo) s' := by
  cases hvisit : search.visit s v with
  | stop answer => rw [run, dif_pos h, hvisit]
  | goOn s' next => rw [run, dif_pos h, hvisit]

theorem run_seen (h : v ∉ fresh) (s : σ) :
    search.run fresh (v :: todo) s = search.run fresh todo (search.pass s v) := by
  rw [run, dif_neg h]

theorem notMem_run_head (hn : fresh.Nodup) (s : σ) : v ∉ (search.run fresh (v :: todo) s).1 := by
  by_cases hv : v ∈ fresh
  · have herase : v ∉ fresh.erase v := fun h => ((hn.mem_erase_iff).1 h).1 rfl
    rw [run_fresh hv]
    cases search.visit s v with
    | stop => exact herase
    | goOn s' next => exact fun h => herase ((search.sublist_run _ _ s').subset h)
  · exact fun h => hv ((search.sublist_run _ _ s).subset h)

end Step

/-! ## Searches for a reason to stop -/

/-- A search without a state that is not ended has seen a set of vertices that is closed under
what looking at them leads to. -/
theorem closed_of_exhausted {search : Search α Unit β} {fresh todo left : List α}
    (hn : fresh.Nodup) (hrun : search.run fresh todo () = (left, .exhausted ())) :
    ∃ Seen : α → Prop, (∀ v ∈ todo, v ∈ fresh → Seen v) ∧
      ∀ v, Seen v → ∃ next, search.visit () v = .goOn () next ∧ ∀ w ∈ next, w ∈ fresh → Seen w := by
  -- what is no longer fresh was looked at, and what it led to was looked at or waits
  have hkeeps : search.Keeps fun fresh' todo' _ => fresh'.Nodup ∧
      (∀ v ∈ todo, v ∈ fresh → v ∉ fresh' ∨ v ∈ todo') ∧
      ∀ v ∈ fresh, v ∉ fresh' → ∃ next, search.visit () v = .goOn () next ∧
        ∀ w ∈ next, w ∈ fresh → w ∉ fresh' ∨ w ∈ todo' := by
    constructor
    · rintro fresh' todo' v ⟨⟩ ⟨⟩ next ⟨hn', htodo, hseen⟩ hv hvisit
      refine ⟨hn'.erase v, fun w hw hfresh => seen_or_waits_erase hn' (htodo w hw hfresh),
        fun w hw hun => ?_⟩
      by_cases hwv : w = v
      · subst hwv
        exact ⟨next, hvisit, fun x hx _ => .inr (Turn.mem_join.2 (.inl hx))⟩
      · have hun' : w ∉ fresh' := fun hmem => hun ((hn'.mem_erase_iff).2 ⟨hwv, hmem⟩)
        obtain ⟨next', hvisit', hnext'⟩ := hseen w hw hun'
        exact ⟨next', hvisit', fun x hx hfresh => seen_or_waits_erase hn' (hnext' x hx hfresh)⟩
    · rintro fresh' todo' v ⟨⟩ ⟨hn', htodo, hseen⟩ hv
      refine ⟨hn', fun w hw hfresh => seen_or_waits_tail hv (htodo w hw hfresh), fun w hw hun => ?_⟩
      obtain ⟨next', hvisit', hnext'⟩ := hseen w hw hun
      exact ⟨next', hvisit', fun x hx hfresh => seen_or_waits_tail hv (hnext' x hx hfresh)⟩
  obtain ⟨-, htodo, hseen⟩ := hkeeps.exhausted
    ⟨hn, fun v hv _ => .inr hv, fun v hv hun => absurd hv hun⟩ hrun
  refine ⟨fun v => v ∈ fresh ∧ v ∉ left, fun v hv hfresh => ⟨hfresh, ?_⟩, fun v hv => ?_⟩
  · exact (htodo v hv hfresh).resolve_right List.not_mem_nil
  · obtain ⟨next, hvisit, hnext⟩ := hseen v hv.1 hv.2
    exact ⟨next, hvisit, fun w hw hfresh =>
      ⟨hfresh, (hnext w hw hfresh).resolve_right List.not_mem_nil⟩⟩

/-! ## Searches that a state does not steer -/

/-- A step from a vertex to one that it sends to wait. -/
def Leads (next : α → List α) (v w : α) : Prop := w ∈ next v

open Relation in
/-- If what waits depends on the vertex alone, a search folds over the vertices it looks at.
These are closed under steps, and each can be reached from one that waited at first. -/
theorem run_eq_foldl {next : α → List α} {f : σ → α → σ}
    (hvisit : ∀ s v, search.visit s v = .goOn (f s v) (next v))
    (hpass : ∀ s v, search.pass s v = s) (fresh todo : List α) (s : σ) (hn : fresh.Nodup) :
    ∃ seen left : List α, search.run fresh todo s = (left, .exhausted (seen.foldl f s)) ∧
      (∀ v ∈ seen, v ∈ fresh) ∧ (∀ v ∈ todo, v ∈ fresh → v ∈ seen) ∧
      (∀ v ∈ seen, ∀ w ∈ next v, w ∈ fresh → w ∈ seen) ∧
      ∀ v ∈ seen, ∃ u ∈ todo, ReflTransGen (Leads next) u v := by
  fun_induction run search fresh todo s with
  | case1 fresh s => exact ⟨[], fresh, by simp⟩
  | case2 fresh s v todo hv b hb => simp [hvisit] at hb
  | case3 fresh s v todo hv s₁ next₁ hs₁ ih =>
    obtain ⟨rfl, rfl⟩ : f s v = s₁ ∧ next v = next₁ := by
      simpa [hvisit] using hs₁
    obtain ⟨seen, left, hrun, hsub, htodo, hclosed, hreach⟩ := ih (hn.erase v)
    -- the vertex itself is the only fresh one that the rest of the search does not have
    have hrest : ∀ w ∈ fresh, w = v ∨ w ∈ fresh.erase v := fun w hw => by
      rw [hn.mem_erase_iff]
      tauto
    refine ⟨v :: seen, left, hrun, ?_, ?_, ?_, ?_⟩
    · rintro w hw
      rcases List.mem_cons.1 hw with rfl | hw
      · exact hv
      · exact List.mem_of_mem_erase (hsub w hw)
    · intro w hw hfresh
      rcases hrest w hfresh with rfl | hfresh'
      · exact List.mem_cons_self
      · rcases List.mem_cons.1 hw with rfl | hw
        · exact List.mem_cons_self
        · exact List.mem_cons_of_mem _ (htodo w (Turn.mem_join.2 (.inr hw)) hfresh')
    · intro u hu w hw hfresh
      rcases hrest w hfresh with rfl | hfresh'
      · exact List.mem_cons_self
      · rcases List.mem_cons.1 hu with rfl | hu
        · exact List.mem_cons_of_mem _ (htodo w (Turn.mem_join.2 (.inl hw)) hfresh')
        · exact List.mem_cons_of_mem _ (hclosed u hu w hw hfresh')
    · intro w hw
      rcases List.mem_cons.1 hw with rfl | hw
      · exact ⟨w, List.mem_cons_self, .refl⟩
      · obtain ⟨u, hu, hpath⟩ := hreach w hw
        rcases Turn.mem_join.1 hu with hu | hu
        · exact ⟨v, List.mem_cons_self, .head hu hpath⟩
        · exact ⟨u, List.mem_cons_of_mem _ hu, hpath⟩
  | case4 fresh s v todo hv ih =>
    rw [hpass] at ih ⊢
    obtain ⟨seen, left, hrun, hsub, htodo, hclosed, hreach⟩ := ih hn
    refine ⟨seen, left, hrun, hsub, ?_, hclosed, ?_⟩
    · intro w hw hfresh
      rcases List.mem_cons.1 hw with rfl | hw
      · exact absurd hfresh hv
      · exact htodo w hw hfresh
    · intro w hw
      obtain ⟨u, hu, hpath⟩ := hreach w hw
      exact ⟨u, List.mem_cons_of_mem _ hu, hpath⟩

open Relation in
/-- A search that nothing ends folds over the vertices that can be reached, if the fresh
vertices are closed under steps. -/
theorem explore_eq_foldl {search : Search α σ Empty} {next : α → List α} {f : σ → α → σ}
    (hvisit : ∀ s v, search.visit s v = .goOn (f s v) (next v))
    (hpass : ∀ s v, search.pass s v = s) {fresh : List α} {start : α} (s : σ)
    (hn : fresh.Nodup) (hstart : start ∈ fresh) (hclosed : ∀ v, ∀ w ∈ next v, w ∈ fresh) :
    ∃ seen : List α, search.explore fresh [start] s = seen.foldl f s ∧
      ∀ v, v ∈ seen ↔ ReflTransGen (Leads next) start v := by
  obtain ⟨seen, left, hrun, -, htodo, hseen, hreach⟩ :=
    run_eq_foldl hvisit hpass fresh [start] s hn
  refine ⟨seen, by simp [explore, hrun], fun v => ⟨fun hv => ?_, fun hpath => ?_⟩⟩
  · obtain ⟨u, hu, hpath⟩ := hreach v hv
    rwa [List.mem_singleton.1 hu] at hpath
  · induction hpath with
    | refl => exact htodo start List.mem_cons_self hstart
    | tail _ hstep ih => exact hseen _ ih _ hstep (hclosed _ _ hstep)

/-! ## Searches whose way does not depend on the state -/

/-- Where a search goes does not depend on its state. -/
def Unsteered (search : Search α σ β) : Prop :=
  ∀ v, (∃ answer, ∀ s, search.visit s v = .stop answer) ∨
    ∃ (step : σ → σ) (next : List α), ∀ s, search.visit s v = .goOn (step s) next

theorem Unsteered.run_eq (h : search.Unsteered) (fresh todo : List α) (s s' : σ) :
    (search.run fresh todo s').1 = (search.run fresh todo s).1 ∧
      (search.run fresh todo s').2.answer? = (search.run fresh todo s).2.answer? := by
  fun_induction run search fresh todo s generalizing s' with
  | case1 => simp [run, Outcome.answer?]
  | case2 fresh s v todo hv answer hvisit =>
    rw [run_fresh hv]
    rcases h v with ⟨answer', h⟩ | ⟨step, next, h⟩
    · rw [h] at hvisit ⊢
      cases hvisit
      exact ⟨rfl, rfl⟩
    · rw [h] at hvisit
      cases hvisit
  | case3 fresh s v todo hv s₁ next hvisit ih =>
    rw [run_fresh hv]
    rcases h v with ⟨answer', h⟩ | ⟨step, next', h⟩
    · rw [h] at hvisit
      cases hvisit
    · rw [h] at hvisit ⊢
      cases hvisit
      exact ih _
  | case4 fresh s v todo hv ih =>
    rw [run_seen hv]
    exact ih _

theorem run_congr {search search' : Search α σ β} {P : α → Prop}
    (hturn : search'.turn = search.turn)
    (hvisit : ∀ s v, P v → search'.visit s v = search.visit s v)
    (hpass : ∀ s v, search'.pass s v = search.pass s v)
    (hnext : ∀ s v s' next, P v → search.visit s v = .goOn s' next → ∀ w ∈ next, P w)
    (fresh : List α) {todo : List α} (s : σ) (h : ∀ v ∈ todo, P v) :
    search'.run fresh todo s = search.run fresh todo s := by
  fun_induction run search fresh todo s with
  | case1 fresh s => rw [run]
  | case2 fresh s v todo hv answer hstop =>
    rw [run_fresh hv, hvisit s v (h v List.mem_cons_self), hstop]
  | case3 fresh s v todo hv s' next hgoOn ih =>
    have hP := h v List.mem_cons_self
    rw [run_fresh hv, hvisit s v hP, hgoOn, hturn]
    refine ih fun w hw => ?_
    rcases Turn.mem_join.1 hw with hw | hw
    · exact hnext s v s' next hP hgoOn w hw
    · exact h w (List.mem_cons_of_mem v hw)
  | case4 fresh s v todo hv ih =>
    rw [run_seen hv, hpass]
    exact ih fun w hw => h w (List.mem_cons_of_mem v hw)

/-- Searches that nothing ends take the same way from related states if related states send
the same vertices to wait. -/
theorem explore_rel {search : Search α σ Empty} {R : σ → σ → Prop}
    (hvisit : ∀ s t v, R s t → ∃ s' t' next,
      search.visit s v = .goOn s' next ∧ search.visit t v = .goOn t' next ∧ R s' t')
    (hpass : ∀ s t v, R s t → R (search.pass s v) (search.pass t v)) (fresh todo : List α)
    {s t : σ} (h : R s t) : R (search.explore fresh todo s) (search.explore fresh todo t) := by
  unfold explore
  fun_induction run search fresh todo s generalizing t with
  | case1 fresh s => simpa [run] using h
  | case2 fresh s v todo hv answer _ => cases answer
  | case3 fresh s v todo hv s₁ next₁ hs₁ ih =>
    obtain ⟨s', t', next, hs, ht, h'⟩ := hvisit s t v h
    rw [hs] at hs₁
    cases hs₁
    rw [run_fresh hv t, ht]
    exact ih h'
  | case4 fresh s v todo hv ih =>
    rw [run_seen hv t]
    exact ih (hpass s t v h)

end Search

end CallTargets
