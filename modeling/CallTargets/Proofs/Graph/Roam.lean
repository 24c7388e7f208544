import CallTargets.Proofs.Graph.Search

/-!
# Searches without a bound

`Search.run` goes through vertices that are given to it as fresh. A search that is given no such
list goes on for as long as a vertex waits, and remembers those that it has looked at, except for
some that it only passes over. `Search.Roams` are its executions that end. On finitely many vertices
that no step leaves it ends as the bounded search does (`exists_roams_run`). A vertex that ends it
was not looked at before (`Roams.answered`).
-/

namespace CallTargets

universe u v w

namespace Search

variable {α : Type u} {σ : Type v} {β : Type w} {search : Search α σ β} {unmarked : α → Bool}
  {P : α → Prop}

/-- A search that has looked at some vertices ends with an outcome. Those that it has looked at in
the end come with it. -/
inductive Roams (search : Search α σ β) (unmarked : α → Bool) :
    List α → List α → σ → List α → Outcome σ β → Prop where
  | done {seen : List α} {s : σ} : Roams search unmarked seen [] s seen (.exhausted s)
  | pass {seen todo seen' : List α} {v : α} {s : σ} {o : Outcome σ β}
      (h : unmarked v = true ∨ v ∈ seen)
      (hrest : Roams search unmarked seen todo (search.pass s v) seen' o) :
      Roams search unmarked seen (v :: todo) s seen' o
  | stop {seen todo : List α} {v : α} {s : σ} {b : β}
      (h : ¬ (unmarked v = true ∨ v ∈ seen)) (hvisit : search.visit s v = .stop b) :
      Roams search unmarked seen (v :: todo) s (v :: seen) (.answered b)
  | goOn {seen todo next seen' : List α} {v : α} {s s' : σ} {o : Outcome σ β}
      (h : ¬ (unmarked v = true ∨ v ∈ seen)) (hvisit : search.visit s v = .goOn s' next)
      (hrest : Roams search unmarked (v :: seen) (search.turn.join next todo) s' seen' o) :
      Roams search unmarked seen (v :: todo) s seen' o

section Outcomes

variable {seen todo seen' : List α} {s : σ} {o : Outcome σ β} {b : β}

open Relation in
/-- What was looked at stays so. A search that is ended by a vertex has not looked at it before,
and has come to it from one that waited. -/
theorem Roams.answered {R : α → α → Prop}
    (hnext : ∀ s v s' next, search.visit s v = .goOn s' next → ∀ w ∈ next, R v w)
    (h : search.Roams unmarked seen todo s seen' (.answered b)) :
    seen ⊆ seen' ∧ ∃ v ∈ seen', v ∉ seen ∧ (∃ s, search.visit s v = .stop b) ∧
      ∃ u ∈ todo, ReflTransGen R u v := by
  generalize ho : Outcome.answered b = o at h
  induction h with
  | done => cases ho
  | @pass _ _ _ v _ _ _ _ ih =>
    obtain ⟨hsub, w, hw, hunseen, hstop, u, hu, hpath⟩ := ih ho
    exact ⟨hsub, w, hw, hunseen, hstop, u, List.mem_cons_of_mem v hu, hpath⟩
  | @stop seen _ v _ _ h hvisit =>
    cases ho
    exact ⟨List.subset_cons_self v seen, v, List.mem_cons_self, fun hv => h (.inr hv),
      ⟨_, hvisit⟩, v, List.mem_cons_self, .refl⟩
  | @goOn _ _ next _ v s s' _ _ hvisit _ ih =>
    obtain ⟨hsub, w, hw, hunseen, hstop, u, hu, hpath⟩ := ih ho
    refine ⟨fun x hx => hsub (List.mem_cons_of_mem v hx), w, hw,
      fun h => hunseen (List.mem_cons_of_mem v h), hstop, ?_⟩
    rcases Turn.mem_join.1 hu with hu | hu
    · exact ⟨v, List.mem_cons_self, .head (hnext s v s' next hvisit u hu) hpath⟩
    · exact ⟨u, List.mem_cons_of_mem v hu, hpath⟩

end Outcomes

/-! ## Bounds -/

/-- Among the vertices with a property that are marked, the fresh ones are those that were not
looked at. -/
structure Tracks (P : α → Prop) (unmarked : α → Bool) (fresh seen : List α) : Prop where
  nodup : fresh.Nodup
  mem_iff : ∀ v, P v → unmarked v = false → (v ∈ fresh ↔ v ∉ seen)

variable [DecidableEq α]

theorem Tracks.visit {fresh seen : List α} (h : Tracks P unmarked fresh seen) (v : α) :
    Tracks P unmarked (fresh.erase v) (v :: seen) where
  nodup := h.nodup.erase v
  mem_iff w hw hmarked := by
    rw [h.nodup.mem_erase_iff, h.mem_iff w hw hmarked, List.mem_cons, not_or]

/-- Whether a vertex is fresh that is not marked makes no difference. -/
theorem Tracks.erase {fresh seen : List α} (h : Tracks P unmarked fresh seen) {v : α}
    (hv : unmarked v = true) : Tracks P unmarked (fresh.erase v) seen where
  nodup := h.nodup.erase v
  mem_iff w hw hmarked := by
    have hne : w ≠ v := fun heq => by rw [heq, hv] at hmarked; cases hmarked
    rw [List.mem_erase_of_ne hne, h.mem_iff w hw hmarked]

/-- If the vertices with a property lead only to such vertices, and those that are not marked are
passed over, the search without a bound ends as the bounded one does. -/
theorem exists_roams_run
    (hnext : ∀ s v s' next, P v → search.visit s v = .goOn s' next → ∀ w ∈ next, P w)
    (hpass : ∀ s v, unmarked v = true → search.visit s v = .goOn (search.pass s v) [])
    {fresh seen todo : List α} (s : σ) (htracks : Tracks P unmarked fresh seen)
    (htodo : ∀ v ∈ todo, P v) :
    ∃ seen', search.Roams unmarked seen todo s seen' (search.run fresh todo s).2 ∧
      Tracks P unmarked (search.run fresh todo s).1 seen' := by
  fun_induction run search fresh todo s generalizing seen with
  | case1 fresh s => exact ⟨seen, .done, htracks⟩
  | case2 fresh s v todo hv b hvisit =>
    have hmarked : unmarked v = false := by
      by_contra hun
      rw [hpass s v (Bool.not_eq_false _ ▸ hun)] at hvisit
      cases hvisit
    have hunseen := (htracks.mem_iff v (htodo v List.mem_cons_self) hmarked).1 hv
    exact ⟨v :: seen, .stop (by simp [hmarked, hunseen]) hvisit, htracks.visit v⟩
  | case3 fresh s v todo hv s' next hvisit ih =>
    have hrest : ∀ w ∈ search.turn.join next todo, P w := fun w hw =>
      (Turn.mem_join.1 hw).elim (hnext s v s' next (htodo v List.mem_cons_self) hvisit w)
        fun hw => htodo w (List.mem_cons_of_mem v hw)
    cases hmarked : unmarked v with
    | true =>
      cases (hpass s v hmarked).symm.trans hvisit
      have hjoin : search.turn.join [] todo = todo := by cases search.turn <;> simp [Turn.join]
      rw [hjoin] at ih hrest ⊢
      obtain ⟨seen', hroams, htracks'⟩ := ih (htracks.erase hmarked) hrest
      exact ⟨seen', .pass (.inl hmarked) hroams, htracks'⟩
    | false =>
      have hunseen := (htracks.mem_iff v (htodo v List.mem_cons_self) hmarked).1 hv
      obtain ⟨seen', hroams, htracks'⟩ := ih (htracks.visit v) hrest
      exact ⟨seen', .goOn (by simp [hmarked, hunseen]) hvisit hroams, htracks'⟩
  | case4 fresh s v todo hv ih =>
    have hseen : unmarked v = true ∨ v ∈ seen := by
      by_contra h
      rw [not_or, Bool.not_eq_true] at h
      exact hv ((htracks.mem_iff v (htodo v List.mem_cons_self) h.1).2 h.2)
    obtain ⟨seen', hroams, htracks'⟩ :=
      ih htracks fun w hw => htodo w (List.mem_cons_of_mem v hw)
    exact ⟨seen', .pass hseen hroams, htracks'⟩

end Search

end CallTargets
