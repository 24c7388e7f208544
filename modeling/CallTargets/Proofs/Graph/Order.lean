import CallTargets.Proofs.Graph.Search

/-!
# The order of a search

If what waits depends on the vertex alone, so does the order in which a search looks at vertices
(`Search.order`), and a search with a state folds over them in that order
(`explore_eq_foldl_order`). A vertex is looked at once (`nodup_order`), and only after one that
leads to it (`exists_leads_of_order`).
-/

namespace CallTargets.Search

universe u v

variable {α : Type u} {σ : Type v} [DecidableEq α] {next : α → List α} {turn : Turn}

def noting (turn : Turn) (next : α → List α) : Search α (List α) Empty where
  turn := turn
  visit := fun seen v => .goOn (seen ++ [v]) (next v)

/-- The vertices that a search looks at, in its order. -/
def order (turn : Turn) (next : α → List α) (fresh todo : List α) : List α :=
  (noting turn next).explore fresh todo []

theorem explore_eq_foldl_order {search : Search α σ Empty} {f : σ → α → σ}
    (hvisit : ∀ s v, search.visit s v = .goOn (f s v) (next v))
    (hpass : ∀ s v, search.pass s v = s) (fresh todo : List α) (s : σ) :
    search.explore fresh todo s = (order search.turn next fresh todo).foldl f s := by
  suffices hseen : ∀ seen, search.explore fresh todo (seen.foldl f s) =
      ((noting search.turn next).explore fresh todo seen).foldl f s from hseen []
  intro seen
  unfold explore
  fun_induction run (noting search.turn next) fresh todo seen with
  | case1 => simp [run]
  | case2 fresh seen v todo hv answer _ => cases answer
  | case3 fresh seen v todo hv seen' next' hnoted ih =>
    cases hnoted
    rw [run_fresh hv, hvisit]
    rw [List.foldl_append] at ih
    exact ih
  | case4 fresh seen v todo hv ih =>
    rw [run_seen hv, hpass]
    exact ih

omit [DecidableEq α] in
theorem foldl_concat (seen acc : List α) :
    seen.foldl (fun acc v => acc ++ [v]) acc = acc ++ seen := by
  induction seen generalizing acc with
  | nil => simp
  | cons v seen ih => simp [ih]

theorem order_closed {fresh : List α} (hn : fresh.Nodup) (todo : List α) :
    (∀ v ∈ todo, v ∈ fresh → v ∈ order turn next fresh todo) ∧
      ∀ v ∈ order turn next fresh todo, ∀ w ∈ next v, w ∈ fresh →
        w ∈ order turn next fresh todo := by
  have hvisit : ∀ seen v, (noting turn next).visit seen v = .goOn (seen ++ [v]) (next v) :=
    fun _ _ => rfl
  obtain ⟨seen, left, hrun, -, htodo, hclosed, -⟩ :=
    run_eq_foldl hvisit (fun _ _ => rfl) fresh todo [] hn
  have horder : order turn next fresh todo = seen := by
    rw [order, explore, hrun, foldl_concat, List.nil_append]
  rw [horder]
  exact ⟨htodo, hclosed⟩

theorem nodup_order {fresh : List α} (hn : fresh.Nodup) (todo : List α) :
    (order turn next fresh todo).Nodup := by
  have hkeeps : (noting turn next).Keeps fun fresh _ seen =>
      fresh.Nodup ∧ seen.Nodup ∧ ∀ v ∈ seen, v ∉ fresh := by
    constructor
    · intro fresh waiting v seen seen' next' hinv hv hvisit
      obtain ⟨hfresh, hseen, hapart⟩ := hinv
      cases hvisit
      refine ⟨hfresh.erase v, ?_, fun w hw herased => ?_⟩
      · exact List.nodup_append.2 ⟨hseen, List.nodup_singleton v, fun w hw u hu heq =>
          hapart w hw (heq ▸ List.mem_singleton.1 hu ▸ hv)⟩
      · obtain ⟨hne, hmem⟩ := (hfresh.mem_erase_iff).1 herased
        rcases List.mem_append.1 hw with hw | hw
        · exact hapart w hw hmem
        · exact hne (List.mem_singleton.1 hw)
    · exact fun hinv _ => hinv
  obtain ⟨_, -, hseen, -⟩ := hkeeps.explore fresh todo [] ⟨hn, .nil, fun v hv => by cases hv⟩
  exact hseen

open Relation in
theorem mem_order {fresh : List α} {start v : α} (hn : fresh.Nodup) (hstart : start ∈ fresh)
    (hclosed : ∀ v, ∀ w ∈ next v, w ∈ fresh) :
    v ∈ order turn next fresh [start] ↔ ReflTransGen (Leads next) start v := by
  have hvisit : ∀ seen v, (noting turn next).visit seen v = .goOn (seen ++ [v]) (next v) :=
    fun _ _ => rfl
  obtain ⟨seen, hexplore, hseen⟩ :=
    explore_eq_foldl hvisit (fun _ _ => rfl) [] hn hstart hclosed
  have horder : order turn next fresh [start] = seen := by
    rw [order, hexplore, foldl_concat, List.nil_append]
  rw [horder]
  exact hseen v

omit [DecidableEq α] in
theorem eq_or_split_of_concat {xs before after : List α} {x v : α}
    (h : xs ++ [x] = before ++ v :: after) :
    before = xs ∧ v = x ∨ ∃ after', xs = before ++ v :: after' := by
  rcases List.eq_nil_or_concat after with rfl | ⟨after', last, rfl⟩
  · obtain ⟨hxs, hx⟩ := List.append_inj' h rfl
    exact .inl ⟨hxs.symm, (List.cons.inj hx).1.symm⟩
  · have hsplit : xs ++ [x] = (before ++ v :: after') ++ [last] := by simpa using h
    exact .inr ⟨after', (List.append_inj' hsplit rfl).1⟩

omit [DecidableEq α] in
theorem exists_split_concat_iff {P : List α → α → Prop} {xs : List α} {x : α} :
    (∃ before v after, xs ++ [x] = before ++ v :: after ∧ P before v) ↔
      (∃ before v after, xs = before ++ v :: after ∧ P before v) ∨ P xs x := by
  constructor
  · rintro ⟨before, v, after, hsplit, h⟩
    rcases eq_or_split_of_concat hsplit with ⟨rfl, rfl⟩ | ⟨after', rfl⟩
    · exact .inr h
    · exact .inl ⟨before, v, after', rfl, h⟩
  · rintro (⟨before, v, after, rfl, h⟩ | h)
    · exact ⟨before, v, after ++ [x], by simp, h⟩
    · exact ⟨xs, x, [], rfl, h⟩

theorem exists_leads_of_order {fresh todo before after : List α} {v : α}
    (h : order turn next fresh todo = before ++ v :: after) :
    v ∈ todo ∨ ∃ u ∈ before, v ∈ next u := by
  have hkeeps : (noting turn next).Keeps fun _ waiting seen =>
      (∀ w ∈ waiting, w ∈ todo ∨ ∃ u ∈ seen, w ∈ next u) ∧
      ∀ before v after, seen = before ++ v :: after → v ∈ todo ∨ ∃ u ∈ before, v ∈ next u := by
    constructor
    · intro fresh waiting w seen seen' next' hinv _ hvisit
      obtain ⟨hwaiting, hseen⟩ := hinv
      cases hvisit
      refine ⟨fun x hx => ?_, fun before v after hsplit => ?_⟩
      · rcases Turn.mem_join.1 hx with hx | hx
        · exact .inr ⟨w, List.mem_concat_self, hx⟩
        · refine (hwaiting x (.tail _ hx)).imp_right ?_
          rintro ⟨u, hu, hleads⟩
          exact ⟨u, List.mem_append_left _ hu, hleads⟩
      · rcases eq_or_split_of_concat hsplit with ⟨rfl, rfl⟩ | ⟨after', rfl⟩
        · exact hwaiting v (.head _)
        · exact hseen before v after' rfl
    · intro fresh waiting w seen hinv _
      exact ⟨fun x hx => hinv.1 x (.tail _ hx), hinv.2⟩
  obtain ⟨_, -, hseen⟩ := hkeeps.explore fresh todo []
    ⟨fun w hw => .inl hw, fun before v after hnil => by simp at hnil⟩
  exact hseen before v after h

end CallTargets.Search
