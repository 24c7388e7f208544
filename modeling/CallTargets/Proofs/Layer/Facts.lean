import CallTargets.Layer.Facts
import CallTargets.Proofs.Graph.Order
import CallTargets.Proofs.Ordered

/-!
# Layers that get into others

The layers that may get into a layer are those that copies lead to, over one copy at least
(`mem_dependents`), and a layer is matched by what it and these layers hold (`mem_matched`).
-/

namespace CallTargets

namespace Facts

open Relation

variable {κ : Type} [DecidableEq κ] {facts : Facts κ} {l d : Layer κ}

theorem mem_sources (h : d ∈ facts.sources l) : d ∈ facts.allSources := by
  obtain ⟨s, hget, hd⟩ := OrdMap.exists_of_relates h
  exact List.mem_flatMap.2 ⟨(l, s), OrdMap.mem_toList_of_get? hget, hd⟩

theorem mem_allSources_of_mem_inflow (h : d ∈ facts.inflow l) : d ∈ facts.allSources :=
  (List.mem_append.1 h).elim mem_sources mem_sources

/-- The layers that the search for what may get into a layer looks at, in its order. -/
def looked (facts : Facts κ) (l : Layer κ) : List (Layer κ) :=
  Search.order .oldest facts.inflow (OrdSet.ofList (l :: facts.allSources)).toList [l]

theorem nodup_looked : (facts.looked l).Nodup := Search.nodup_order (OrdSet.ofList _).nodup [l]

theorem mem_looked : d ∈ facts.looked l ↔ ReflTransGen (Search.Leads facts.inflow) l d := by
  refine Search.mem_order (OrdSet.ofList _).nodup (OrdSet.mem_ofList.2 List.mem_cons_self) ?_
  intro v w hw
  exact OrdSet.mem_ofList.2 (List.mem_cons_of_mem l (mem_allSources_of_mem_inflow hw))

theorem dependents_eq_foldl : facts.dependents l =
    (facts.looked l).foldl (fun found l => found.insertMany (facts.inflow l)) ∅ :=
  Search.explore_eq_foldl_order (fun _ _ => rfl) (fun _ _ => rfl) _ [l] ∅

theorem mem_dependents :
    d ∈ facts.dependents l ↔ TransGen (Search.Leads facts.inflow) l d := by
  have hadds : ∀ (found : OrdSet (Layer κ)), ∀ v ∈ facts.looked l,
      d ∈ found.insertMany (facts.inflow v) ↔ d ∈ found ∨ d ∈ facts.inflow v :=
    fun _ _ _ => OrdSet.mem_insertMany
  rw [dependents_eq_foldl, foldl_adds_iff (P := (d ∈ ·)) hadds ∅, TransGen.tail'_iff]
  simp [mem_looked, Search.Leads]

theorem mem_matched {f : FunctionId} :
    f ∈ facts.matched l ↔ f ∈ facts.targets l ∨ ∃ d ∈ facts.dependents l, f ∈ facts.targets d := by
  have hadds : ∀ (s : OrdSet FunctionId), ∀ d ∈ (facts.dependents l).toList,
      f ∈ s.union (facts.targets d) ↔ f ∈ s ∨ f ∈ facts.targets d := fun _ _ _ => OrdSet.mem_union
  exact foldl_adds_iff (P := (f ∈ ·)) hadds (facts.targets l)

end Facts

end CallTargets
