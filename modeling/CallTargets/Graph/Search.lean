/-!
# Searching a graph

A search keeps the vertices it has not looked at (`fresh`) apart from those that
wait for their turn (`todo`). Each step takes the next waiting vertex: a fresh one
is looked at, which may end the search or send further vertices to wait, and any
other one is passed over. A vertex is therefore looked at once, so the search ends
on every graph, cyclic ones included.

Main statement: `Search.run` never adds to the fresh vertices, and a search that is
ended by a vertex has one fresh vertex fewer (`fresh_length_run_lt`).
-/

namespace CallTargets

universe u v w

/-- What looking at a vertex leads to. -/
inductive Visit (α : Type u) (σ : Type v) (β : Type w) where
  | stop (answer : β)
  /-- The search goes on in this state, and these vertices wait. -/
  | goOn (state : σ) (next : List α)

inductive Turn where
  /-- Those that came last: depth first. -/
  | newest
  /-- Those that came first: breadth first. -/
  | oldest

def Turn.join {α : Type u} : Turn → (next todo : List α) → List α
  | .newest, next, todo => next ++ todo
  | .oldest, next, todo => todo ++ next

structure Search (α : Type u) (σ : Type v) (β : Type w) where
  turn : Turn
  /-- Looks at a fresh vertex. -/
  visit : σ → α → Visit α σ β
  /-- Passes over a vertex that is not fresh. -/
  pass : σ → α → σ := fun s _ => s

/-- How a search ended: by an answer, or because nothing waits any more. -/
inductive Outcome (σ : Type v) (β : Type w) where
  | answered (answer : β)
  | exhausted (state : σ)

namespace Search

variable {α : Type u} {σ : Type v} {β : Type w} [DecidableEq α]

def run (search : Search α σ β) (fresh todo : List α) (state : σ) : List α × Outcome σ β :=
  match todo with
  | [] => (fresh, .exhausted state)
  | v :: todo =>
    if _h : v ∈ fresh then
      match search.visit state v with
      | .stop answer => (fresh.erase v, .answered answer)
      | .goOn state next => run search (fresh.erase v) (search.turn.join next todo) state
    else run search fresh todo (search.pass state v)
termination_by (fresh.length, todo.length)
decreasing_by
  · apply Prod.Lex.left
    have := List.length_erase_of_mem ‹v ∈ fresh›
    have := List.length_pos_of_mem ‹v ∈ fresh›
    omega
  · exact Prod.Lex.right _ (by simp)

def explore (search : Search α σ Empty) (fresh todo : List α) (state : σ) : σ :=
  match (search.run fresh todo state).2 with
  | .exhausted state => state

theorem fresh_length_run_lt {search : Search α σ β} {fresh todo : List α} {state : σ}
    {left : List α} {answer : β}
    (h : search.run fresh todo state = (left, .answered answer)) :
    left.length < fresh.length := by
  fun_induction run search fresh todo state with
  | case1 => simp at h
  | case2 fresh state v todo hv answer' _ =>
    cases h
    have := List.length_erase_of_mem hv
    have := List.length_pos_of_mem hv
    omega
  | case3 fresh state v todo hv state' next _ ih =>
    exact Nat.lt_of_lt_of_le (ih h) List.length_erase_le
  | case4 _ _ _ _ _ ih => exact ih h

end Search

end CallTargets
