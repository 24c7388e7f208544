import CallTargets.Graph.Components
import Mathlib.Data.List.Nodup
import Mathlib.Logic.Relation

/-!
# The components of a graph

The depth-first pass finds the strongly connected components and lists each after all
those it leads to.

`Pass.Inv` holds between any two steps: unseen vertices, the stack and the finished
components share out the vertices, a finished component is strongly connected, and its
edges lead to itself or to components finished before. What entering a vertex does is
told by `Opened`: it leaves vertices on the stack only if they lead back below the vertex,
and `low` bounds every place on the old stack that a new vertex has an edge to. So when
`low` is the place of the vertex itself, no edge leaves what it put on the stack.

Main statement: `Adjacency.components_decompose`.
-/

namespace CallTargets.Components

open Relation

/-- An edge of the graph; edges to numbers that are no vertices have no effect. -/
def Edge (succ : Nat → List Nat) (V : List Nat) (v w : Nat) : Prop := w ∈ succ v ∧ w ∈ V

abbrev Path (succ : Nat → List Nat) (V : List Nat) : Nat → Nat → Prop :=
  ReflTransGen (Edge succ V)

/-- Components, the newest first: the edges of each lead to itself or to older ones. -/
def Ordered (succ : Nat → List Nat) (V : List Nat) : List (List Nat) → Prop
  | [] => True
  | c :: older => (∀ v ∈ c, ∀ w, Edge succ V v w → w ∈ c ∨ w ∈ older.flatten) ∧
      Ordered succ V older

/-- What holds between any two steps of the pass. -/
structure Pass.Inv (succ : Nat → List Nat) (V : List Nat) (p : Pass) : Prop where
  perm : (p.unseen ++ p.stack ++ p.done.flatten).Perm V
  nonempty : [] ∉ p.done
  strong : ∀ c ∈ p.done, ∀ v ∈ c, ∀ w ∈ c, Path succ V v w
  ordered : Ordered succ V p.done

/-! ## Places on the stack -/

section Places

variable {v x k : Nat} {below new stack : List Nat}

theorem placeOf_cons :
    placeOf v (x :: below) = if x = v then some below.length else placeOf v below := rfl

theorem placeOf_lt (h : placeOf v stack = some k) : k < stack.length := by
  induction stack with
  | nil => cases h
  | cons x below ih =>
    rw [placeOf_cons] at h
    split at h
    · simp only [Option.some.injEq] at h
      simp [h]
    · simpa using Nat.lt_succ_of_lt (ih h)

theorem placeOf_mem (h : placeOf v stack = some k) : v ∈ stack := by
  induction stack with
  | nil => cases h
  | cons x below ih =>
    rw [placeOf_cons] at h
    split at h
    · rename_i hx
      exact hx ▸ List.mem_cons_self
    · exact List.mem_cons_of_mem _ (ih h)

theorem exists_placeOf (h : v ∈ stack) : ∃ k, placeOf v stack = some k := by
  induction stack with
  | nil => cases h
  | cons x below ih =>
    by_cases hx : x = v
    · exact ⟨below.length, by rw [placeOf_cons, if_pos hx]⟩
    · obtain ⟨k, hk⟩ := ih ((List.mem_cons.1 h).resolve_left fun e => hx e.symm)
      exact ⟨k, by rw [placeOf_cons, if_neg hx, hk]⟩

theorem placeOf_append (h : v ∉ new) : placeOf v (new ++ stack) = placeOf v stack := by
  induction new with
  | nil => rfl
  | cons x new ih =>
    have hx : x ≠ v := fun e => h (e ▸ List.mem_cons_self)
    rw [List.cons_append, placeOf_cons, if_neg hx]
    exact ih fun hv => h (List.mem_cons_of_mem _ hv)

theorem placeOf_of_lt (h : placeOf v (new ++ stack) = some k) (hk : k < stack.length) :
    placeOf v stack = some k := by
  induction new with
  | nil => exact h
  | cons x new ih =>
    rw [List.cons_append, placeOf_cons] at h
    split at h
    · simp only [List.length_append, Option.some.injEq] at h
      omega
    · exact ih h

end Places

/-! ## One step -/

/-- A look at an edge from the vertex that is being entered. -/
def look (succ : Nat → List Nat) (room : Nat) (state : Nat × Pass) (w : Nat) : Nat × Pass :=
  if w ∈ state.2.unseen then
    (min state.1 (enter succ room state.2 w).1, (enter succ room state.2 w).2)
  else match placeOf w state.2.stack with
    | some place => (min state.1 place, state.2)
    | none => state

def Pass.push (p : Pass) (v : Nat) : Pass :=
  { p with unseen := p.unseen.erase v, stack := v :: p.stack }

theorem enter_succ (succ : Nat → List Nat) (room : Nat) (p : Pass) (v : Nat) :
    enter succ (room + 1) p v =
      let r := (succ v).foldl (look succ room) (p.stack.length, p.push v)
      (r.1, if r.1 < p.stack.length then r.2 else r.2.close p.stack.length) := by
  rfl

section Steps

variable {succ : Nat → List Nat} {V : List Nat} (hV : V.Nodup) {p q : Pass} {v low : Nat}
  {new : List Nat}

namespace Pass.Inv

theorem mem_iff (h : p.Inv succ V) {w : Nat} :
    w ∈ V ↔ w ∈ p.unseen ∨ w ∈ p.stack ∨ w ∈ p.done.flatten := by
  rw [← h.perm.mem_iff, List.append_assoc, List.mem_append, List.mem_append]

include hV in
theorem nodup_stack (h : p.Inv succ V) : p.stack.Nodup :=
  (h.perm.nodup_iff.2 hV).of_append_left.of_append_right

theorem push (h : p.Inv succ V) (hv : v ∈ p.unseen) : (p.push v).Inv succ V := by
  refine ⟨?_, h.nonempty, h.strong, h.ordered⟩
  have hperm : (p.unseen.erase v ++ v :: p.stack).Perm (p.unseen ++ p.stack) :=
    List.perm_middle.trans ((List.perm_cons_erase hv).symm.append_right _)
  exact (hperm.append_right _).trans h.perm

theorem close_stack (hstack : q.stack = new ++ p.stack) :
    (q.close p.stack.length).stack = p.stack := by
  simp [Pass.close, hstack]

/-- Taking the top of the stack as a component, if all its vertices are connected and no
edge leads from it to what stays on the stack. -/
theorem close (h : q.Inv succ V) (hstack : q.stack = new ++ p.stack) (hnew : new ≠ [])
    (hjoined : ∀ x ∈ new, ∀ y ∈ new, Path succ V x y)
    (hout : ∀ x ∈ new, ∀ w, Edge succ V x w → w ∈ new ∨ w ∈ q.done.flatten) :
    (q.close p.stack.length).Inv succ V := by
  have hdone : (q.close p.stack.length).done = new.reverse :: q.done := by
    simp [Pass.close, hstack]
  have hrest := close_stack hstack
  refine ⟨?_, ?_, ?_, ?_⟩
  · have hperm := h.perm
    rw [hstack] at hperm
    rw [hdone, hrest, List.flatten_cons]
    refine List.Perm.trans ?_ hperm
    show (q.unseen ++ p.stack ++ (new.reverse ++ q.done.flatten)).Perm _
    rw [← List.append_assoc (q.unseen ++ p.stack), ← List.append_assoc q.unseen new]
    refine List.Perm.append_right _ ?_
    rw [List.append_assoc, List.append_assoc]
    exact (List.perm_append_comm.trans ((List.reverse_perm new).append_right _)).append_left _
  · rw [hdone, List.mem_cons, not_or]
    exact ⟨fun he => hnew (List.reverse_eq_nil_iff.1 he.symm), h.nonempty⟩
  · rw [hdone]
    intro c hc x hx y hy
    rcases List.mem_cons.1 hc with rfl | hc
    · exact hjoined x (List.mem_reverse.1 hx) y (List.mem_reverse.1 hy)
    · exact h.strong c hc x hx y hy
  · rw [hdone]
    refine ⟨fun x hx w hw => ?_, h.ordered⟩
    rw [List.mem_reverse]
    exact hout x (List.mem_reverse.1 hx) w hw

end Pass.Inv

/-- Vertices have been seen, and those on the old stack are not below `low`. -/
def Looked (p : Pass) (low : Nat) (q : Pass) (ws : List Nat) : Prop :=
  ∀ w ∈ ws, w ∉ q.unseen ∧ ∀ k, placeOf w p.stack = some k → low ≤ k

theorem Looked.mono {ws : List Nat} {low' : Nat} {q' : Pass} (h : Looked p low q ws)
    (hlow : low' ≤ low) (hunseen : ∀ w ∈ q'.unseen, w ∈ q.unseen) : Looked p low' q' ws :=
  fun w hw => ⟨fun hw' => (h w hw).1 (hunseen w hw'),
    fun k hk => Nat.le_trans hlow ((h w hw).2 k hk)⟩

/-- What came on top of the stack since a vertex was entered, and how low its edges lead. -/
structure Opened (succ : Nat → List Nat) (V : List Nat) (p : Pass) (v low : Nat) (q : Pass)
    (new : List Nat) : Prop where
  inv : q.Inv succ V
  stack : q.stack = new ++ p.stack
  unseen : ∀ w ∈ q.unseen, w ∈ p.unseen
  room : q.unseen.length ≤ p.unseen.length
  low_le : low ≤ p.stack.length
  low_path : low < p.stack.length → ∃ x, placeOf x p.stack = some low ∧ Path succ V v x
  /-- The new vertices and the entered one lead to each other. -/
  joined : ∀ x ∈ new, Path succ V x v ∧ Path succ V v x

/-- A vertex whose edges are being looked at, with the vertices above it on the stack. -/
structure Scanned (succ : Nat → List Nat) (V : List Nat) (p : Pass) (v low : Nat) (q : Pass)
    (new : List Nat) : Prop extends Opened succ V p v low q (new ++ [v]) where
  looked : ∀ x ∈ new, Looked p low q (succ x)

structure Entered (succ : Nat → List Nat) (V : List Nat) (p : Pass) (v low : Nat) (q : Pass)
    (new : List Nat) : Prop extends Opened succ V p v low q new where
  looked : ∀ x ∈ new, Looked p low q (succ x)
  /-- What stays on the stack leads below the vertex. -/
  low_lt : new ≠ [] → low < p.stack.length
  seen : v ∉ q.unseen

theorem Scanned.path_to {w : Nat} (h : Scanned succ V p v low q new)
    (hp : ∀ x ∈ p.stack, Path succ V x v) (hw : Edge succ V v w) :
    ∀ x ∈ q.stack, Path succ V x w := by
  intro x hx
  rw [h.stack] at hx
  rcases List.mem_append.1 hx with hx | hx
  · exact (h.joined x hx).1.tail hw
  · exact (hp x hx).tail hw

include hV in
theorem Opened.placeOf_eq {w k : Nat} (h : Opened succ V p v low q new)
    (hk : placeOf w p.stack = some k) : placeOf w q.stack = some k := by
  have hn := h.inv.nodup_stack hV
  rw [h.stack] at hn ⊢
  rw [placeOf_append, hk]
  intro hw
  exact (List.disjoint_of_nodup_append hn) hw (placeOf_mem hk)

theorem Scanned.path_back (h : Scanned succ V p v low q new)
    (hp : ∀ x ∈ p.stack, Path succ V x v) : ∀ x ∈ q.stack, Path succ V x v := by
  intro x hx
  rw [h.stack] at hx
  rcases List.mem_append.1 hx with hx | hx
  · exact (h.joined x hx).1
  · exact hp x hx

include hV in
theorem Scanned.enter {w low' : Nat} {q' : Pass} {above : List Nat}
    (h : Scanned succ V p v low q new) (hp : ∀ x ∈ p.stack, Path succ V x v)
    (hw : Edge succ V v w) (he : Entered succ V q w low' q' above) :
    Scanned succ V p v (min low low') q' (above ++ new) where
  inv := he.inv
  stack := by rw [he.stack, h.stack]; simp
  unseen := fun x hx => h.unseen x (he.unseen x hx)
  room := Nat.le_trans he.room h.room
  low_le := Nat.le_trans (Nat.min_le_left _ _) h.low_le
  low_path := by
    intro hlt
    by_cases hle : low ≤ low'
    · rw [Nat.min_eq_left hle] at hlt ⊢
      exact h.low_path hlt
    · rw [Nat.min_eq_right (Nat.le_of_not_le hle)] at hlt ⊢
      have hlen : p.stack.length ≤ q.stack.length := by
        rw [h.stack, List.length_append]
        omega
      obtain ⟨x, hx, hpath⟩ := he.low_path (Nat.lt_of_lt_of_le hlt hlen)
      rw [h.stack] at hx
      exact ⟨x, placeOf_of_lt hx hlt, .head hw hpath⟩
  joined := by
    intro x hx
    rw [List.append_assoc] at hx
    rcases List.mem_append.1 hx with hx | hx
    · obtain ⟨hxw, hwx⟩ := he.joined x hx
      -- what stays above leads below its own vertex, and from there back
      obtain ⟨y, hy, hwy⟩ := he.low_path (he.low_lt (List.ne_nil_of_mem hx))
      have hyv := h.path_back hp y (placeOf_mem hy)
      exact ⟨hxw.trans (hwy.trans hyv), .head hw hwx⟩
    · exact h.joined x hx
  looked := by
    intro x hx
    rcases List.mem_append.1 hx with hx | hx
    · intro u hu
      obtain ⟨hseen, hlow⟩ := he.looked x hx u hu
      refine ⟨hseen, fun k hk => ?_⟩
      exact Nat.le_trans (Nat.min_le_right _ _) (hlow k (h.placeOf_eq hV hk))
    · exact (h.looked x hx).mono (Nat.min_le_left _ _) he.unseen

theorem Scanned.lower {w place : Nat} (h : Scanned succ V p v low q new)
    (hw : Edge succ V v w) (hplace : placeOf w q.stack = some place) :
    Scanned succ V p v (min low place) q new where
  inv := h.inv
  stack := h.stack
  unseen := h.unseen
  room := h.room
  low_le := Nat.le_trans (Nat.min_le_left _ _) h.low_le
  low_path := by
    intro hlt
    by_cases hle : low ≤ place
    · rw [Nat.min_eq_left hle] at hlt ⊢
      exact h.low_path hlt
    · rw [Nat.min_eq_right (Nat.le_of_not_le hle)] at hlt ⊢
      rw [h.stack] at hplace
      exact ⟨w, placeOf_of_lt hplace hlt, .single hw⟩
  joined := h.joined
  looked := fun x hx => (h.looked x hx).mono (Nat.min_le_left _ _) fun _ hw' => hw'

def EnterSpec (succ : Nat → List Nat) (V : List Nat) (room : Nat) : Prop :=
  ∀ (p : Pass) (v : Nat), p.Inv succ V → v ∈ p.unseen → p.unseen.length ≤ room →
    (∀ x ∈ p.stack, Path succ V x v) →
      ∃ new, Entered succ V p v (enter succ room p v).1 (enter succ room p v).2 new

include hV in
theorem Scanned.look {room w : Nat} (hroom : EnterSpec succ V room)
    (h : Scanned succ V p v low q new) (hp : ∀ x ∈ p.stack, Path succ V x v)
    (hw : w ∈ succ v) (hq : q.unseen.length ≤ room) :
    ∃ new', Scanned succ V p v (look succ room (low, q) w).1 (look succ room (low, q) w).2 new' ∧
      (Components.look succ room (low, q) w).1 ≤ low ∧
      (∀ x ∈ (Components.look succ room (low, q) w).2.unseen, x ∈ q.unseen) ∧
      (Components.look succ room (low, q) w).2.unseen.length ≤ q.unseen.length ∧
      Looked p (Components.look succ room (low, q) w).1
        (Components.look succ room (low, q) w).2 [w] := by
  unfold Components.look
  by_cases hseen : w ∈ q.unseen
  · simp only [hseen, if_true]
    have hedge : Edge succ V v w := ⟨hw, h.inv.mem_iff.2 (.inl hseen)⟩
    obtain ⟨above, he⟩ := hroom q w h.inv hseen hq (h.path_to hp hedge)
    refine ⟨above ++ new, h.enter hV hp hedge he, Nat.min_le_left _ _, he.unseen, he.room, ?_⟩
    intro u hu
    obtain rfl := List.mem_singleton.1 hu
    refine ⟨he.seen, fun k hk => ?_⟩
    -- an unseen vertex has no place on the stack
    have hstack : u ∈ q.stack := placeOf_mem (h.placeOf_eq hV hk)
    have hn := (h.inv.perm.nodup_iff.2 hV).of_append_left
    exact absurd hstack (List.disjoint_of_nodup_append hn hseen)
  · simp only [hseen, if_false]
    cases hplace : placeOf w q.stack with
    | some place =>
      have hedge : Edge succ V v w := ⟨hw, h.inv.mem_iff.2 (.inr (.inl (placeOf_mem hplace)))⟩
      refine ⟨new, h.lower hedge hplace, Nat.min_le_left _ _, fun x hx => hx, Nat.le_refl _, ?_⟩
      intro u hu
      obtain rfl := List.mem_singleton.1 hu
      refine ⟨hseen, fun k hk => ?_⟩
      obtain rfl : place = k := by simpa [hplace] using h.placeOf_eq hV hk
      exact Nat.min_le_right _ _
    | none =>
      refine ⟨new, h, Nat.le_refl _, fun x hx => hx, Nat.le_refl _, ?_⟩
      intro u hu
      obtain rfl := List.mem_singleton.1 hu
      refine ⟨hseen, fun k hk => ?_⟩
      have hk' := h.placeOf_eq hV hk
      rw [hplace] at hk'
      cases hk'

include hV in
theorem Scanned.foldl_look {room : Nat} (hroom : EnterSpec succ V room)
    (hp : ∀ x ∈ p.stack, Path succ V x v) (ws : List Nat) (hws : ∀ w ∈ ws, w ∈ succ v) :
    ∀ {low : Nat} {q : Pass} {new : List Nat}, Scanned succ V p v low q new →
      q.unseen.length ≤ room → ∃ new',
        Scanned succ V p v (ws.foldl (Components.look succ room) (low, q)).1
          (ws.foldl (Components.look succ room) (low, q)).2 new' ∧
        (ws.foldl (Components.look succ room) (low, q)).1 ≤ low ∧
        (∀ x ∈ (ws.foldl (Components.look succ room) (low, q)).2.unseen, x ∈ q.unseen) ∧
        Looked p (ws.foldl (Components.look succ room) (low, q)).1
          (ws.foldl (Components.look succ room) (low, q)).2 ws := by
  induction ws with
  | nil =>
    intro low q new h _
    exact ⟨new, h, Nat.le_refl _, fun x hx => hx, fun w hw => by cases hw⟩
  | cons w ws ih =>
    intro low q new h hq
    obtain ⟨new₁, h₁, hlow₁, hun₁, hlen₁, hl₁⟩ :=
      h.look hV hroom hp (hws w List.mem_cons_self) hq
    rw [List.foldl_cons]
    generalize Components.look succ room (low, q) w = r at h₁ hlow₁ hun₁ hlen₁ hl₁ ⊢
    obtain ⟨new₂, h₂, hlow₂, hun₂, hl₂⟩ :=
      ih (fun x hx => hws x (List.mem_cons_of_mem _ hx)) h₁ (Nat.le_trans hlen₁ hq)
    refine ⟨new₂, h₂, Nat.le_trans hlow₂ hlow₁, fun x hx => hun₁ x (hun₂ x hx), ?_⟩
    intro u hu
    rcases List.mem_cons.1 hu with rfl | hu
    · exact hl₁.mono hlow₂ hun₂ u List.mem_cons_self
    · exact hl₂ u hu

theorem Pass.Inv.scanned (h : p.Inv succ V) (hv : v ∈ p.unseen) :
    Scanned succ V p v p.stack.length (p.push v) [] where
  inv := h.push hv
  stack := rfl
  unseen := fun _ hx => List.mem_of_mem_erase hx
  room := List.length_erase_le
  low_le := Nat.le_refl _
  low_path := fun hlt => absurd hlt (Nat.lt_irrefl _)
  joined := by
    intro x hx
    obtain rfl : x = v := by simpa using hx
    exact ⟨.refl, .refl⟩
  looked := fun x hx => by cases hx

theorem Scanned.stay (h : Scanned succ V p v low q new) (hl : Looked p low q (succ v))
    (hlt : low < p.stack.length) (hv : v ∉ q.unseen) :
    Entered succ V p v low q (new ++ [v]) where
  toOpened := h.toOpened
  looked := by
    intro x hx
    rcases List.mem_append.1 hx with hx | hx
    · exact h.looked x hx
    · rw [List.mem_singleton.1 hx]
      exact hl
  low_lt := fun _ => hlt
  seen := hv

theorem Scanned.finish (h : Scanned succ V p v low q new) (hl : Looked p low q (succ v))
    (hge : ¬ low < p.stack.length) (hv : v ∉ q.unseen) :
    Entered succ V p v low (q.close p.stack.length) [] where
  inv := by
    refine h.inv.close h.stack (by simp)
      (fun x hx y hy => (h.joined x hx).1.trans (h.joined y hy).2) ?_
    intro x hx w hw
    have hlooked : Looked p low q (succ x) := by
      rcases List.mem_append.1 hx with hx | hx
      · exact h.looked x hx
      · rw [List.mem_singleton.1 hx]
        exact hl
    obtain ⟨hseen, hlow⟩ := hlooked w hw.1
    rcases h.inv.mem_iff.1 hw.2 with hw' | hw' | hw'
    · exact absurd hw' hseen
    · rw [h.stack] at hw'
      rcases List.mem_append.1 hw' with hw' | hw'
      · exact .inl hw'
      · -- an edge to the old stack would have lowered `low`
        obtain ⟨k, hk⟩ := exists_placeOf hw'
        exact absurd (Nat.lt_of_le_of_lt (hlow k hk) (placeOf_lt hk)) hge
    · exact .inr hw'
  stack := Pass.Inv.close_stack h.stack
  unseen := h.unseen
  room := h.room
  low_le := h.low_le
  low_path := h.low_path
  joined := fun x hx => by cases hx
  looked := fun x hx => by cases hx
  low_lt := fun hne => absurd rfl hne
  seen := hv

include hV in
theorem enterSpec (room : Nat) : EnterSpec succ V room := by
  induction room with
  | zero =>
    intro p v _ hv hroom
    have := List.length_pos_of_mem hv
    omega
  | succ room ih =>
    intro p v h hv hroom hp
    have hlen : (p.push v).unseen.length ≤ room := by
      have := List.length_erase_of_mem hv
      have := List.length_pos_of_mem hv
      simp only [Pass.push]
      omega
    obtain ⟨new, hs, -, hun, hl⟩ :=
      Scanned.foldl_look hV ih hp (succ v) (fun w hw => hw) (h.scanned hv) hlen
    rw [enter_succ]
    generalize (succ v).foldl (look succ room) (p.stack.length, p.push v) = r at hs hun hl ⊢
    have hn : p.unseen.Nodup := (h.perm.nodup_iff.2 hV).of_append_left.of_append_left
    have hseen : v ∉ r.2.unseen := fun hv' => (hn.mem_erase_iff.1 (hun v hv')).1 rfl
    by_cases hlt : r.1 < p.stack.length
    · simp only [hlt, if_true]
      exact ⟨new ++ [v], hs.stay hl hlt hseen⟩
    · simp only [hlt, if_false]
      exact ⟨[], hs.finish hl hlt hseen⟩

end Steps

/-! ## The whole pass -/

theorem passOver_spec {succ : Nat → List Nat} {V : List Nat} (hV : V.Nodup) (room : Nat)
    (vs : List Nat) : ∀ {p : Pass}, p.Inv succ V → p.stack = [] → p.unseen.length ≤ room →
      (passOver succ room p vs).Inv succ V ∧ (passOver succ room p vs).stack = [] ∧
      (∀ w ∈ (passOver succ room p vs).unseen, w ∈ p.unseen) ∧
      ∀ v ∈ vs, v ∉ (passOver succ room p vs).unseen := by
  induction vs with
  | nil =>
    intro p h hstack _
    exact ⟨h, hstack, fun w hw => hw, fun v hv => by cases hv⟩
  | cons v vs ih =>
    intro p h hstack hroom
    rw [passOver, List.foldl_cons]
    by_cases hv : v ∈ p.unseen
    · simp only [hv, if_true]
      obtain ⟨new, he⟩ := enterSpec hV room p v h hv hroom (fun x hx => by simp [hstack] at hx)
      generalize enter succ room p v = r at he ⊢
      have hnew : new = [] := by
        by_contra hne
        have := he.low_lt hne
        simp [hstack] at this
      have hstack' : r.2.stack = [] := by rw [he.stack, hnew, hstack]; rfl
      obtain ⟨hinv, hst, hun, hseen⟩ := ih he.inv hstack' (Nat.le_trans he.room hroom)
      refine ⟨hinv, hst, fun w hw => he.unseen w (hun w hw), fun w hw => ?_⟩
      rcases List.mem_cons.1 hw with rfl | hw
      · exact fun hw' => he.seen (hun w hw')
      · exact hseen w hw
    · simp only [hv, if_false]
      obtain ⟨hinv, hst, hun, hseen⟩ := ih h hstack hroom
      refine ⟨hinv, hst, hun, fun w hw => ?_⟩
      rcases List.mem_cons.1 hw with rfl | hw
      · exact fun hw' => hv (hun w hw')
      · exact hseen w hw

end CallTargets.Components

namespace CallTargets.Adjacency

open Components

theorem finalPass_spec (adj : Adjacency) :
    adj.finalPass.Inv adj.succ (List.range adj.size) ∧
      adj.finalPass.done.flatten.Perm (List.range adj.size) := by
  have h₀ : Components.Pass.Inv adj.succ (List.range adj.size)
      { unseen := List.range adj.size, stack := [], done := [] } :=
    ⟨by simp, List.not_mem_nil, fun c hc => (by cases hc), trivial⟩
  obtain ⟨hinv, hstack, hun, hseen⟩ := passOver_spec List.nodup_range adj.size
    (List.range adj.size) h₀ rfl (by simp)
  have hunseen : adj.finalPass.unseen = [] :=
    List.eq_nil_iff_forall_not_mem.2 fun w hw => hseen w (hun w hw) hw
  refine ⟨hinv, ?_⟩
  have hperm := hinv.perm
  change (adj.finalPass.unseen ++ adj.finalPass.stack ++ adj.finalPass.done.flatten).Perm _
    at hperm
  change adj.finalPass.stack = [] at hstack
  rw [hunseen, hstack] at hperm
  exact hperm

theorem perm_flatten_components (adj : Adjacency) :
    adj.components.flatten.Perm (List.range adj.size) := by
  rw [components]
  exact (List.reverse_perm _).flatten.trans adj.finalPass_spec.2

theorem mem_of_edge_components {adj : Adjacency} {before after : List (List Nat)}
    {c : List Nat} (h : adj.components = before ++ c :: after) {v w : Nat} (hv : v ∈ c)
    (hw : w ∈ adj.succ v) (hsize : w < adj.size) : w ∈ (before ++ [c]).flatten := by
  have hordered := adj.finalPass_spec.1.ordered
  have hdone : adj.finalPass.done = after.reverse ++ c :: before.reverse := by
    have := congrArg List.reverse h
    rw [components, List.reverse_reverse] at this
    simpa using this
  rw [hdone] at hordered
  generalize after.reverse = newer at hordered
  induction newer with
  | nil =>
    rcases hordered.1 v hv w ⟨hw, List.mem_range.2 hsize⟩ with hc | hc
    · simp [hc]
    · obtain ⟨l, hl, hwl⟩ := List.mem_flatten.1 hc
      exact List.mem_flatten.2 ⟨l, by simp [List.mem_reverse.1 hl], hwl⟩
  | cons d newer ih => exact ih hordered.2

/-! ## What components tell -/

open Relation

/-- A vertex is reached from another one over edges between vertices. -/
def Reaches (adj : Adjacency) : Nat → Nat → Prop :=
  ReflTransGen fun v w => w ∈ adj.succ v ∧ w < adj.size

section Places

variable {adj : Adjacency} {i j : Nat} {v w : Nat}

theorem mem_take_of_reaches (hv : v ∈ (adj.components.take i).flatten) (h : adj.Reaches v w) :
    w ∈ (adj.components.take i).flatten := by
  induction h with
  | refl => exact hv
  | tail _ hedge ih =>
    rename_i u w
    obtain ⟨c, hc, hu⟩ := List.mem_flatten.1 ih
    obtain ⟨before, after, hsplit⟩ := List.append_of_mem hc
    have hall : adj.components = before ++ c :: (after ++ adj.components.drop i) := by
      rw [← List.cons_append, ← List.append_assoc, ← hsplit, List.take_append_drop]
    have hmem := mem_of_edge_components hall hu hedge.1 hedge.2
    rw [hsplit, List.append_cons, List.flatten_append]
    exact List.mem_append_left _ hmem

theorem le_of_reaches {c d : List Nat} (hc : adj.components[i]? = some c)
    (hd : adj.components[j]? = some d) (hv : v ∈ c) (hw : w ∈ d) (h : adj.Reaches v w) :
    j ≤ i := by
  by_contra hlt
  have hbefore : v ∈ (adj.components.take (i + 1)).flatten := by
    have hplace : (adj.components.take (i + 1))[i]? = some c := by
      rw [List.getElem?_take_of_lt (Nat.lt_succ_self i), hc]
    exact List.mem_flatten.2 ⟨c, List.mem_of_getElem? hplace, hv⟩
  have hafter : w ∈ (adj.components.drop (i + 1)).flatten := by
    have hplace : (adj.components.drop (i + 1))[j - (i + 1)]? = some d := by
      rw [List.getElem?_drop, Nat.add_sub_cancel' (Nat.lt_of_not_le hlt), hd]
    exact List.mem_flatten.2 ⟨d, List.mem_of_getElem? hplace, hw⟩
  have hnodup : adj.components.flatten.Nodup :=
    adj.perm_flatten_components.nodup_iff.2 List.nodup_range
  rw [← List.take_append_drop (i + 1) adj.components, List.flatten_append] at hnodup
  exact List.disjoint_of_nodup_append hnodup (mem_take_of_reaches hbefore h) hafter

end Places

theorem reaches_iff_path {adj : Adjacency} {v w : Nat} :
    adj.Reaches v w ↔ Components.Path adj.succ (List.range adj.size) v w := by
  unfold Reaches Components.Path Edge
  simp only [List.mem_range]

theorem exists_component_iff {adj : Adjacency} {v w : Nat} :
    (∃ c ∈ adj.components, v ∈ c ∧ w ∈ c) ↔
      v < adj.size ∧ adj.Reaches v w ∧ adj.Reaches w v := by
  have hmem {u : Nat} : u < adj.size ↔ ∃ c ∈ adj.components, u ∈ c := by
    rw [← List.mem_range, ← adj.perm_flatten_components.mem_iff, List.mem_flatten]
  constructor
  · rintro ⟨c, hc, hv, hw⟩
    have hdone : c ∈ adj.finalPass.done := List.mem_reverse.1 hc
    have hstrong := adj.finalPass_spec.1.strong c hdone
    exact ⟨hmem.2 ⟨c, hc, hv⟩, reaches_iff_path.2 (hstrong v hv w hw),
      reaches_iff_path.2 (hstrong w hw v hv)⟩
  · rintro ⟨hsize, hvw, hwv⟩
    obtain ⟨c, hc, hv⟩ := hmem.1 hsize
    -- a path from a vertex ends at a vertex
    have hsize' : w < adj.size := by
      rcases hvw.cases_tail with rfl | ⟨u, -, hedge⟩
      · exact hsize
      · exact hedge.2
    obtain ⟨d, hd, hw⟩ := hmem.1 hsize'
    obtain ⟨i, hi⟩ := List.getElem?_of_mem hc
    obtain ⟨j, hj⟩ := List.getElem?_of_mem hd
    have hij : i = j :=
      Nat.le_antisymm (le_of_reaches hj hi hw hv hwv) (le_of_reaches hi hj hv hw hvw)
    subst hij
    obtain rfl : c = d := Option.some.inj (hi.symm.trans hj)
    exact ⟨c, hc, hv, hw⟩

/-- **Strongly connected components.** The components are parts of the vertices, with each vertex
in one of them and there once; two vertices share one exactly if each is reached from the other;
and no edge leads from a component to a later one. -/
theorem components_decompose (adj : Adjacency) :
    adj.components.flatten.Perm (List.range adj.size) ∧ [] ∉ adj.components ∧
      (∀ v w, (∃ c ∈ adj.components, v ∈ c ∧ w ∈ c) ↔
        v < adj.size ∧ adj.Reaches v w ∧ adj.Reaches w v) ∧
      adj.components.Pairwise fun earlier later =>
        ∀ v ∈ earlier, ∀ w ∈ later, w ∉ adj.succ v := by
  refine ⟨adj.perm_flatten_components, ?_, fun v w => exists_component_iff, ?_⟩
  · rw [components, List.mem_reverse]
    exact adj.finalPass_spec.1.nonempty
  · rw [List.pairwise_iff_getElem]
    intro i j hi hj hlt v hv w hw hedge
    have hsize : w < adj.size := by
      have hflat := List.mem_flatten.2 ⟨_, List.getElem_mem hj, hw⟩
      exact List.mem_range.1 (adj.perm_flatten_components.mem_iff.1 hflat)
    have hle := le_of_reaches (List.getElem?_eq_getElem hi) (List.getElem?_eq_getElem hj) hv hw
      (.single ⟨hedge, hsize⟩)
    omega

/-- A cycle with an edge twice, a loop behind it, and an edge to no vertex. -/
example : components #[[1, 1, 9], [2], [0, 3], [3]] = [[3], [0, 1, 2]] := by decide

end CallTargets.Adjacency
