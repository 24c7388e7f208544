import CallTargets.Proofs.Symbol.ScopedName
import CallTargets.Proofs.Symbol.Split

/-!
# What readers yield

A reader may reject a symbol because it is nested too deeply or refers to nothing. `Yields` says
what holds of its result if it has one, and `Loops` what holds of the result of a loop that has
come to some state. A cursor `Faces` a text if it stands in front of it and the angle brackets in
all that it remembers match. The lemmas about `Yields` follow the readers, so that the proof that a
construct is read can be read along its definition.
-/

namespace CallTargets.Symbol

variable {α β σ : Type} {cursor : Cursor} {tail : List Char}

def Yields (read : Scan α) (cursor : Cursor) (Q : α → Cursor → Prop) : Prop :=
  ∀ a cursor', read.run cursor = some (a, cursor') → Q a cursor'

namespace Yields

variable {read : Scan α} {next : α → Scan β} {Q : α → Cursor → Prop} {R : β → Cursor → Prop}

theorem of_run {a : α} {cursor' : Cursor} (hrun : read.run cursor = some (a, cursor'))
    (hQ : Q a cursor') : Yields read cursor Q := by
  intro b cursor'' hb
  rw [hrun] at hb
  cases hb
  exact hQ

theorem of_none (hrun : read.run cursor = none) : Yields read cursor Q := by
  intro b cursor' hb
  rw [hrun] at hb
  cases hb

theorem pure {a : α} (hQ : Q a cursor) : Yields (Pure.pure a) cursor Q := of_run rfl hQ

theorem bind (hread : Yields read cursor fun a cursor' => Yields (next a) cursor' R) :
    Yields (read >>= next) cursor R := by
  intro b cursor' hb
  rw [Scan.run_bind] at hb
  obtain ⟨⟨a, cursor₁⟩, hfirst, hnext⟩ := Option.bind_eq_some_iff.1 hb
  exact hread a cursor₁ hfirst b cursor' hnext

theorem mono {Q' : α → Cursor → Prop} (hread : Yields read cursor Q)
    (hQ : ∀ a cursor', Q a cursor' → Q' a cursor') : Yields read cursor Q' :=
  fun a cursor' hrun => hQ a cursor' (hread a cursor' hrun)

theorem step {a : α} {cursor' : Cursor} (hrun : read.run cursor = some (a, cursor'))
    (hnext : Yields (next a) cursor' R) : Yields (read >>= next) cursor R :=
  bind (of_run hrun hnext)

theorem lift {o : Option α} (hQ : ∀ a, o = some a → Q a cursor) :
    Yields (liftM o) cursor Q := by
  intro a cursor' hrun
  rw [Scan.run_liftM] at hrun
  obtain ⟨b, hb, heq⟩ := Option.map_eq_some_iff.1 hrun
  cases heq
  exact hQ a hb

theorem congr {read' : Scan α} (hrun : read.run cursor = read'.run cursor)
    (hread : Yields read' cursor Q) : Yields read cursor Q := by
  intro a cursor' ha
  rw [hrun] at ha
  exact hread a cursor' ha

theorem of_map (f : α → β) {read' : Scan β}
    (hrun : read'.run cursor = (read.run cursor).map fun r => (f r.1, r.2))
    (hread : Yields read cursor fun a cursor' => R (f a) cursor') : Yields read' cursor R := by
  intro b cursor' hb
  rw [hrun] at hb
  obtain ⟨⟨a, cursor''⟩, ha, heq⟩ := Option.map_eq_some_iff.1 hb
  cases heq
  exact hread a cursor'' ha

end Yields

/-! ## Loops -/

open Scan

/-- The property holds of the result of a loop that has come to a state, if it has one. -/
def Loops (round : σ → Scan (Round σ β)) (s : σ) (cursor : Cursor) (Q : β → Cursor → Prop) : Prop :=
  ∀ n, Yields (repeatUpTo round n s) cursor Q

def Loops.After (round : σ → Scan (Round σ β)) (Q : β → Cursor → Prop) :
    Round σ β → Cursor → Prop
  | .again s, cursor => Loops round s cursor Q
  | .finish b, cursor => Q b cursor

namespace Loops

variable {round : σ → Scan (Round σ β)} {s : σ} {Q : β → Cursor → Prop}

theorem of_round (hround : Yields (round s) cursor (After round Q)) : Loops round s cursor Q := by
  intro n
  cases n with
  | zero => exact Yields.of_none rfl
  | succ n =>
    refine Yields.bind (hround.mono fun r cursor' hr => ?_)
    cases r with
    | again s' => exact hr n
    | finish b => exact Yields.pure hr

theorem yields (h : Loops round s cursor Q) : Yields (loop round s) cursor Q :=
  Yields.step (run_rest cursor) (h _)

end Loops

/-! ## Cursors -/

/-- The cursor stands in front of the text, and the brackets in what it remembers match. -/
structure Cursor.Faces (cursor : Cursor) (text : List Char) : Prop where
  rest_eq : cursor.rest = text
  balanced : ∀ shape ∈ cursor.named, Balanced shape.render.toList

namespace Cursor.Faces

variable {text : List Char}

theorem facing (h : cursor.Faces text) (tail : List Char) : (cursor.facing tail).Faces tail :=
  ⟨rfl, h.balanced⟩

theorem remember (h : cursor.Faces text) {shape : Shape} (hshape : Balanced shape.render.toList) :
    Yields (Scan.remember shape) cursor fun _ cursor' => cursor'.Faces text := by
  refine Yields.of_run rfl ⟨h.rest_eq, fun other hother => ?_⟩
  rcases Array.mem_push.1 hother with hother | rfl
  · exact h.balanced other hother
  · exact hshape

end Cursor.Faces

end CallTargets.Symbol
