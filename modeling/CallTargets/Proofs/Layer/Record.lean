import CallTargets.Proofs.Layer.Facts

/-!
# Facts as records

What is known about layers is a set of records: which layer holds a function, which layer is
copied into which, what escaped, is capped or was stored (`Facts.Has`). Noting a record adds this
one and no other (`has_note`), and facts with the same records answer every question alike
(`Facts.Agree`).
-/

namespace CallTargets

open Relation

inductive Record (κ : Type) where
  | held (l : Layer κ) (f : FunctionId)
  /-- What a layer holds may get into another one. -/
  | copied (target source : Layer κ)
  | escaped (l : Layer κ)
  | capped (t : κ)
  | stored (f : FunctionId)

namespace Record

variable {κ : Type}

/-- The record says something: a layer that is copied into itself does not. -/
def Tells : Record κ → Prop
  | copied target source => target ≠ source
  | _ => True

def Names (kind : FunctionId → Prop) : Record κ → Prop
  | held _ f => kind f
  | stored f => kind f
  | _ => True

/-- The same with other functions in place of those it names. -/
def mapFunctions (map : FunctionId → FunctionId) : Record κ → Record κ
  | held l f => held l (map f)
  | stored f => stored (map f)
  | copied target source => copied target source
  | escaped l => escaped l
  | capped t => capped t

end Record

namespace Facts

variable {κ : Type} [DecidableEq κ]

def note (facts : Facts κ) : Record κ → Facts κ
  | .held l f => facts.confine l f
  | .copied target source => facts.propagate target source
  | .escaped l => facts.escape l
  | .capped t => facts.cap t
  | .stored f => facts.markStored f

def Has (facts : Facts κ) : Record κ → Prop
  | .held l f => f ∈ facts.held l
  | .copied target source => source ∈ facts.sources target
  | .escaped l => l ∈ facts.escaped
  | .capped t => t ∈ facts.capped
  | .stored f => f ∈ facts.stored

variable {facts a b : Facts κ} {r r' : Record κ} {rs : List (Record κ)}
  {l l' target source : Layer κ} {t : κ} {f g : FunctionId}

theorem not_has_empty : ¬ ({} : Facts κ).Has r := by
  cases r <;> exact OrdSet.not_mem_empty _

theorem mem_held_confine :
    f ∈ (facts.confine l g).held l' ↔ f ∈ facts.held l' ∨ l' = l ∧ f = g := by
  obtain ⟨t, field⟩ := l
  obtain ⟨t', field'⟩ := l'
  unfold held confine
  rw [OrdMap.get?_alter]
  by_cases ht : t = t'
  · subst ht
    rw [if_pos rfl, Option.bind_some, OrdMap.get?_alter]
    have hold : (((facts.confined.get? t).getD ∅).get? field') =
        (facts.confined.get? t).bind (·.get? field') := by
      cases facts.confined.get? t <;> rfl
    by_cases hfield : field = field'
    · subst hfield
      rw [if_pos rfl, Option.getD_some, OrdSet.mem_insert, hold]
      simp
    · rw [if_neg hfield, hold]
      have : ¬ (⟨t, field'⟩ : Layer κ) = ⟨t, field⟩ := fun h => hfield (congrArg Layer.field h).symm
      simp [this]
  · rw [if_neg ht]
    have : ¬ (⟨t', field'⟩ : Layer κ) = ⟨t, field⟩ := fun h => ht (congrArg Layer.type h).symm
    simp [this]

theorem mem_held_mapFunctions {map : FunctionId → FunctionId} :
    f ∈ (facts.mapFunctions map).held l ↔ ∃ g ∈ facts.held l, map g = f := by
  unfold held mapFunctions
  rw [OrdMap.get?_mapValues]
  cases facts.confined.get? l.type with
  | none => simp
  | some fields =>
    simp only [Option.map_some, Option.bind_some, OrdMap.get?_mapValues]
    cases fields.get? l.field with
    | none => simp
    | some functions => simp

theorem mem_sources_propagate {l' : Layer κ} :
    l' ∈ (facts.propagate target source).sources l ↔
      l' ∈ facts.sources l ∨ (l = target ∧ l' = source) ∧ target ≠ source := by
  unfold propagate
  split
  · rename_i heq
    simp [heq]
  · rename_i hne
    exact OrdMap.relates_add.trans (by simp [hne, OrdMap.Relates, sources])

theorem has_note : (facts.note r).Has r' ↔ facts.Has r' ∨ r' = r ∧ r.Tells := by
  cases r with
  | held l f =>
    cases r' with
    | held l' f' => simpa [note, Has, Record.Tells] using mem_held_confine
    | _ => simp [note, Has, confine, sources]
  | copied target source =>
    cases r' with
    | copied target' source' => simpa [note, Has, Record.Tells] using mem_sources_propagate
    | _ => simp only [note, Has, propagate, held]; split <;> simp
  | escaped l =>
    cases r' with
    | escaped => simp [note, Has, escape, Record.Tells]
    | _ => simp [note, Has, escape, held, sources]
  | capped t =>
    cases r' with
    | capped => simp [note, Has, cap, Record.Tells]
    | _ => simp [note, Has, cap, held, sources]
  | stored f =>
    cases r' with
    | stored => simp [note, Has, markStored, Record.Tells]
    | _ => simp [note, Has, markStored, held, sources]

def noteAll (facts : Facts κ) (rs : List (Record κ)) : Facts κ := rs.foldl note facts

theorem noteAll_append {rs' : List (Record κ)} :
    facts.noteAll (rs ++ rs') = (facts.noteAll rs).noteAll rs' := List.foldl_append

theorem has_noteAll : (facts.noteAll rs).Has r ↔ facts.Has r ∨ r ∈ rs ∧ r.Tells := by
  have hadds : ∀ facts : Facts κ, ∀ r' ∈ rs,
      (facts.note r').Has r ↔ facts.Has r ∨ r' = r ∧ r.Tells := by
    intro facts r' _
    rw [has_note]
    exact or_congr_right ⟨fun h => ⟨h.1.symm, h.1 ▸ h.2⟩, fun h => ⟨h.1.symm, h.1 ▸ h.2⟩⟩
  refine (foldl_adds_iff (P := fun facts : Facts κ => facts.Has r) hadds facts).trans ?_
  simp

theorem has_mapFunctions {map : FunctionId → FunctionId} :
    (facts.mapFunctions map).Has r ↔ ∃ r', facts.Has r' ∧ r'.mapFunctions map = r := by
  constructor
  · intro h
    cases r with
    | held l f =>
      obtain ⟨g, hg, rfl⟩ := mem_held_mapFunctions.1 h
      exact ⟨.held l g, hg, rfl⟩
    | stored f =>
      obtain ⟨g, hg, rfl⟩ := OrdSet.mem_image.1 h
      exact ⟨.stored g, hg, rfl⟩
    | copied target source => exact ⟨.copied target source, h, rfl⟩
    | escaped l => exact ⟨.escaped l, h, rfl⟩
    | capped t => exact ⟨.capped t, h, rfl⟩
  · rintro ⟨r', h, rfl⟩
    cases r' with
    | held l f => exact mem_held_mapFunctions.2 ⟨f, h, rfl⟩
    | stored f => exact OrdSet.mem_image.2 ⟨f, h, rfl⟩
    | _ => exact h

/-! ## What layers hold -/

theorem mem_targets_nth {i : Nat} : f ∈ facts.targets ⟨t, .nth i⟩ ↔
    f ∈ facts.held ⟨t, .nth i⟩ ∨ f ∈ facts.held ⟨t, .any⟩ := OrdSet.mem_union

theorem mem_targets_any : f ∈ facts.targets ⟨t, .any⟩ ↔ ∃ field, f ∈ facts.held ⟨t, field⟩ := by
  have hheld : ∀ field, f ∈ facts.held ⟨t, field⟩ ↔
      ((facts.confined.get? t).getD ∅).Relates field f := by
    intro field
    unfold held OrdMap.Relates
    cases facts.confined.get? t <;> rfl
  simp only [hheld]
  refine OrdSet.mem_ofList.trans (List.mem_flatMap.trans ⟨?_, ?_⟩)
  · rintro ⟨e, he, hf⟩
    refine ⟨e.1, ?_⟩
    rw [OrdMap.Relates, OrdMap.get?_of_mem_toList he]
    exact hf
  · rintro ⟨field, hf⟩
    obtain ⟨s, hget, hf⟩ := OrdMap.exists_of_relates hf
    exact ⟨(field, s), OrdMap.mem_toList_of_get? hget, hf⟩

theorem isEscaped_iff : facts.isEscaped l ↔ l ∈ facts.escaped ∨ l.whole ∈ facts.escaped := by
  simp [isEscaped]

/-! ## Layers that get into others -/

/-- A layer is copied into another one, or into the whole of its type. -/
def Copies (facts : Facts κ) (target source : Layer κ) : Prop :=
  facts.Has (.copied target source) ∨ facts.Has (.copied target.whole source)

theorem leads_inflow : Search.Leads facts.inflow = facts.Copies := by
  funext target source
  exact propext List.mem_append

theorem mem_matched_iff :
    f ∈ facts.matched l ↔ ∃ d, ReflTransGen facts.Copies l d ∧ f ∈ facts.targets d := by
  simp only [mem_matched, mem_dependents, leads_inflow, reflTransGen_iff_eq_or_transGen,
    or_and_right, exists_or, exists_eq_left]

/-- The search for what may get into a layer looks at each layer once, however copies go round. It
finds exactly the layers that one copy or more lead to, each once, and the layer is matched by what
it and these layers hold. -/
theorem matched_closure (facts : Facts κ) (l : Layer κ) :
    (∃ looked : List (Layer κ), looked.Nodup ∧
      (∀ d, d ∈ looked ↔ ReflTransGen facts.Copies l d) ∧
      facts.dependents l = looked.foldl (fun found d => found.insertMany (facts.inflow d)) ∅) ∧
    (facts.dependents l).toList.Nodup ∧
    (∀ d, d ∈ (facts.dependents l).toList ↔ TransGen facts.Copies l d) ∧
    (facts.matched l).toList.Nodup ∧
    ∀ f, f ∈ (facts.matched l).toList ↔
      f ∈ facts.targets l ∨ ∃ d, TransGen facts.Copies l d ∧ f ∈ facts.targets d := by
  have hdependents : ∀ d, d ∈ facts.dependents l ↔ TransGen facts.Copies l d := fun d => by
    rw [mem_dependents, leads_inflow]
  refine ⟨⟨facts.looked l, nodup_looked, fun d => ?_, dependents_eq_foldl⟩,
    (facts.dependents l).nodup, hdependents, (facts.matched l).nodup, fun f => ?_⟩
  · rw [mem_looked, leads_inflow]
  · simp only [OrdSet.mem_toList, mem_matched, hdependents]

/-! ## Facts with the same records -/

def Agree (a b : Facts κ) : Prop := ∀ r, a.Has r ↔ b.Has r

namespace Agree

variable (h : a.Agree b)

include h

theorem mem_targets : f ∈ a.targets l ↔ f ∈ b.targets l := by
  have hheld : ∀ l, f ∈ a.held l ↔ f ∈ b.held l := fun l => h (.held l f)
  obtain ⟨t, i | _⟩ := l
  · simp only [mem_targets_nth, hheld]
  · simp only [mem_targets_any, hheld]

theorem copies : a.Copies = b.Copies := by
  funext target source
  exact propext (or_congr (h (.copied target source)) (h (.copied target.whole source)))

theorem mem_matched : f ∈ a.matched l ↔ f ∈ b.matched l := by
  simp only [mem_matched_iff, h.copies, h.mem_targets]

theorem isEscaped : a.isEscaped l = b.isEscaped l := by
  rw [Bool.eq_iff_iff, isEscaped_iff, isEscaped_iff]
  exact or_congr (h (.escaped l)) (h (.escaped l.whole))

theorem isCapped : a.isCapped t = b.isCapped t := decide_eq_decide.2 (h (.capped t))

end Agree

end Facts

end CallTargets
