import CallTargets.Flow.Params
import CallTargets.Proofs.Graph.Search
import CallTargets.Proofs.Program.Valid

/-!
# What a trace finds

A function pointer may come from other values (`View.origins`), and each value brings some
functions by itself or is out of sight (`View.brings`). Neither depends on the order in
which a trace looks at values. A trace finds exactly what is brought by the values that
the pointer may come from over any number of steps, and fails exactly if one of them is
out of sight (`traced_le_iff`).

What is known about a pointer is ordered by how much it allows, with `ParamFlow.unknown`
on top.
-/

namespace CallTargets

open Relation

/-! ## The order of knowledge -/

namespace ParamFlow

/-- Everything that the first allows is allowed by the second. -/
def Le : ParamFlow → ParamFlow → Prop
  | _, unknown => True
  | known s, known t => ∀ f ∈ s, f ∈ t
  | unknown, known _ => False

instance : LE ParamFlow := ⟨Le⟩

theorem known_le_known {s t : OrdSet FunctionId} : known s ≤ known t ↔ ∀ f ∈ s, f ∈ t := Iff.rfl

theorem le_unknown (a : ParamFlow) : a ≤ unknown := by cases a <;> trivial

theorem not_unknown_le_known (s : OrdSet FunctionId) : ¬ unknown ≤ known s := id

@[refl]
theorem le_refl (a : ParamFlow) : a ≤ a := by
  cases a with
  | unknown => trivial
  | known s => exact fun f hf => hf

theorem le_trans {a b c : ParamFlow} (hab : a ≤ b) (hbc : b ≤ c) : a ≤ c := by
  cases c with
  | unknown => exact le_unknown a
  | known u =>
    cases b with
    | unknown => exact absurd hbc (not_unknown_le_known u)
    | known t =>
      cases a with
      | unknown => exact absurd hab (not_unknown_le_known t)
      | known s => exact fun f hf => hbc f (hab f hf)

def ofTrace : Option (OrdSet FunctionId) → ParamFlow
  | some functions => known functions
  | none => unknown

theorem merge_le_iff {a b : ParamFlow} {incoming : Option (OrdSet FunctionId)} :
    a.merge incoming ≤ b ↔ a ≤ b ∧ ofTrace incoming ≤ b := by
  cases b with
  | unknown => exact iff_of_true (le_unknown _) ⟨le_unknown _, le_unknown _⟩
  | known t =>
    cases a with
    | unknown => exact ⟨fun h => h.elim, fun h => h.1⟩
    | known s =>
      cases incoming with
      | none => exact ⟨fun h => h.elim, fun h => h.2⟩
      | some u =>
        simp only [merge, ofTrace, known_le_known, OrdSet.mem_union]
        exact ⟨fun h => ⟨fun f hf => h f (.inl hf), fun f hf => h f (.inr hf)⟩,
          fun h f hf => hf.elim (h.1 f) (h.2 f)⟩

end ParamFlow

/-! ## Where pointers come from -/

def Program.heldIn (p : Program) (slot : ValueId) : List ValueId :=
  match p.privateStores? slot with
  | some stores =>
    (stores.filterMap fun store => (p.store? store).map Prod.fst) ++ (p.initOf? slot).toList
  | none => []

namespace View

/-- The values that a pointer may come from in one step. -/
def origins (view : View) (v : ValueId) : List ValueId :=
  let p := view.program
  match (p.value? v).map Value.kind with
  | some (.const (.cast op operand)) => if op.keepsPointer then [operand] else []
  | some (.instr i) =>
    match i.opcode with
    | .cast op operand => if op.keepsPointer then [operand] else []
    | .phi incoming => incoming
    | .select _ ifTrue ifFalse => [ifTrue, ifFalse]
    | .load ptr => p.heldIn (p.strip ptr)
    | .call call => ((view.directTarget? call.callee).map p.returned).getD []
    | _ => []
  | _ => []

/-- What a value brings by itself: functions, nothing, or what is out of sight. -/
def brings (view : View) (flow : Flow) (v : ValueId) : ParamFlow :=
  let p := view.program
  let if_ (inSight : Bool) : ParamFlow := if inSight then .known ∅ else .unknown
  match (p.value? v).map Value.kind with
  | some (.function f) => .known (if p.isIntrinsic f then ∅ else .ofList [view.definitionOf f])
  | some (.argument f place) => (flow.params.get? (f, place)).getD .unknown
  | some (.const c) =>
    match c with
    | .null | .undef => .known ∅
    | .cast op _ => if_ op.keepsPointer
    | _ => .unknown
  | some (.instr i) =>
    match i.opcode with
    | .cast op _ => if_ op.keepsPointer
    | .phi _ | .select .. => .known ∅
    | .load ptr => if_ (p.privateStores? (p.strip ptr)).isSome
    | .call call => if_ (view.directTarget? call.callee).isSome
    | _ => .unknown
  | _ => .unknown

/-- The first value may come from the second, over any number of steps. -/
def ComesFrom (view : View) : ValueId → ValueId → Prop := ReflTransGen (Search.Leads view.origins)

def traced (view : View) (flow : Flow) (v : ValueId) : ParamFlow :=
  .ofTrace ((view.trace? flow v).map Trace.functions)

end View

/-! ## One step of a trace -/

section Step

variable {view : View} {flow : Flow} {s s' : Trace.Progress} {v : ValueId} {next : List ValueId}

/-- What a step of a trace does, told without the order of the values. The results of a
function are only sent to wait at the first call of it. -/
structure Trace.Stepped (view : View) (flow : Flow) (s : Trace.Progress) (v : ValueId)
    (s' : Trace.Progress) (next : List ValueId) : Prop where
  brought : ∃ functions, view.brings flow v = .known functions ∧
    ∀ f, f ∈ s'.trace.functions ↔ f ∈ s.trace.functions ∨ f ∈ functions
  next_mem : ∀ w ∈ next, w ∈ view.origins v
  origins_mem : ∀ w ∈ view.origins v, w ∈ next ∨ ∃ f ∈ s.entered, w ∈ view.program.returned f
  entered : ∀ f ∈ s'.entered, f ∈ s.entered ∨ ∀ w ∈ view.program.returned f, w ∈ next

theorem Trace.Stepped.pass (hb : view.brings flow v = .known ∅)
    (hnext : ∀ w, w ∈ next ↔ w ∈ view.origins v)
    (hfunctions : s'.trace.functions = s.trace.functions) (hentered : s'.entered = s.entered) :
    Trace.Stepped view flow s v s' next where
  brought := ⟨∅, hb, fun f => by simp [hfunctions]⟩
  next_mem w hw := (hnext w).1 hw
  origins_mem w hw := .inl ((hnext w).2 hw)
  entered f hf := .inl (hentered ▸ hf)

theorem Trace.Stepped.leaf {functions : OrdSet FunctionId}
    (hb : view.brings flow v = .known functions) (ho : view.origins v = []) :
    Trace.Stepped view flow s v (s.reaches functions.toList) [] where
  brought := ⟨functions, hb, fun f => by simp [Progress.reaches]⟩
  next_mem w hw := by cases hw
  origins_mem w hw := by simp [ho] at hw
  entered f hf := .inl hf

def Trace.StepsTo (view : View) (flow : Flow) (s : Trace.Progress) (v : ValueId) :
    Visit ValueId Trace.Progress Unit → Prop
  | .stop () => view.brings flow v = .unknown
  | .goOn s' next => Trace.Stepped view flow s v s' next

theorem Trace.StepsTo.call {f : FunctionId} (hb : view.brings flow v = .known ∅)
    (ho : view.origins v = view.program.returned f) :
    Trace.StepsTo view flow s v
      (if s.entered.contains f then .goOn (s.through [v]) []
        else .goOn { s.through [v] with entered := f :: s.entered }
          (view.program.returned f).reverse) := by
  have hbrought : ∃ functions, view.brings flow v = .known functions ∧
      ∀ g, g ∈ s.trace.functions ↔ g ∈ s.trace.functions ∨ g ∈ functions :=
    ⟨∅, hb, fun g => by simp⟩
  by_cases hf : f ∈ s.entered
  · rw [if_pos (List.contains_iff_mem.2 hf)]
    exact ⟨hbrought, fun w hw => (by cases hw), fun w hw => .inr ⟨f, hf, ho ▸ hw⟩,
      fun g hg => .inl hg⟩
  · rw [if_neg (fun h => hf (List.contains_iff_mem.1 h))]
    refine ⟨hbrought, fun w hw => ?_, fun w hw => .inl ?_, fun g hg => ?_⟩
    · rwa [ho, ← List.mem_reverse]
    · rwa [List.mem_reverse, ← ho]
    · rcases List.mem_cons.1 hg with rfl | hg
      · exact .inr fun w hw => List.mem_reverse.2 hw
      · exact .inl hg

theorem Trace.stepsTo_back_instr {i : Instr}
    (hkind : (view.program.value? v).map Value.kind = some (.instr i)) :
    Trace.StepsTo view flow s v (Trace.back view flow s v) := by
  cases hop : i.opcode with
  | cast op operand =>
    simp only [Trace.back, hkind, hop]
    cases hkeep : op.keepsPointer with
    | false => simp [Trace.StepsTo, View.brings, hkind, hop, hkeep]
    | true =>
      exact .pass (by simp [View.brings, hkind, hop, hkeep])
        (by simp [View.origins, hkind, hop, hkeep]) rfl rfl
  | phi incoming =>
    simp only [Trace.back, hkind, hop]
    exact .pass (by simp [View.brings, hkind, hop]) (by simp [View.origins, hkind, hop]) rfl rfl
  | select _ ifTrue ifFalse =>
    simp only [Trace.back, hkind, hop]
    exact .pass (by simp [View.brings, hkind, hop])
      (by simp [View.origins, hkind, hop, or_comm]) rfl rfl
  | load ptr =>
    simp only [Trace.back, hkind, hop]
    cases hstores : view.program.privateStores? (view.program.strip ptr) with
    | none => simp [Trace.StepsTo, View.brings, hkind, hop, hstores]
    | some stores =>
      exact .pass (by simp [View.brings, hkind, hop, hstores])
        (fun w => by
          simp only [View.origins, hkind, hop, Program.heldIn, hstores, List.mem_reverse]) rfl rfl
  | call call =>
    simp only [Trace.back, hkind, hop]
    cases htarget : view.directTarget? call.callee with
    | none => simp [Trace.StepsTo, View.brings, hkind, hop, htarget]
    | some f =>
      exact .call (by simp [View.brings, hkind, hop, htarget])
        (by simp [View.origins, hkind, hop, htarget])
  | _ => simp only [Trace.back, Trace.StepsTo, View.brings, hkind, hop]

/-- A step of a trace stops exactly at what is out of sight, and otherwise goes on to what
the value may come from. -/
theorem Trace.stepsTo_back (view : View) (flow : Flow) (s : Trace.Progress) (v : ValueId) :
    Trace.StepsTo view flow s v (Trace.back view flow s v) := by
  cases hkind : (view.program.value? v).map Value.kind with
  | none => simp only [Trace.back, hkind, Trace.StepsTo, View.brings]
  | some k =>
    cases k with
    | instr i => exact stepsTo_back_instr hkind
    | global g => simp only [Trace.back, hkind, Trace.StepsTo, View.brings]
    | argument f place =>
      simp only [Trace.back, hkind, Flow.known?]
      cases hknown : flow.params.get? (f, place) with
      | none => simp [Trace.StepsTo, View.brings, hkind, hknown]
      | some a =>
        cases a with
        | unknown => simp [Trace.StepsTo, View.brings, hkind, hknown]
        | known functions =>
          exact .leaf (by simp [View.brings, hkind, hknown]) (by simp [View.origins, hkind])
    | function f =>
      simp only [Trace.back, hkind]
      by_cases hf : view.program.isIntrinsic f
      · rw [if_pos hf]
        exact .pass (by simp [View.brings, hkind, hf]) (by simp [View.origins, hkind]) rfl rfl
      · rw [if_neg hf]
        change Trace.Stepped view flow s v
          (s.reaches (OrdSet.ofList [view.definitionOf f]).toList) []
        exact .leaf (by simp [View.brings, hkind, hf]) (by simp [View.origins, hkind])
    | const c =>
      cases c with
      | null =>
        simp only [Trace.back, hkind]
        exact .pass (by simp [View.brings, hkind]) (by simp [View.origins, hkind]) rfl rfl
      | undef =>
        simp only [Trace.back, hkind]
        exact .pass (by simp [View.brings, hkind]) (by simp [View.origins, hkind]) rfl rfl
      | cast op operand =>
        simp only [Trace.back, hkind]
        cases hkeep : op.keepsPointer with
        | false => simp [Trace.StepsTo, View.brings, hkind, hkeep]
        | true =>
          exact .pass (by simp [View.brings, hkind, hkeep])
            (by simp [View.origins, hkind, hkeep]) rfl rfl
      | _ => simp only [Trace.back, Trace.StepsTo, View.brings, hkind]

end Step

/-! ## Whole traces -/

section Whole

variable {view : View} {flow : Flow} {start : ValueId} {fresh todo next : List ValueId}
  {s s' : Trace.Progress} {v : ValueId}

/-- What holds between any two steps of a trace: what was looked at is in sight and
recorded, and what it may come from was looked at or waits. -/
structure Trace.Inv (view : View) (flow : Flow) (start : ValueId) (fresh todo : List ValueId)
    (s : Trace.Progress) : Prop where
  nodup : fresh.Nodup
  begun : start ∉ fresh ∨ start ∈ todo
  waiting : ∀ w ∈ todo, view.ComesFrom start w
  entered : ∀ f ∈ s.entered, ∀ w ∈ view.program.returned f, w ∉ fresh ∨ w ∈ todo
  reached : ∀ u, view.program.HasValue u → u ∉ fresh → view.ComesFrom start u
  brought : ∀ u, view.program.HasValue u → u ∉ fresh →
    view.brings flow u ≤ .known s.trace.functions
  closed : ∀ u, view.program.HasValue u → u ∉ fresh →
    ∀ w ∈ view.origins u, w ∉ fresh ∨ w ∈ todo
  found : ∀ f ∈ s.trace.functions, ∃ u functions, view.ComesFrom start u ∧
    view.brings flow u = .known functions ∧ f ∈ functions

theorem Trace.Inv.visit (h : Trace.Inv view flow start fresh (v :: todo) s) (hv : v ∈ fresh)
    (hstep : Trace.Stepped view flow s v s' next) :
    Trace.Inv view flow start (fresh.erase v) (Turn.newest.join next todo) s' := by
  have hreach : view.ComesFrom start v := h.waiting v List.mem_cons_self
  obtain ⟨functions, hbrings, hfunctions⟩ := hstep.brought
  have hwaits : ∀ w, w ∉ fresh ∨ w ∈ v :: todo →
      w ∉ fresh.erase v ∨ w ∈ Turn.newest.join next todo := fun w =>
    Search.seen_or_waits_erase h.nodup
  have hseen : ∀ u, u ∉ fresh.erase v → u = v ∨ u ∉ fresh := fun u hu => by
    by_contra hne
    push Not at hne
    exact hu ((h.nodup.mem_erase_iff).2 hne)
  constructor
  · exact h.nodup.erase v
  · exact hwaits start h.begun
  · intro w hw
    rcases List.mem_append.1 hw with hw | hw
    · exact hreach.tail (hstep.next_mem w hw)
    · exact h.waiting w (List.mem_cons_of_mem v hw)
  · intro f hf w hw
    rcases hstep.entered f hf with hf | hall
    · exact hwaits w (h.entered f hf w hw)
    · exact .inr (List.mem_append_left todo (hall w hw))
  · intro u hu hun
    rcases hseen u hun with rfl | hun
    · exact hreach
    · exact h.reached u hu hun
  · intro u hu hun
    rcases hseen u hun with rfl | hun
    · rw [hbrings]
      exact fun f hf => (hfunctions f).2 (.inr hf)
    · exact ParamFlow.le_trans (h.brought u hu hun) fun f hf => (hfunctions f).2 (.inl hf)
  · intro u hu hun w hw
    rcases hseen u hun with rfl | hun
    · rcases hstep.origins_mem w hw with hw | ⟨f, hf, hw⟩
      · exact .inr (List.mem_append_left todo hw)
      · exact hwaits w (h.entered f hf w hw)
    · exact hwaits w (h.closed u hu hun w hw)
  · intro f hf
    rcases (hfunctions f).1 hf with hf | hf
    · exact h.found f hf
    · exact ⟨v, functions, hreach, hbrings, hf⟩

theorem Trace.Inv.pass (h : Trace.Inv view flow start fresh (v :: todo) s) (hv : v ∉ fresh) :
    Trace.Inv view flow start fresh todo s := by
  have hwaits : ∀ w, w ∉ fresh ∨ w ∈ v :: todo → w ∉ fresh ∨ w ∈ todo := fun w =>
    Search.seen_or_waits_tail hv
  exact ⟨h.nodup, hwaits _ h.begun, fun w hw => h.waiting w (List.mem_cons_of_mem v hw),
    fun f hf w hw => hwaits w (h.entered f hf w hw), h.reached, h.brought,
    fun u hu hun w hw => hwaits w (h.closed u hu hun w hw), h.found⟩

theorem Trace.keeps_inv (view : View) (flow : Flow) (start : ValueId) :
    (Trace.search view flow).Keeps (Trace.Inv view flow start) where
  visit {_ _ v s _ _} h hv hstep := by
    have hto := Trace.stepsTo_back view flow s v
    rw [show Trace.back view flow s v = _ from hstep] at hto
    exact h.visit hv hto
  pass h hv := h.pass hv

theorem Trace.inv_start (view : View) (flow : Flow) (start : ValueId) :
    Trace.Inv view flow start view.program.valueIds [start] {} := by
  have hfresh : ∀ u, view.program.HasValue u → ¬ u ∉ view.program.valueIds := fun u hu hun =>
    hun (Program.mem_valueIds.2 hu)
  refine ⟨?_, .inr List.mem_cons_self, ?_, ?_, ?_, ?_, ?_, ?_⟩
  · exact view.program.nodup_valueIds
  · intro w hw
    rw [List.mem_singleton.1 hw]
    exact .refl
  · intro f hf
    cases hf
  · exact fun u hu hun => absurd hun (hfresh u hu)
  · exact fun u hu hun => absurd hun (hfresh u hu)
  · exact fun u hu hun => absurd hun (hfresh u hu)
  · exact fun f hf => absurd hf (OrdSet.not_mem_empty f)

end Whole

/-! ## Values in range -/

section Range

variable {p : Program} {view : View} {u v w : ValueId}

theorem Program.cast?_of_isSlot (h : p.isSlot v = true) : p.cast? v = none := by
  cases hcast : p.cast? v with
  | none => rfl
  | some c =>
    rcases cast?_eq_some_iff.1 hcast with hkind | hop
    · simp [isSlot, hkind] at h
    · obtain ⟨i, hkind, hiop⟩ := opcode?_eq_some_iff.1 hop
      simp [isSlot, hkind, hiop, Opcode.isAlloca] at h

theorem Program.exists_of_mem_returned {f : FunctionId} (hw : w ∈ p.returned f) :
    ∃ u, p.opcode? u = some (.ret (some w)) := by
  obtain ⟨u, -, hu⟩ := List.mem_filterMap.1 hw
  split at hu
  · rename_i value hop
    cases hu
    exact ⟨u, hop⟩
  · cases hu

theorem Program.Valid.hasValue_returned (h : p.Valid) {f : FunctionId} (hw : w ∈ p.returned f) :
    p.HasValue w := by
  obtain ⟨u, hop⟩ := exists_of_mem_returned hw
  exact h.hasValue_of_opcode? hop List.mem_cons_self

theorem Program.Valid.hasValue_heldIn (h : p.Valid) {slot : ValueId} (hw : w ∈ p.heldIn slot) :
    p.HasValue w := by
  unfold heldIn at hw
  split at hw
  · rcases List.mem_append.1 hw with hw | hw
    · obtain ⟨store, -, hstore⟩ := List.mem_filterMap.1 hw
      obtain ⟨⟨value, ptr⟩, hs, rfl⟩ := Option.map_eq_some_iff.1 hstore
      exact h.hasValue_of_opcode? (opcode?_of_store? hs) List.mem_cons_self
    · obtain ⟨g, hg, hinit⟩ := Option.bind_eq_some_iff.1 (Option.mem_toList.1 hw)
      obtain ⟨id, -, hid⟩ := Option.bind_eq_some_iff.1 hg
      exact (h.records.global hid).init w hinit
  · cases hw

theorem View.hasValue_origins (h : view.program.Valid) (hw : w ∈ view.origins v) :
    view.program.HasValue w := by
  unfold origins at hw
  dsimp only at hw
  split at hw
  · rename_i op operand hkind
    refine h.hasValue_operand (u := v) ?_
    rw [Program.operands_of_const hkind]
    split at hw
    · exact hw
    · cases hw
  · rename_i i hkind
    split at hw
    · rename_i op operand hop
      refine h.hasValue_operand (u := v) ?_
      rw [Program.operands_of_instr hkind, hop]
      split at hw
      · exact hw
      · cases hw
    · rename_i incoming hop
      refine h.hasValue_operand (u := v) ?_
      rw [Program.operands_of_instr hkind, hop]
      exact hw
    · rename_i condition ifTrue ifFalse hop
      refine h.hasValue_operand (u := v) ?_
      rw [Program.operands_of_instr hkind, hop]
      exact List.mem_cons_of_mem condition hw
    · exact h.hasValue_heldIn hw
    · rename_i call hop
      cases htarget : view.directTarget? call.callee with
      | none => simp [htarget] at hw
      | some f => exact h.hasValue_returned (by simpa [htarget] using hw)
    · cases hw
  · cases hw

theorem View.ComesFrom.hasValue (h : view.program.Valid) (hv : view.program.HasValue v)
    (hu : view.ComesFrom v u) : view.program.HasValue u := by
  induction hu with
  | refl => exact hv
  | tail _ hstep _ => exact hasValue_origins h hstep

end Range

/-! ## What is found -/

section Found

variable {view : View} {flow : Flow} {v : ValueId} {t : Trace}

theorem View.exists_unknown_of_trace? (h : view.trace? flow v = none) :
    ∃ u, view.ComesFrom v u ∧ view.brings flow u = .unknown := by
  unfold trace? at h
  split at h
  · rename_i hrun
    obtain ⟨fresh, u, todo, s, hinv, -, hstop⟩ := (Trace.keeps_inv view flow v).answered
      (Trace.inv_start view flow v) (Prod.ext rfl hrun)
    have hto := Trace.stepsTo_back view flow s u
    rw [show Trace.back view flow s u = _ from hstop] at hto
    exact ⟨u, hinv.waiting u List.mem_cons_self, hto⟩
  · cases h

theorem View.inv_of_trace? (h : view.trace? flow v = some t) :
    ∃ left s, Trace.Inv view flow v left [] s ∧ s.trace = t := by
  unfold trace? at h
  split at h
  · cases h
  · rename_i s hrun
    cases h
    exact ⟨_, s, (Trace.keeps_inv view flow v).exhausted (Trace.inv_start view flow v)
      (Prod.ext rfl hrun), rfl⟩

theorem View.mem_functions_of_trace? (h : view.trace? flow v = some t) {f : FunctionId}
    (hf : f ∈ t.functions) :
    ∃ u functions, view.ComesFrom v u ∧ view.brings flow u = .known functions ∧ f ∈ functions := by
  obtain ⟨left, s, hinv, rfl⟩ := inv_of_trace? h
  exact hinv.found f hf

theorem View.brings_le_of_trace? (hp : view.program.Valid) (hv : view.program.HasValue v)
    (h : view.trace? flow v = some t) {u : ValueId} (hu : view.ComesFrom v u) :
    view.brings flow u ≤ .known t.functions := by
  obtain ⟨left, s, hinv, rfl⟩ := inv_of_trace? h
  -- nothing waits any more, so what was looked at is closed under steps back
  have hseen : u ∉ left := by
    induction hu with
    | refl => exact hinv.begun.resolve_right List.not_mem_nil
    | tail hpath hstep ih =>
      exact (hinv.closed _ (ComesFrom.hasValue hp hv hpath) ih _ hstep).resolve_right
        List.not_mem_nil
  exact hinv.brought u (ComesFrom.hasValue hp hv hu) hseen

theorem View.mem_of_brings {u : ValueId} {functions : OrdSet FunctionId}
    (h : view.brings flow u = .known functions) {f : FunctionId} (hf : f ∈ functions) :
    (∃ g, (view.program.value? u).map Value.kind = some (.function g) ∧
      view.program.isIntrinsic g = false ∧ f = view.definitionOf g) ∨
    ∃ g j, (view.program.value? u).map Value.kind = some (.argument g j) ∧
      flow.params.get? (g, j) = some (.known functions) := by
  have hempty : functions ≠ ∅ := fun he => absurd hf (he ▸ OrdSet.not_mem_empty f)
  have hsight : ∀ inSight : Bool,
      (if inSight then ParamFlow.known ∅ else .unknown) ≠ .known functions := by
    intro inSight
    cases inSight with
    | false => exact fun hcon => by cases hcon
    | true => exact fun hcon => hempty (ParamFlow.known.inj hcon).symm
  cases hkind : (view.program.value? u).map Value.kind with
  | none => simp [brings, hkind] at h
  | some k =>
    cases k with
    | argument g j =>
      simp only [brings, hkind] at h
      cases hparam : flow.params.get? (g, j) with
      | none => simp [hparam] at h
      | some a =>
        simp only [hparam, Option.getD_some] at h
        exact .inr ⟨g, j, rfl, by rw [hparam, h]⟩
    | function g =>
      simp only [brings, hkind, ParamFlow.known.injEq] at h
      cases hint : view.program.isIntrinsic g with
      | true => exact absurd (by simpa [hint] using h.symm) hempty
      | false =>
        rw [hint] at h
        subst h
        exact .inl ⟨g, rfl, hint, by simpa using hf⟩
    | global g => simp [brings, hkind] at h
    | const c =>
      simp only [brings, hkind] at h
      split at h
      · exact absurd (ParamFlow.known.inj h).symm hempty
      · exact absurd (ParamFlow.known.inj h).symm hempty
      · exact absurd h (hsight _)
      · cases h
    | instr i =>
      simp only [brings, hkind] at h
      split at h
      · exact absurd h (hsight _)
      · exact absurd (ParamFlow.known.inj h).symm hempty
      · exact absurd (ParamFlow.known.inj h).symm hempty
      · exact absurd h (hsight _)
      · exact absurd h (hsight _)
      · cases h

theorem View.traced_le_iff (hp : view.program.Valid) (hv : view.program.HasValue v)
    {a : ParamFlow} :
    view.traced flow v ≤ a ↔ ∀ u, view.ComesFrom v u → view.brings flow u ≤ a := by
  cases htrace : view.trace? flow v with
  | none =>
    obtain ⟨u, hu, hbrings⟩ := exists_unknown_of_trace? htrace
    have htraced : view.traced flow v = .unknown := by rw [traced, htrace]; rfl
    rw [htraced]
    refine ⟨fun hle w _ => ParamFlow.le_trans (ParamFlow.le_unknown _) hle, fun hall => ?_⟩
    rw [← hbrings]
    exact hall u hu
  | some t =>
    have htraced : view.traced flow v = .known t.functions := by rw [traced, htrace]; rfl
    rw [htraced]
    refine ⟨fun hle u hu => ParamFlow.le_trans (brings_le_of_trace? hp hv htrace hu) hle,
      fun hall => ?_⟩
    cases a with
    | unknown => exact ParamFlow.le_unknown _
    | known s =>
      intro f hf
      obtain ⟨u, functions, hu, hbrings, hmem⟩ := mem_functions_of_trace? htrace hf
      have := hall u hu
      rw [hbrings] at this
      exact this f hmem

/-- A value is traced to a function exactly if everything that it may come from is in sight and
something of that brings the function. -/
theorem View.exists_trace?_iff (hp : view.program.Valid) (hv : view.program.HasValue v)
    {f : FunctionId} :
    (∃ trace, view.trace? flow v = some trace ∧ f ∈ trace.functions) ↔
      (∀ u, view.ComesFrom v u → view.brings flow u ≠ .unknown) ∧
      ∃ u functions, view.ComesFrom v u ∧ view.brings flow u = .known functions ∧
        f ∈ functions := by
  constructor
  · rintro ⟨trace, htrace, hf⟩
    refine ⟨fun u hu hunknown => ?_, mem_functions_of_trace? htrace hf⟩
    have hle := brings_le_of_trace? hp hv htrace hu
    rw [hunknown] at hle
    exact ParamFlow.not_unknown_le_known _ hle
  · rintro ⟨hknown, u, functions, hu, hbrings, hf⟩
    cases htrace : view.trace? flow v with
    | none =>
      obtain ⟨w, hw, hunknown⟩ := exists_unknown_of_trace? htrace
      exact absurd hunknown (hknown w hw)
    | some trace =>
      have hle := brings_le_of_trace? hp hv htrace hu
      rw [hbrings] at hle
      exact ⟨trace, rfl, hle f hf⟩

end Found

end CallTargets
