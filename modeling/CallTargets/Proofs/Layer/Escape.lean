import CallTargets.Proofs.Layer.Refine
import Mathlib

/-!
# Refinement and escapes

A refinement uses no layer that has escaped itself, but what it takes a layer to hold includes
what is held by layers that may get into it, and of these nothing is asked. So a step rests on no
escaped layer exactly if escapes follow the copies behind it (`dependents_trusted_iff`), which
no pass takes care of. Other than that, a run uses all layers that it may
(`Strategy.Running.refine_longest`).
-/

namespace CallTargets

open Relation

/-! ## Escapes and copies -/

namespace Facts

variable {facts : Facts TypeKey} {l : Layer TypeKey}

theorem dependents_trusted_iff (hl : facts.isEscaped l = false) :
    (∀ d ∈ facts.dependents l, facts.isEscaped d = false) ↔
      ∀ x y, ReflTransGen (Search.Leads facts.inflow) l x → y ∈ facts.inflow x →
        facts.isEscaped y = true → facts.isEscaped x = true := by
  constructor
  · intro htrusted x y hx hy hescaped
    rw [htrusted y (mem_dependents.2 (.tail' hx hy))] at hescaped
    cases hescaped
  · intro hfollow d hd
    rw [mem_dependents] at hd
    induction hd with
    | single hstep =>
      refine Bool.eq_false_iff.2 fun hescaped => ?_
      rw [hfollow l _ .refl hstep hescaped] at hl
      cases hl
    | tail hpath hstep ih =>
      refine Bool.eq_false_iff.2 fun hescaped => ?_
      rw [hfollow _ _ hpath.to_reflTransGen hstep hescaped] at ih
      cases ih

end Facts

/-- A step of a refinement uses no escaped layer, and what it leaves is held by the layer or by
one that may get into it. No such layer has escaped exactly if escapes follow the copies
behind the step. -/
theorem Strategy.Running.step_trusted_iff [Hasher] {strategy : Strategy} {p : Program}
    {a : Analysis} (ha : strategy.Running p a) (options : LayerOptions) (v : ValueId)
    {s : Layer TypeKey × OrdSet FunctionId} (hs : s ∈ (a.refine options v).1.steps) :
    a.gathered.facts.isEscaped s.1 = false ∧
      (∀ f ∈ s.2, f ∈ a.gathered.facts.targets s.1 ∨
        ∃ d ∈ a.gathered.facts.dependents s.1, f ∈ a.gathered.facts.targets d) ∧
      ((∀ d ∈ a.gathered.facts.dependents s.1, a.gathered.facts.isEscaped d = false) ↔
        ∀ x y, ReflTransGen (Search.Leads a.gathered.facts.inflow) s.1 x →
          y ∈ a.gathered.facts.inflow x → a.gathered.facts.isEscaped y = true →
          a.gathered.facts.isEscaped x = true) := by
  obtain ⟨-, used, huses⟩ := ha.recalls.refine options v
  rw [huses.steps] at hs
  obtain ⟨hused, hleft⟩ := Facts.mem_trail hs
  have hescaped := huses.escaped s.1 hused
  exact ⟨hescaped, fun f hf => Facts.mem_matched.1 (hleft f hf),
    Facts.dependents_trusted_iff hescaped⟩

namespace Strategy

open Sample in
/-- `main` stores what it is passed into `b`, and `f` as well, then copies from `b` to `a` and
calls from there. Anything may be passed, `h` for one. -/
def escapedSource : Program :=
  let field (source base : Nat) : Value :=
    instr 8 1 (.gep ⟨⟨source⟩, ⟨base⟩, [.const 0, .const 0]⟩)
  let function (name : String) (t : Nat) (params body : List ValueId) (address : Nat) : Function :=
    ⟨name, ⟨t⟩, 0, .external, params, [⟨0, body⟩], ⟨address⟩, false⟩
  let global (name : String) (t address : Nat) (init : Option ValueId) : Global :=
    ⟨name, 0, ⟨t⟩, ⟨address⟩, init, .external, false⟩
  Program.withUses
    { types := ⟨#[.void, .function 0 [] false, .pointer 1, .function 0 [2] false,
        .struct (some "A") [2] false, .struct (some "B") [2] false, .pointer 4, .pointer 5,
        .pointer 2, .pointer 3]⟩
      values := #[value 6 (.global 0), value 7 (.global 1), value 2 (.function 0),
        value 9 (.function 1), value 2 (.function 2), value 2 (.argument 1 0),
        field 5 1, instr 0 1 (.store 5 6), instr 0 1 (.store 2 6), instr 2 1 (.load 6),
        field 4 0, instr 0 1 (.store 9 10), instr 2 1 (.load 10),
        instr 0 1 (.call ⟨12, [], 1, false⟩), value 8 (.global 2)]
      functions := #[function "f" 1 [] [] 2,
        function "main" 3 [5] [6, 7, 8, 9, 10, 11, 12, 13] 3,
        function "h" 1 [] [] 4]
      globals := #[global "a" 4 0 none, global "b" 5 1 none, global "c" 2 14 (some 4)]
      modules := #[⟨0, "m", [0, 1, 2], [0, 1, 2], []⟩] }

theorem valid_escapedSource : escapedSource.Valid := Program.valid_withUses rfl

attribute [local instance] Hasher.digits

/-- The run on this program, with signatures refined by layers. -/
def escapeRun : Analysis := prepared ⟨.layers {}, true⟩ escapedSource

theorem escapeRun_eq : escapeRun = ready ⟨.layers {}, true⟩ escapedSource :=
  prepared_eq _ valid_escapedSource (List.cons_ne_nil _ _)

def fieldOfA : Layer TypeKey := ⟨⟨Hasher.hash "A,1"⟩, .nth 0⟩

def fieldOfB : Layer TypeKey := ⟨⟨Hasher.hash "B,1"⟩, .nth 0⟩

theorem facts_escapeRun : escapeRun.gathered.facts =
    (((({} : Facts TypeKey).markStored 0).confine fieldOfB 0).propagate fieldOfB
      ⟨⟨Hasher.hash "void()"⟩, .any⟩ |>.escape fieldOfB).propagate fieldOfA fieldOfB := by
  rw [escapeRun_eq]
  show ((gatheredOf ⟨.layers {}, true⟩ (View.ofProgram escapedSource).link none
    escapedSource.modules.toList).linked (View.ofProgram escapedSource).link).facts = _
  cbv

theorem candidates_escapeRun : escapeRun.candidates 13 = OrdSet.ofList [0, 2] := by
  rw [escapeRun_eq]
  show ((storeOf (View.ofProgram escapedSource).link escapedSource.modules.toList).linkCandidates
    (View.ofProgram escapedSource).link).withSignature
      ((View.ofProgram escapedSource).link.signature 1) = _
  cbv

theorem steps_escapeRun :
    (escapeRun.refine {} 13).1.steps = [(fieldOfA, OrdSet.ofList [0])] := by
  have hview : escapeRun.view = (View.ofProgram escapedSource).link := by
    rw [escapeRun_eq]
    rfl
  rw [Analysis.fst_refine, facts_escapeRun, candidates_escapeRun, hview,
    show escapeRun.kept = ∅ from kept_prepared _ _]
  cbv

theorem step_trusted_iff_fieldOfA :
    escapeRun.gathered.facts.isEscaped fieldOfA = false ∧
      (∀ f ∈ OrdSet.ofList [0], f ∈ escapeRun.gathered.facts.targets fieldOfA ∨
        ∃ d ∈ escapeRun.gathered.facts.dependents fieldOfA,
          f ∈ escapeRun.gathered.facts.targets d) ∧
      ((∀ d ∈ escapeRun.gathered.facts.dependents fieldOfA,
          escapeRun.gathered.facts.isEscaped d = false) ↔
        ∀ x y, ReflTransGen (Search.Leads escapeRun.gathered.facts.inflow) fieldOfA x →
          y ∈ escapeRun.gathered.facts.inflow x →
          escapeRun.gathered.facts.isEscaped y = true →
          escapeRun.gathered.facts.isEscaped x = true) :=
  Running.step_trusted_iff (p := escapedSource) (s := (fieldOfA, OrdSet.ofList [0])) .prepared {}
    13 (show _ ∈ (escapeRun.refine {} 13).1.steps from steps_escapeRun ▸ List.mem_cons_self)

/-- The call rests on the field of `a` and drops `h`, although the field of `b`, which has
escaped, is copied there. -/
theorem escaped_of_step_fieldOfA :
    escapedSource.Valid ∧ 2 ∈ escapeRun.candidates 13 ∧
      (fieldOfA, OrdSet.ofList [0]) ∈ (escapeRun.refine {} 13).1.steps ∧
      fieldOfB ∈ escapeRun.gathered.facts.dependents fieldOfA ∧
      escapeRun.gathered.facts.isEscaped fieldOfB = true := by
  have hinflow : escapeRun.gathered.facts.inflow fieldOfA = [fieldOfB] := by
    rw [facts_escapeRun]
    cbv
  have hescaped : escapeRun.gathered.facts.isEscaped fieldOfB = true := by
    rw [facts_escapeRun]
    cbv
  rw [candidates_escapeRun, steps_escapeRun, Facts.mem_dependents]
  refine ⟨valid_escapedSource, by simp, List.mem_cons_self, .single ?_, hescaped⟩
  rw [Search.Leads, hinflow]
  exact List.mem_cons_self

/-! ## The layers used -/

/-- Without candidates there is nothing to refine. Else the longest beginning of the layers behind
the callee that may be used is used, each step tells what its layer leaves, and the reason
given is one against the next layer. -/
theorem Running.refine_longest [Hasher] {strategy : Strategy} {p : Program} {a : Analysis}
    (ha : strategy.Running p a) (options : LayerOptions) {v : ValueId} {site : CallSite}
    (hsite : p.callSite? v = some site) :
    (a.refine options v).1.baseline = a.store.withSignature (a.view.signature site.call.type) ∧
      ((a.refine options v).1.baseline = ∅ → (a.refine options v).1.steps = [] ∧
        (a.refine options v).1.targets = ∅ ∧ (a.refine options v).1.stop = .noCandidates) ∧
      ((a.refine options v).1.baseline ≠ ∅ → ∃ used rest,
        (p.layersBehind p.valueIds site.call.callee).map a.view.layer = used ++ rest ∧
          (a.refine options v).1.Longest a.gathered.facts options.limit
            (a.view.typeKey site.call.type) used rest) := by
  have hprogram := ha.program
  have hcandidates : a.candidates v = a.store.withSignature (a.view.signature site.call.type) := by
    rw [Analysis.candidates, hprogram, hsite]
  have hbase := a.baseline_refine options v
  rw [hcandidates] at hbase
  refine ⟨hbase, fun hempty => ?_, fun hne => ?_⟩
  · rw [hbase] at hempty
    rw [Analysis.fst_refine, hprogram, hsite, hcandidates, Option.map_some,
      View.refine_of_isEmpty _ _ _ (by rw [hempty]; rfl)]
    exact ⟨rfl, hempty, rfl⟩
  · rw [hbase] at hne
    have hlongest := View.refine_longest_of_recalls ha.recalls a.view options.limit site.call hne
    rw [hprogram] at hlongest
    rw [Analysis.fst_refine, hprogram, hsite, hcandidates]
    exact hlongest.2

/-- The call of `main` is refined by the field of `a`. -/
theorem refine_longest_escapeRun :
    escapedSource.callSite? 13 = some ⟨13, 1, ⟨12, [], 1, false⟩, none⟩ ∧
      (escapeRun.refine {} 13).1.baseline ≠ ∅ ∧
      ∃ used rest, (escapedSource.layersBehind escapedSource.valueIds 12).map
          escapeRun.view.layer = used ++ rest ∧
        (escapeRun.refine {} 13).1.Longest escapeRun.gathered.facts 10
          (escapeRun.view.typeKey 1) used rest := by
  have hsite : escapedSource.callSite? 13 = some ⟨13, 1, ⟨12, [], 1, false⟩, none⟩ := by
    cbv
  obtain ⟨-, hempty, hlongest⟩ := Running.refine_longest (p := escapedSource) (a := escapeRun)
    .prepared {} hsite
  have hbaseline : (escapeRun.refine {} 13).1.baseline ≠ ∅ := by
    intro he
    have hsteps := (hempty he).1
    rw [steps_escapeRun] at hsteps
    cases hsteps
  exact ⟨hsite, hbaseline, hlongest hbaseline⟩

end Strategy

end CallTargets
