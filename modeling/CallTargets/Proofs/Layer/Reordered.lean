import CallTargets.Proofs.Layer.Contribution
import Mathlib

/-!
# Functions in another order

Two programs that differ in the order in which modules list their functions are compared
(`Program.Reordered`). Modules are asked for nothing but what they list, so programs, views and all
that is gathered in a function stay the same (`Program.withModules`). The facts about layers stay
the same as well, but for records that may come from a function that depends on others
(`Program.Wavers`), and calls are resolved alike wherever the facts agree
(`Resolution.Uses.mem_targets_iff`).

Main statement: `Config.agree_of_reordered`.
-/

namespace CallTargets

/-! ## Programs -/

/-- The same module with its functions in some order. -/
structure Module.Reordered (m m' : Module) : Prop where
  functions : m'.functions.Perm m.functions
  rest : m' = { m with functions := m'.functions }

namespace Module.Reordered

variable {ms ms' : List Module} {α : Type} (part : Module → List α)

theorem flatMap_eq (h : List.Forall₂ Module.Reordered ms ms')
    (hpart : ∀ m fs, part { m with functions := fs } = part m) :
    ms'.flatMap part = ms.flatMap part := by
  induction h with
  | nil => rfl
  | @cons m m' _ _ hm _ ih => rw [List.flatMap_cons, List.flatMap_cons, hm.rest, hpart, ih]

theorem flatMap_perm (h : List.Forall₂ Module.Reordered ms ms')
    (hpart : ∀ m m', Module.Reordered m m' → (part m').Perm (part m)) :
    (ms'.flatMap part).Perm (ms.flatMap part) := by
  induction h with
  | nil => exact .refl _
  | cons hm _ ih => exact (hpart _ _ hm).append ih

end Module.Reordered

namespace Program

variable {p p' : Program}

def withModules (p : Program) (ms : Array Module) : Program := { p with modules := ms }

/-- The same program with the functions of each module in some order. -/
structure Reordered (p p' : Program) : Prop where
  modules : List.Forall₂ Module.Reordered p.modules.toList p'.modules.toList
  rest : p' = p.withModules p'.modules

namespace Reordered

variable (h : p.Reordered p')
include h

theorem lists_iff {f : FunctionId} : p'.Lists f ↔ p.Lists f := by
  have hfunctions := Module.Reordered.flatMap_perm Module.functions h.modules
    fun _ _ hm => hm.functions
  exact List.mem_flatMap.symm.trans (hfunctions.mem_iff.trans List.mem_flatMap)

theorem exists_module {i : ModuleId} {m' : Module} (hm' : p'.module? i = some m') :
    ∃ m, p.module? i = some m ∧ m.Reordered m' := by
  obtain ⟨hi', rfl⟩ := Array.getElem?_eq_some_iff.1 hm'
  obtain ⟨hlength, hget⟩ := List.forall₂_iff_get.1 h.modules
  have hi : i.index < p.modules.size := Nat.lt_of_lt_of_eq hi' hlength.symm
  exact ⟨p.modules[i.index], Array.getElem?_eq_getElem hi, hget i.index hi hi'⟩

theorem valid (hp : p.Valid) : p'.Valid := by
  have hrecords := validate_eq_ok_iff.1 hp.checked
  have hhas : ∀ {i : ModuleId}, p.HasModule i → p'.HasModule i := fun hi =>
    Nat.lt_of_lt_of_eq hi h.modules.length_eq
  have hmodule : ∀ {i : ModuleId} {m : Module}, p'.module? i = some m →
      p.ModuleOk i.index m := by
    intro i m' hm'
    obtain ⟨m, hm, hsame⟩ := h.exists_module hm'
    have hok := hrecords.module hm
    rw [hsame.rest]
    exact { hok with functions := fun f hf => hok.functions f (hsame.functions.mem_iff.1 hf) }
  have hderived : (p.withModules p'.modules).withUses = p.withUses.withModules p'.modules := rfl
  rw [h.rest]
  refine ⟨validate_eq_ok_iff.2 ?_, by rw [hderived, hp.derived]⟩
  constructor
  · exact fun ht => hrecords.type ht
  · intro i m hm
    obtain ⟨hid, hfunctions, hglobals, hstructs⟩ := hmodule hm
    exact ⟨hid, hfunctions, hglobals, hstructs⟩
  · intro i f hf
    obtain ⟨htype, hmodule, hhasValue, hvalue, hparam, hblock⟩ := hrecords.function hf
    refine ⟨htype, hhas hmodule, hhasValue, hvalue, hparam, fun place b hb => ?_⟩
    exact ⟨(hblock place b hb).id, (hblock place b hb).instr⟩
  · intro i g hg
    obtain ⟨hmodule, htype, hhasValue, hvalue, hinit⟩ := hrecords.global hg
    exact ⟨hhas hmodule, htype, hhasValue, hvalue, hinit⟩
  · intro i v hv
    obtain ⟨htype, hkind, hoperand⟩ := hrecords.value hv
    exact ⟨htype, hkind, hoperand⟩

end Reordered

end Program

/-! ## What does not depend on modules -/

namespace Program

variable (p : Program) (ms : Array Module)

-- The bodies of both sides differ in nothing but modules, which they never ask for. `delta` lays
-- them open where recursion or a `match` hides them from `rfl`.
theorem strip_withModules : (p.withModules ms).strip = p.strip := by
  delta strip stripUpTo
  rfl

theorem baseFunction?_withModules : (p.withModules ms).baseFunction? = p.baseFunction? := by
  delta baseFunction?
  rw [strip_withModules]
  rfl

theorem isIndirect_withModules : (p.withModules ms).IsIndirect = p.IsIndirect := by
  delta IsIndirect Dispatch.isVirtual Dispatch.slotAddress?
  rw [baseFunction?_withModules]
  rfl

theorem layersBehind_withModules : (p.withModules ms).layersBehind = p.layersBehind := by
  with_unfolding_all rfl

end Program

namespace View

variable (view : View) (ms : Array Module)

def withModules : View := { view with program := view.program.withModules ms }

theorem program_withModules : (view.withModules ms).program = view.program.withModules ms := rfl

theorem link_of_reordered [Hasher] {p p' : Program} (h : p.Reordered p') :
    (ofProgram p').link = (ofProgram p).link.withModules p'.modules := by
  have hshapes : Shapes.ofProgram p' = Shapes.ofProgram p := by
    have hstructs := Module.Reordered.flatMap_eq Module.structs h.modules fun _ _ => rfl
    rw [Shapes.ofProgram, hstructs, h.rest]
    rfl
  rw [ofProgram, hshapes, h.rest]
  rfl

end View

namespace Gathered

variable (view : View) (ms : Array Module)

theorem recordChain_withModules : recordChain (view.withModules ms) = recordChain view := by
  with_unfolding_all rfl

theorem confineTarget_withModules : confineTarget (view.withModules ms) = confineTarget view := by
  delta confineTarget
  rw [recordChain_withModules]
  rfl

theorem confineInstr_withModules :
    confineInstr (view.withModules ms) none = confineInstr view none := by
  delta confineInstr confineStore confineArgs confineArg confineParam confineUse
  dsimp only
  rw [confineTarget_withModules, View.program_withModules, Program.baseFunction?_withModules,
    Program.strip_withModules]
  rfl

theorem propagateInstr_withModules :
    propagateInstr (view.withModules ms) = propagateInstr view := by
  delta propagateInstr propagateStore propagatePointer propagateTo escapeTo copy?
  dsimp only
  rw [recordChain_withModules, View.program_withModules, Program.baseFunction?_withModules,
    Program.strip_withModules]
  rfl

theorem modules_withModules (some : List Module) :
    modules (view.withModules ms) none some = modules view none some := by
  have hfunction : function (view.withModules ms) none = function view none := by
    funext g f
    rw [function, function, confineIn, confineIn, propagateIn, propagateIn,
      confineInstr_withModules, propagateInstr_withModules]
    rfl
  have hmodule : (module (view.withModules ms) none) = module view none := by
    funext g m
    rw [Gathered.module, Gathered.module, hfunction]
    rfl
  rw [modules, modules, hmodule]

end Gathered

/-! ## Resolutions from the same facts -/

namespace Facts

variable {a b : Facts TypeKey} {max : Nat} {type : TypeKey} {base base' : OrdSet FunctionId}
  {used : List (Layer TypeKey)} {f : FunctionId}

namespace Agree

variable (h : a.Agree b) (hbase : ∀ f, f ∈ base ↔ f ∈ base')
include h

theorem symm : b.Agree a := fun r => (h r).symm

include hbase

theorem mem_left : f ∈ a.left base used ↔ f ∈ b.left base' used := by
  simp only [Facts.mem_left, hbase, h.mem_matched]

theorem usable (husable : a.Usable max type base used) : b.Usable max type base' used where
  limit := husable.limit
  call hcall := husable.call (h.isCapped ▸ hcall)
  escaped l hl := h.isEscaped ▸ husable.escaped l hl
  capped l hl := h.isCapped ▸ husable.capped l hl
  left front hfront hempty := by
    refine husable.left front hfront (OrdSet.eq_empty_iff.2 fun f hf => ?_)
    exact OrdSet.eq_empty_iff.1 hempty f ((h.mem_left hbase).1 hf)

end Agree

end Facts

theorem Resolution.Uses.mem_targets_iff {a b : Facts TypeKey} {max : Nat} {type : TypeKey}
    {ls used used' : List (Layer TypeKey)} {r r' : Resolution} (h : r.Uses a max type ls used)
    (h' : r'.Uses b max type ls used') (hagree : a.Agree b)
    (hbase : ∀ f, f ∈ r.baseline ↔ f ∈ r'.baseline) (f : FunctionId) :
    f ∈ r.targets ↔ f ∈ r'.targets := by
  have hle : used <+: used' := h.usable.elim (fun hnil => hnil ▸ List.nil_prefix) fun husable =>
    h'.longest used h.begins (hagree.usable hbase husable)
  have hge : used' <+: used := h'.usable.elim (fun hnil => hnil ▸ List.nil_prefix) fun husable =>
    h.longest used' h'.begins (hagree.symm.usable (fun f => (hbase f).symm) husable)
  rw [h.targets, h'.targets, hle.eq_of_length_le hge.length_le]
  exact hagree.mem_left hbase

/-! ## Whole runs -/

/-- The record may come from a function whose contribution depends on what others recover. -/
def Program.Wavers [Hasher] (p : Program) (r : Record TypeKey) : Prop :=
  ∃ r', Gathered.Wavers (View.ofProgram p).link
      (p.modules.toList.flatMap (View.ofProgram p).link.definedIn) r' ∧
    r'.mapFunctions (View.ofProgram p).link.definitionOf = r

namespace Strategy

variable {strategy : Strategy} {p p' : Program} {r : Record TypeKey} {options : LayerOptions}

theorem has_prepared [Hasher] (hp : p.Valid) (hstrategy : strategy.indirect.options? = some options)
    (hoptions : options.dataflow = false) :
    (strategy.prepared p).gathered.facts.Has r ↔
      ∃ r', (Gathered.modules (View.ofProgram p).link none p.modules.toList).facts.Has r' ∧
        r'.mapFunctions (View.ofProgram p).link.definitionOf = r := by
  by_cases hne : p.modules.toList = []
  · rw [strategy.prepared_of_nil hne, hne]
    refine iff_of_false Facts.not_has_empty ?_
    rintro ⟨r', hr', -⟩
    exact Facts.not_has_empty hr'
  · rw [strategy.prepared_eq hp hne, ← Facts.has_mapFunctions]
    simp [ready, gatheredOf, flow?, hstrategy, hoptions, Gathered.linked, Gathered.record,
      Gathered.modules]

end Strategy

namespace Program.Reordered

variable {p p' : Program} (h : p.Reordered p')
include h

theorem callSite?_eq : p'.callSite? = p.callSite? := by
  rw [h.rest]
  rfl

theorem isIndirect_eq : p'.IsIndirect = p.IsIndirect := by
  rw [h.rest, isIndirect_withModules]

theorem layersBehind_eq : p'.layersBehind p'.valueIds = p.layersBehind p.valueIds := by
  rw [h.rest, layersBehind_withModules]
  rfl

theorem mem_definedIn (view : View) (f : FunctionId) :
    f ∈ p'.modules.toList.flatMap view.definedIn ↔ f ∈ p.modules.toList.flatMap view.definedIn :=
  (Module.Reordered.flatMap_perm view.definedIn h.modules
    fun _ _ hm => hm.functions.filter _).mem_iff

theorem has_modules_iff [Hasher] (r : Record TypeKey) :
    ((Gathered.modules (View.ofProgram p).link none p.modules.toList).facts.Has r ↔
      (Gathered.modules (View.ofProgram p').link none p'.modules.toList).facts.Has r) ∨
      Gathered.Wavers (View.ofProgram p).link
        (p.modules.toList.flatMap (View.ofProgram p).link.definedIn) r := by
  have hsame := h.mem_definedIn (View.ofProgram p).link
  have hglobals := Module.Reordered.flatMap_eq Module.globals h.modules fun _ _ => rfl
  rw [View.link_of_reordered h, Gathered.modules_withModules,
    (Gathered.Collected.modules (View.ofProgram p).link p.modules.toList).has,
    (Gathered.Collected.modules (View.ofProgram p).link p'.modules.toList).has, hglobals]
  by_cases hwavers : Gathered.Wavers (View.ofProgram p).link
      (p.modules.toList.flatMap (View.ofProgram p).link.definedIn) r
  · exact .inr hwavers
  · refine .inl (or_congr_right ⟨fun hr => ?_, fun hr => ?_⟩)
    · exact (hr.reorder (fun _ => Iff.rfl) hsame).resolve_right hwavers
    · exact (hr.reorder hsame fun _ => Iff.rfl).resolve_right hwavers

end Program.Reordered

namespace Strategy

variable [Hasher] {strategy : Strategy} {p p' : Program} {options : LayerOptions}

theorem has_prepared_of_reordered (hp : p.Valid) (h : p.Reordered p')
    (hstrategy : strategy.indirect.options? = some options) (hoptions : options.dataflow = false)
    (r : Record TypeKey) :
    ((strategy.prepared p).gathered.facts.Has r ↔ (strategy.prepared p').gathered.facts.Has r) ∨
      p.Wavers r := by
  have hlink : (View.ofProgram p').link.definitionOf = (View.ofProgram p).link.definitionOf := by
    rw [View.link_of_reordered h]
    rfl
  by_cases hwavers : p.Wavers r
  · exact .inr hwavers
  · rw [has_prepared hp hstrategy hoptions, has_prepared (h.valid hp) hstrategy hoptions, hlink]
    refine .inl (exists_congr fun r' => and_congr_left fun hr' => ?_)
    exact (h.has_modules_iff r').resolve_right fun hr => hwavers ⟨r', hr, hr'⟩

theorem mem_withSignature_of_reordered (hp : p.Valid) (h : p.Reordered p') (key : SignatureKey)
    (f : FunctionId) :
    f ∈ (strategy.prepared p').store.withSignature key ↔
      f ∈ (strategy.prepared p).store.withSignature key := by
  obtain ⟨hindex, htaken⟩ := strategy.isIndex_preparedIn hp (.refl p.moduleIds)
  obtain ⟨hindex', htaken'⟩ := strategy.isIndex_preparedIn (h.valid hp) (.refl p'.moduleIds)
  have hoffers : ∀ g, p'.Offers g ↔ p.Offers g := by
    intro g
    have hfunction : p'.function? g = p.function? g := by
      rw [h.rest]
      rfl
    have hlisted := h.lists_iff (f := g)
    exact ⟨fun hg => ⟨hlisted.1 hg.listed, hfunction ▸ hg.function⟩,
      fun hg => ⟨hlisted.2 hg.listed, hfunction.symm ▸ hg.function⟩⟩
  rw [preparedIn] at hindex htaken hindex' htaken'
  rw [prepared, prepared, hindex.bucket, hindex'.bucket, htaken, htaken',
    View.link_of_reordered h]
  simp only [hoffers]
  rfl

theorem answer_of_isIndirect {site : CallSite} (hstrategy : strategy.indirect = .layers options)
    (hsite : p.IsIndirect site) :
    strategy.answer p site = ((strategy.prepared p).refine options site.id).1.targets := by
  rw [answer, hsite.1]
  simp only [hsite.2, Bool.false_eq_true, if_false]
  rw [hstrategy]
  rfl

theorem view_prepared_of_reordered (strategy : Strategy) (hp : p.Valid) (h : p.Reordered p')
    {f : FunctionId} (hf : p.Lists f) :
    (strategy.prepared p').view = (strategy.prepared p).view.withModules p'.modules := by
  have hview : ∀ {p : Program}, p.Valid → p.Lists f →
      (strategy.prepared p).view = (View.ofProgram p).link := by
    rintro p hp ⟨m, hm, -⟩
    rw [strategy.prepared_eq hp (List.ne_nil_of_mem hm)]
    rfl
  rw [hview hp hf, hview (h.valid hp) (h.lists_iff.2 hf), View.link_of_reordered h]

theorem mem_answer_of_reordered (hp : p.Valid) (h : p.Reordered p')
    (hstrategy : strategy.indirect = .layers options)
    (hagree : (strategy.prepared p).gathered.facts.Agree (strategy.prepared p').gathered.facts)
    {f : FunctionId} {site : CallSite} (hf : p.Lists f) (hsite : site ∈ p.callSites f)
    (hindirect : p.IsIndirect site) (g : FunctionId) :
    g ∈ strategy.answer p site ↔ g ∈ strategy.answer p' site := by
  have hcall := Program.callSite?_of_mem_callSites hsite
  have hrun : strategy.Running p (strategy.prepared p) := .prepared
  have hrun' : strategy.Running p' (strategy.prepared p') := .prepared
  have hview := strategy.view_prepared_of_reordered hp h hf
  obtain ⟨-, used, huses⟩ := hrun.recalls.refine options site.id
  obtain ⟨-, used', huses'⟩ := hrun'.recalls.refine options site.id
  rw [Analysis.calledType, Analysis.layersBehind, hrun.program] at huses
  rw [Analysis.calledType, Analysis.layersBehind, hrun'.program, h.callSite?_eq,
    h.layersBehind_eq, hview] at huses'
  rw [answer_of_isIndirect hstrategy hindirect,
    answer_of_isIndirect hstrategy (h.isIndirect_eq ▸ hindirect)]
  refine huses.mem_targets_iff huses' hagree (fun f => ?_) g
  rw [Analysis.baseline_refine, Analysis.baseline_refine, Analysis.candidates,
    Analysis.candidates, hrun.program, hrun'.program, h.callSite?_eq, hcall, hview]
  exact (mem_withSignature_of_reordered hp h _ f).symm

end Strategy

/-- The order in which modules list their functions makes no difference to what is known about
layers, but for records of functions that ask for memory whose type another function recovers. If
it makes no difference at all, indirect calls have the same targets. -/
theorem Config.agree_of_reordered [Hasher] {p p' : Program} (hp : p.Valid) (h : p.Reordered p')
    {c : Config} (hc : c.kind = .multilayer) {a b : Analysis} (ha : c.strategy.Running p a)
    (hb : c.strategy.Running p' b) :
    (∀ r, (a.gathered.facts.Has r ↔ b.gathered.facts.Has r) ∨ p.Wavers r) ∧
      (a.gathered.facts.Agree b.gathered.facts → ∀ f site, p.Lists f → site ∈ p.callSites f →
        p.IsIndirect site → ∀ g, (c.results p).callees.Relates site.id g ↔
          (c.results p').callees.Relates site.id g) := by
  have hstrategy : c.strategy.indirect = .layers { max := c.maxTypeLayer } := by
    rw [strategy, hc]
    rfl
  rw [ha.same.gathered, hb.same.gathered]
  refine ⟨Strategy.has_prepared_of_reordered hp h (by rw [hstrategy]; rfl) rfl, ?_⟩
  intro hagree f site hf hsite hindirect g
  have hsite' : site ∈ p'.callSites f := by
    rw [h.rest]
    exact hsite
  rw [OrdMap.Relates, OrdMap.Relates, c.get?_results hp hf hsite,
    c.get?_results (h.valid hp) (h.lists_iff.2 hf) hsite']
  exact Strategy.mem_answer_of_reordered hp h hstrategy hagree hf hsite hindirect g

namespace Config

open Sample in
/-- `main` passes `h` to `set`, which stores it into memory that it takes for a struct `s`. Then
`main` stores `k` into such a struct, copies it to another one and calls it from there. -/
def handedOn (order : List FunctionId) : Program :=
  let field (source base : Nat) : Value :=
    instr 5 0 (.gep ⟨⟨source⟩, ⟨base⟩, [.const 0, .const 0]⟩)
  let function (name : String) (t : Nat) (params : List ValueId) (blocks : List Block)
      (address : Nat) : Function := ⟨name, ⟨t⟩, 0, .external, params, blocks, ⟨address⟩, false⟩
  let global (name : String) (t address : Nat) : Global :=
    ⟨name, 0, ⟨t⟩, ⟨address⟩, none, .external, false⟩
  Program.withUses
    { types := ⟨#[.void, .function 0 [] false, .pointer 1,
        .struct (some "s.anon") [2] false, .pointer 3, .pointer 2, .integer 8, .pointer 6,
        .function 7 [] false, .pointer 8, .function 0 [2] false, .pointer 10,
        .struct (some "a.anon") [2] false, .pointer 12]⟩
      values := #[value 4 (.global 0), value 13 (.global 1), value 2 (.function 0),
        value 11 (.function 1), value 2 (.function 2), value 2 (.function 3),
        value 9 (.function 4), value 2 (.argument 1 0),
        instr 0 0 (.call ⟨3, [4], 10, false⟩), field 3 0, instr 0 0 (.store 5 9),
        instr 2 0 (.load 9), field 12 1, instr 0 0 (.store 11 12), instr 2 0 (.load 12),
        instr 0 0 (.call ⟨14, [], 1, false⟩), instr 7 1 (.call ⟨6, [], 8, false⟩),
        instr 4 1 (.cast .bitCast 16), instr 5 1 (.cast .bitCast 16),
        instr 0 1 (.store 7 18)]
      functions := #[
        function "main" 1 [] [⟨0, [8, 9, 10, 11, 12, 13, 14, 15]⟩] 2,
        function "set" 10 [7] [⟨0, [16, 17, 18, 19]⟩] 3,
        function "h" 1 [] [⟨0, []⟩] 4, function "k" 1 [] [⟨0, []⟩] 5,
        function "alloc" 8 [] [] 6]
      globals := #[global "s" 3 0, global "a" 12 1]
      modules := #[⟨0, "m", order, [0, 1], []⟩] }

def mainFirst : Program := handedOn [0, 1, 2, 3, 4]

def setFirst : Program := handedOn [1, 0, 2, 3, 4]

theorem valid_mainFirst : mainFirst.Valid := Program.valid_withUses rfl

theorem reordered_mainFirst : mainFirst.Reordered setFirst where
  modules := .cons ⟨.swap _ _ _, rfl⟩ .nil
  rest := rfl

attribute [local instance] Hasher.digits

/-- The run on such a program, with signatures refined by layers. -/
def handedRun (p : Program) : Analysis := (mk .multilayer 10 false).strategy.prepared p

def handedField : Layer TypeKey := ⟨⟨Hasher.hash "s.anon,1"⟩, .nth 0⟩

def handedCall : CallSite := ⟨15, 0, ⟨14, [], 1, false⟩, none⟩

/-- What is held by the field, and what the call may reach. -/
def handedTargets (p : Program) : OrdSet FunctionId × OrdSet FunctionId :=
  let view := (View.ofProgram p).link
  let facts := ((Gathered.modules view none p.modules.toList).linked view).facts
  let store := (Strategy.storeOf view p.modules.toList).linkCandidates view
  (facts.held handedField, (view.refine facts 10 ∅
    (store.withSignature (view.signature handedCall.call.type)) (some handedCall.call)).1.targets)

theorem handedTargets_mainFirst :
    handedTargets mainFirst = (OrdSet.ofList [3], OrdSet.ofList [3]) := by
  cbv

theorem handedTargets_setFirst :
    handedTargets setFirst = (OrdSet.ofList [2, 3], OrdSet.ofList [2, 3]) := by
  cbv

theorem handedTargets_eq {order : List FunctionId} (hp : (handedOn order).Valid)
    (hmain : 0 ∈ order) :
    (handedRun (handedOn order)).gathered.facts.held handedField =
        (handedTargets (handedOn order)).1 ∧
      ((mk .multilayer 10 false).results (handedOn order)).callees.get? 15 =
        some (handedTargets (handedOn order)).2 := by
  have hready : handedRun (handedOn order) =
      (mk .multilayer 10 false).strategy.ready (handedOn order) :=
    Strategy.prepared_eq _ hp (List.cons_ne_nil _ _)
  have hlists : (handedOn order).Lists 0 := ⟨_, List.mem_cons_self, hmain⟩
  have hsite : handedCall ∈ (handedOn order).callSites 0 := by
    cbv
    exact .tail _ (.head _)
  have hcall : (handedRun (handedOn order)).view.program.callSite? 15 = some handedCall := by
    rw [hready]
    exact Program.callSite?_of_mem_callSites hsite
  have hanswer : (mk .multilayer 10 false).strategy.answer (handedOn order) handedCall =
      ((handedRun (handedOn order)).refine { max := 10 } 15).1.targets :=
    Strategy.answer_of_isIndirect rfl ⟨rfl, rfl⟩
  refine ⟨by rw [hready]; rfl, (get?_results hp _ hlists hsite).trans (congrArg some ?_)⟩
  rw [hanswer, Analysis.fst_refine, Analysis.candidates, hcall,
    show (handedRun (handedOn order)).kept = ∅ from Strategy.kept_prepared _ _, hready]
  rfl

theorem held_mainFirst : 2 ∉ (handedRun mainFirst).gathered.facts.held handedField ∧
    ¬ ((mk .multilayer 10 false).results mainFirst).callees.Relates 15 2 := by
  obtain ⟨hheld, hcallees⟩ := handedTargets_eq valid_mainFirst (by decide)
  have htargets := handedTargets_mainFirst
  rw [mainFirst] at htargets ⊢
  rw [hheld, OrdMap.Relates, hcallees, htargets]
  decide

theorem held_setFirst : 2 ∈ (handedRun setFirst).gathered.facts.held handedField ∧
    ((mk .multilayer 10 false).results setFirst).callees.Relates 15 2 := by
  obtain ⟨hheld, hcallees⟩ := handedTargets_eq (reordered_mainFirst.valid valid_mainFirst)
    (by decide)
  have htargets := handedTargets_setFirst
  rw [setFirst] at htargets ⊢
  rw [hheld, OrdMap.Relates, hcallees, htargets]
  decide

/-- The record that makes the difference is one that wavers. -/
theorem agree_of_reordered_handedOn :
    mainFirst.Valid ∧ mainFirst.Reordered setFirst ∧ mainFirst.Wavers (.held handedField 2) := by
  have hruns : (mk .multilayer 10 false).strategy.Running mainFirst (handedRun mainFirst) ∧
      (mk .multilayer 10 false).strategy.Running setFirst (handedRun setFirst) :=
    ⟨.prepared, .prepared⟩
  obtain ⟨hrecords, -⟩ := agree_of_reordered valid_mainFirst reordered_mainFirst rfl hruns.1 hruns.2
  refine ⟨valid_mainFirst, reordered_mainFirst, (hrecords _).resolve_left fun hsame => ?_⟩
  exact held_mainFirst.1 (hsame.2 held_setFirst.1)

/-- When `main` comes first, it is not known yet what `set` takes its memory for, and the field does
not hold `h`. So the call cannot reach it, as it can when `set` comes first. -/
theorem not_agree_handedOn :
    mainFirst.Valid ∧ mainFirst.Reordered setFirst ∧
      ¬ (handedRun mainFirst).gathered.facts.Agree (handedRun setFirst).gathered.facts ∧
      ¬ ((mk .multilayer 10 false).results mainFirst).callees.Relates 15 2 ∧
      ((mk .multilayer 10 false).results setFirst).callees.Relates 15 2 :=
  ⟨valid_mainFirst, reordered_mainFirst, fun hagree =>
    held_mainFirst.1 ((hagree (.held handedField 2)).2 held_setFirst.1), held_mainFirst.2,
    held_setFirst.2⟩

end Config

end CallTargets
