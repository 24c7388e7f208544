import CallTargets.Proofs.Analysis.Results

/-!
# Overrides

A virtual call of an object whose class is known reaches what is in the selected slot of that
class and of the classes that inherit from it, over any number of steps, cycles included
(`mem_descendants`). The search for these classes finds all of them because inheritance is only
ever recorded between classes that are known (`Hierarchy.Closed`). Of the functions
found, a call reaches those with its signature that are not pure virtual and that have
the name of the method that the class itself has in the slot, as far as names can be
read (`reaches_targets`). A call of an object of an unknown class reaches what is in the slot
of any class. After a run this is what each such call of a listed function is recorded
with (`selects_callees`).
-/

namespace CallTargets

open Relation

/-! ## Inheritance -/

namespace Hierarchy

variable {p : Program} {h h' : Hierarchy} {c d base : String}

/-- A class inherits from another one directly. -/
def Derives (h : Hierarchy) (base derived : String) : Prop := (derived, base) ∈ h.edges

/-- Inheritance is between classes that are known. -/
def Closed (h : Hierarchy) : Prop := ∀ e ∈ h.edges, e.1 ∈ h.classes ∧ e.2 ∈ h.classes

theorem mem_classes_addClass :
    d ∈ (h.addClass c).classes ↔ d ∈ h.classes ∨ d = c ∧ c.isEmpty = false := by
  unfold addClass
  split
  · rename_i hskip
    refine ⟨.inl, ?_⟩
    rintro (hd | ⟨rfl, hempty⟩)
    · exact hd
    · simpa [hempty] using hskip
  · rename_i hnew
    have hempty : c.isEmpty = false := by
      simp only [Bool.or_eq_true, not_or, Bool.not_eq_true] at hnew
      exact hnew.1
    have hinsert : d ∈ h.classes.insert c ↔ d ∈ h.classes ∨ d = c ∧ c.isEmpty = false := by
      rw [OrdSet.mem_insert, hempty]
      simp
    dsimp only
    split
    · exact hinsert
    · exact hinsert

theorem mem_derivedOf : d ∈ h.derivedOf c ↔ h.Derives c d := by
  simp only [derivedOf, Derives, List.mem_map, List.mem_filter, decide_eq_true_eq]
  constructor
  · rintro ⟨⟨d', c'⟩, ⟨hmem, rfl⟩, rfl⟩
    exact hmem
  · exact fun hmem => ⟨(d, c), ⟨hmem, rfl⟩, rfl⟩

namespace Closed

variable (hh : h.Closed)
include hh

theorem addClass (c : String) : (h.addClass c).Closed := by
  intro e he
  rw [edges_addClass] at he
  exact (hh e he).imp (fun h => mem_classes_addClass.2 (.inl h))
    fun h => mem_classes_addClass.2 (.inl h)

theorem inherit (c base : String) : (h.inherit c base).2.Closed := by
  unfold Hierarchy.inherit
  split
  · rename_i hcan
    simp only [canInherit, Bool.and_eq_true, Bool.not_eq_true'] at hcan
    intro e he
    rcases OrdSet.mem_insert.1 he with he | rfl
    · exact (hh.addClass c).addClass base e he
    · exact ⟨mem_classes_addClass.2 (.inl (mem_classes_addClass.2 (.inr ⟨rfl, hcan.1.1⟩))),
        mem_classes_addClass.2 (.inr ⟨rfl, hcan.1.2⟩)⟩
  · exact hh

theorem addTable (c : String) (slots : List FunctionId) : (h.addTable c slots).Closed := by
  unfold Hierarchy.addTable
  split
  · exact hh
  · exact hh.addClass c

theorem step (hstep : Step p h h') : h'.Closed := by
  cases hstep with
  | addTrait => exact hh
  | addClass c => exact hh.addClass c
  | inherit derived base => exact hh.inherit derived base
  | setVtable c symbol => exact hh.addClass c
  | addTable c hslots => exact hh.addTable c _

theorem steps (hsteps : ReflTransGen (Step p) h h') : h'.Closed := by
  induction hsteps with
  | refl => exact hh
  | tail _ hstep ih => exact ih.step hstep

theorem mem_descendants : d ∈ h.descendants c ↔ ReflTransGen h.Derives c d := by
  have hfresh : ∀ v, ∀ w ∈ (h.derivedOf v).reverse,
      w ∈ (OrdSet.ofList (c :: h.classes.toList)).toList := by
    intro v w hw
    have hedge := hh (w, v) (mem_derivedOf.1 (List.mem_reverse.1 hw))
    exact OrdSet.mem_ofList.2 (List.mem_cons_of_mem c hedge.1)
  obtain ⟨seen, hdescendants, hseen⟩ : ∃ seen : List String,
      h.descendants c = seen.foldl OrdSet.insert ∅ ∧
        ∀ v, v ∈ seen ↔ ReflTransGen (Search.Leads fun c => (h.derivedOf c).reverse) c v :=
    Search.explore_eq_foldl (fun _ _ => rfl) (fun _ _ => rfl) ∅ (OrdSet.ofList _).nodup
      (OrdSet.mem_ofList.2 List.mem_cons_self) hfresh
  have hleads : (Search.Leads fun c => (h.derivedOf c).reverse) = h.Derives := by
    funext v w
    exact propext (List.mem_reverse.trans mem_derivedOf)
  rw [hdescendants, ← hleads, ← hseen]
  exact OrdSet.mem_ofList

end Closed

end Hierarchy

theorem Strategy.closed_hierarchyOf {p : Program} (hp : p.Valid) (strategy : Strategy)
    (ms : List Module) : (strategy.hierarchyOf p ms).Closed := by
  have hempty : Hierarchy.Closed {} := fun e he => absurd he (OrdSet.not_mem_empty e)
  unfold hierarchyOf
  split
  · exact List.foldlRecOn _ _ hempty fun h hh m _ => hh.steps (Hierarchy.steps_module h hp m)
  · exact hempty

/-! ## Slots -/

namespace Dispatch

variable {p : Program} {view : View} {h : Hierarchy} {call : Call} {c : String} {k : Nat}
  {this : ValueId} {f : FunctionId}

/-- The first method that the tables of a class have in a slot. Pure virtual ones and names
that cannot be read are passed over. -/
def IsFirstMethod (p : Program) (h : Hierarchy) (c : String) (k : Nat) (method : Symbol.Method) :
    Prop :=
  ∃ before table after g, h.tablesOf c = before ++ table :: after ∧ table[k]? = some g ∧
    p.functionName g ≠ Symbol.pureVirtual ∧
    Symbol.Method.ofSymbol? (p.functionName g) = some method ∧
    ∀ table' ∈ before, ∀ g', table'[k]? = some g' →
      p.functionName g' = Symbol.pureVirtual ∨
        Symbol.Method.ofSymbol? (p.functionName g') = none

def SameName (m m' : Symbol.Method) : Prop :=
  m'.name = m.name ∨ Text.startsWith m.name "~" = true ∧ Text.startsWith m'.name "~" = true

/-- The function is the definition of one in a slot of some classes that a call may reach: it is
not pure virtual, its signature agrees with that of the call and, as far as its name can be read,
its name with that of what is expected. -/
def Selects (view : View) (h : Hierarchy) (k : Nat) (agrees : FunctionId → Prop)
    (classes : String → Prop) (expected : Symbol.Method → Prop) (f : FunctionId) : Prop :=
  ∃ c table g, classes c ∧ table ∈ h.tablesOf c ∧ table[k]? = some g ∧
    view.program.functionName g ≠ Symbol.pureVirtual ∧
    agrees g ∧
    (∀ m m', expected m → Symbol.Method.ofSymbol? (view.program.functionName g) = some m' →
      SameName m m') ∧
    view.definitionOf g = f

/-- What a call that selects a slot of an object reaches: what is selected from the class of the
object and from all that inherit from it, or from all classes if its class is not known. -/
structure Reaches (view : View) (h : Hierarchy) (this : ValueId) (k : Nat)
    (agrees : FunctionId → Prop) (fs : OrdSet FunctionId) : Prop where
  known : ∀ c, staticClass? view.program this = some c → c ∈ h.classes → ∀ f, f ∈ fs ↔
    Selects view h k agrees (ReflTransGen h.Derives c) (IsFirstMethod view.program h c k) f
  unknown : (∀ c, staticClass? view.program this = some c → c ∉ h.classes) → ∀ f, f ∈ fs ↔
    Selects view h k agrees (· ∈ h.classes) (fun _ => False) f

theorem expected?_eq_some_iff {method : Symbol.Method} :
    expected? p h c k = some method ↔ IsFirstMethod p h c k method := by
  have hread : expected? p h c k = (h.tablesOf c).findSome? fun table => table[k]?.bind fun g =>
      if p.functionName g = Symbol.pureVirtual then none
      else Symbol.Method.ofSymbol? (p.functionName g) := by
    rw [expected?, ← List.head?_filterMap, List.filterMap_map, List.filterMap_filterMap,
      List.head?_filterMap]
    rfl
  have hnone : ∀ table : List FunctionId, (table[k]?.bind fun g =>
      if p.functionName g = Symbol.pureVirtual then none
      else Symbol.Method.ofSymbol? (p.functionName g)) = none ↔
        ∀ g, table[k]? = some g → p.functionName g = Symbol.pureVirtual ∨
          Symbol.Method.ofSymbol? (p.functionName g) = none := by
    intro table
    simp only [Option.bind_eq_none_iff, ite_eq_left_iff]
    exact forall_congr' fun g => imp_congr_right fun _ => or_iff_not_imp_left.symm
  rw [hread, List.findSome?_eq_some_iff]
  constructor
  · rintro ⟨before, table, after, htables, hfound, hbefore⟩
    obtain ⟨g, hg, hfound⟩ := Option.bind_eq_some_iff.1 hfound
    split at hfound
    · cases hfound
    · rename_i hname
      exact ⟨before, table, after, g, htables, hg, hname, hfound, fun table' htable' =>
        (hnone table').1 (hbefore table' htable')⟩
  · rintro ⟨before, table, after, g, htables, hg, hname, hfound, hbefore⟩
    refine ⟨before, table, after, htables, ?_, fun table' htable' =>
      (hnone table').2 (hbefore table' htable')⟩
    rw [hg, Option.bind_some, if_neg hname, hfound]

theorem isSameMethod_iff {method : Symbol.Method} {name : String} :
    isSameMethod method name = true ↔
      ∀ m', Symbol.Method.ofSymbol? name = some m' → SameName method m' := by
  unfold isSameMethod SameName
  cases Symbol.Method.ofSymbol? name with
  | none => simp
  | some m' =>
    simp only [Option.some.injEq, forall_eq']
    split
    · rename_i hdestructor
      refine ⟨fun hname => .inr ⟨hdestructor, hname⟩, ?_⟩
      rintro (hname | hname)
      · rw [hname]
        exact hdestructor
      · exact hname.2
    · rename_i hother
      refine ⟨fun hname => .inl (of_decide_eq_true hname), ?_⟩
      rintro (hname | hname)
      · exact decide_eq_true hname
      · exact absurd hname.1 hother

theorem mem_found_iff {classes : OrdSet String} {expected : Option Symbol.Method} :
    f ∈ OrdSet.ofList (((candidates h classes (some k)).filter
        (isTarget view call expected)).map view.definitionOf) ↔
      Selects view h k (view.signatureOf · = view.signature call.type) (· ∈ classes)
        (expected = some ·) f := by
  have htarget : ∀ g, isTarget view call expected g = true ↔
      view.program.functionName g ≠ Symbol.pureVirtual ∧
        view.signatureOf g = view.signature call.type ∧
        ∀ m m', expected = some m →
          Symbol.Method.ofSymbol? (view.program.functionName g) = some m' → SameName m m' := by
    intro g
    simp only [isTarget, Bool.and_eq_true, decide_eq_true_eq, and_assoc, Option.all_eq_true,
      isSameMethod_iff]
    refine and_congr_right fun _ => and_congr_right fun _ => ?_
    exact ⟨fun hall m m' hm => hall m hm m', fun hall m hm m' => hall m m' hm⟩
  simp only [OrdSet.mem_ofList, List.mem_map, List.mem_filter, htarget, candidates,
    List.mem_flatMap, entries, Option.mem_toList]
  constructor
  · rintro ⟨g, ⟨⟨c, hc, table, htable, hg⟩, hname, hsignature, hmethod⟩, rfl⟩
    exact ⟨c, table, g, hc, htable, hg, hname, hsignature, hmethod, rfl⟩
  · rintro ⟨c, table, g, hc, htable, hg, hname, hsignature, hmethod, rfl⟩
    exact ⟨g, ⟨⟨c, hc, table, htable, hg⟩, hname, hsignature, hmethod⟩, rfl⟩

theorem base_of_slotAddress? {g : Gep} (hg : slotAddress? p call = some g) :
    p.baseFunction? call.callee = none := by
  rw [slotAddress?] at hg
  obtain ⟨arg, -, hg⟩ := Option.bind_eq_some_iff.1 hg
  split at hg
  · cases hg
  · rename_i hpointer
    simp only [Bool.or_eq_true, not_or, Option.not_isSome_iff_eq_none] at hpointer
    exact hpointer.1

variable (view) in
theorem reaches_targets (hslot : slot? view.program call = some k)
    (hthis : object? call = some this) (hh : h.Closed) :
    Reaches view h this k (view.signatureOf · = view.signature call.type)
      (targets view h call) where
  known c hclass hknown f := by
    have hfilter : (some c).filter (· ∈ h.classes) = some c := by simp [hknown]
    rw [targets, hthis]
    dsimp only
    rw [hclass, hfilter, hslot]
    dsimp only [classesFrom, Option.bind_some]
    rw [mem_found_iff]
    simp only [hh.mem_descendants, expected?_eq_some_iff]
  unknown hunknown f := by
    have hfilter : (staticClass? view.program this).filter (· ∈ h.classes) = none := by
      rw [Option.filter_eq_none_iff]
      exact fun c hc => by simpa using hunknown c hc
    rw [targets, hthis]
    dsimp only
    rw [hfilter, hslot]
    dsimp only [classesFrom, Option.bind_none]
    rw [mem_found_iff]
    simp

/-- Signatures may be compared in any way that agrees on the functions that the tables hold. -/
theorem Reaches.of_agrees {agrees agrees' : FunctionId → Prop} {fs : OrdSet FunctionId}
    (hreaches : Reaches view h this k agrees fs) (hh : h.InRange view.program)
    (hagrees : ∀ g, view.program.HasFunction g → (agrees g ↔ agrees' g)) :
    Reaches view h this k agrees' fs := by
  have hselects : ∀ classes expected f, Selects view h k agrees classes expected f ↔
      Selects view h k agrees' classes expected f := by
    intro classes expected f
    refine exists_congr fun c => exists_congr fun table => exists_congr fun g => ?_
    refine and_congr_right fun _ => and_congr_right fun htable => and_congr_right fun hg => ?_
    rw [hagrees g (hh.tablesOf htable g (List.mem_of_getElem? hg))]
  exact ⟨fun c hclass hknown f => (hreaches.known c hclass hknown f).trans (hselects _ _ f),
    fun hunknown f => (hreaches.unknown hunknown f).trans (hselects _ _ f)⟩

end Dispatch

/-! ## Runs -/

namespace Strategy

variable {strategy : Strategy} {p : Program} {f : FunctionId} {site : CallSite} {address : Gep}
  {k : Nat} {this : ValueId}

theorem answer_of_slotAddress? [Hasher] (hp : p.Valid) (hclasses : strategy.classes = true)
    (hne : p.modules.toList ≠ []) (hsite : site ∈ p.callSites f)
    (haddress : Dispatch.slotAddress? p site.call = some address) :
    strategy.answer p site = Dispatch.targets (View.ofProgram p).link
      (strategy.hierarchyOf p p.modules.toList) site.call := by
  have hvirtual : Dispatch.isVirtual p site.call = true := by
    rw [Dispatch.isVirtual, haddress]
    rfl
  have hfound : (strategy.ready p).view.program.callSite? site.id = some site :=
    Program.callSite?_of_mem_callSites hsite
  rw [answer, Dispatch.base_of_slotAddress? haddress, strategy.prepared_eq hp hne]
  dsimp only
  rw [if_pos hvirtual, Analysis.resolveVirtual, hclasses, hfound]
  rfl

/-- A virtual call of a listed function that selects a slot and has an object is recorded with
the functions of that slot that it may reach: those of the class of the object and of all that
inherit from it, or those of all classes if the class is not known. Signatures are compared by
their hashes, which is to compare them as they are written unless two that differ have the same
hash. -/
theorem selects_callees [Hasher] (hp : p.Valid) (hclasses : strategy.classes = true)
    (hf : p.Lists f) (hsite : site ∈ p.callSites f)
    (haddress : Dispatch.slotAddress? p site.call = some address)
    (hindex : address.indices = [.const k])
    (hthis : site.call.args[site.call.sret.toNat]? = some this) :
    ∃ h fs, (strategy.analyze p).2.hierarchy = h ∧
      (strategy.analyze p).2.store.callees.get? site.id = some fs ∧
      Dispatch.Reaches (View.ofProgram p).link h this k (fun g =>
        (View.ofProgram p).link.signatureOf g =
          (View.ofProgram p).link.signature site.call.type) fs ∧
      (p.SignaturesApart → Dispatch.Reaches (View.ofProgram p).link h this k
        (fun g => p.writtenSignature g = p.types.signatureText site.call.type) fs) := by
  have hne : p.modules.toList ≠ [] := by
    obtain ⟨m, hm, -⟩ := hf
    exact List.ne_nil_of_mem hm
  have hhierarchy : (strategy.analyze p).2.hierarchy = strategy.hierarchyOf p p.modules.toList :=
    ((strategy.running_analyze p).same_ready hp hne).hierarchy
  have hrange : (strategy.hierarchyOf p p.modules.toList).InRange p := by
    obtain ⟨-, hrange⟩ := strategy.on_prepared hp
    rw [strategy.prepared_eq hp hne] at hrange
    exact hrange.hierarchy
  have hslot : Dispatch.slot? p site.call = some k := by
    rw [Dispatch.slot?, haddress, Option.bind_some, Dispatch.place?, hindex]
    rfl
  have hreaches := Dispatch.reaches_targets (View.ofProgram p).link hslot hthis
    (strategy.closed_hierarchyOf hp p.modules.toList)
  rw [← answer_of_slotAddress? hp hclasses hne hsite haddress] at hreaches
  refine ⟨_, strategy.answer p site, hhierarchy,
    (strategy.get?_callees_analyze_iff hp).2
      ⟨site, Program.mem_calls.2 ⟨f, hf, hsite⟩, rfl, rfl⟩, hreaches, fun hapart => ?_⟩
  have htype := hp.hasType_of_call (Program.opcode?_of_callSite?
    (Program.callSite?_of_mem_callSites hsite))
  exact hreaches.of_agrees hrange fun g hg => hapart.signatureOf_eq_iff hp hg htype

open Sample in
/-- `use` calls the second method of an `A`. The class `B` inherits the first method of `A` and
overrides the second one, which another module defines. -/
def overridden : Program :=
  let function (name : String) (t m : Nat) (params : List ValueId) (blocks : List Block)
      (address : Nat) : Function :=
    ⟨name, ⟨t⟩, ⟨m⟩, .external, params, blocks, ⟨address⟩, false⟩
  let global (name : String) (address init : Nat) : Global :=
    ⟨name, 0, 9, ⟨address⟩, some ⟨init⟩, .external, false⟩
  Program.withUses
    { types := ⟨#[.void, .struct (some "class.A") [8] false, .pointer 1,
        .function 0 [2] false, .struct (some "class.B") [1] false, .pointer 4,
        .function 0 [5] false, .pointer 3, .pointer 7, .array 7 2, .pointer 9,
        .pointer 8, .pointer 6]⟩
      values := #[value 7 (.function 0), value 2 (.argument 0 0), value 7 (.function 1),
        value 2 (.argument 1 0), value 12 (.function 2), value 5 (.argument 2 0),
        value 7 (.function 3), value 2 (.argument 3 0), value 12 (.function 4),
        value 5 (.argument 4 0), value 10 (.global 0),
        value 9 (.const (.aggregate [0, 2])), value 10 (.global 1),
        value 9 (.const (.aggregate [0, 4])), instr 11 3 (.cast .bitCast 7),
        { instr 8 3 (.load 14) with name := some "vtable" },
        instr 8 3 (.gep ⟨7, 15, [.const 1]⟩), instr 7 3 (.load 16),
        instr 0 3 (.call ⟨17, [7], 3, false⟩)]
      functions := #[function "_ZN1A1fEv" 3 0 [1] [⟨0, []⟩] 0,
        function "_ZN1A1gEv" 3 0 [3] [⟨0, []⟩] 2, function "_ZN1B1gEv" 6 0 [5] [] 4,
        function "use" 3 0 [7] [⟨0, [14, 15, 16, 17, 18]⟩] 6,
        function "_ZN1B1gEv" 6 1 [9] [⟨0, []⟩] 8]
      globals := #[global "_ZTV1A" 10 11, global "_ZTV1B" 12 13]
      modules := #[⟨0, "a", [0, 1, 2, 3], [0, 1], []⟩,
        ⟨1, "b", [4], [], []⟩] }

theorem valid_overridden : overridden.Valid := Program.valid_withUses rfl

def secondCall : CallSite := ⟨18, 3, ⟨17, [7], 3, false⟩, none⟩

def classesOfOverridden : Hierarchy :=
  layerwise.hierarchyOf overridden overridden.modules.toList

theorem tables_overridden : "A" ∈ classesOfOverridden.classes ∧
    ("B", "A") ∈ classesOfOverridden.edges ∧
    classesOfOverridden.tablesOf "B" = [[0, 2]] ∧
    Dispatch.expected? overridden classesOfOverridden "A" 1 = some ⟨"A", "g", none⟩ := by
  decide +kernel

attribute [local instance] Hasher.digits

theorem override_overridden : overridden.functionName 2 = "_ZN1B1gEv" ∧
    Symbol.Method.ofSymbol? "_ZN1B1gEv" = some ⟨"B", "g", none⟩ ∧
    overridden.writtenSignature 2 = overridden.types.signatureText 3 ∧
    overridden.SignaturesApart ∧ (View.ofProgram overridden).link.definitionOf 2 = 4 := by
  decide +kernel

theorem secondCall_eq : overridden.callSites 3 = [secondCall] ∧
    Dispatch.slotAddress? overridden secondCall.call = some ⟨7, 15, [.const 1]⟩ ∧
    Dispatch.staticClass? overridden 7 = some "A" := by decide +kernel

/-- The call reaches the definition of the method that overrides the one of `A`. -/
theorem selects_callees_overridden :
    overridden.Valid ∧ overridden.Lists 3 ∧ secondCall ∈ overridden.callSites 3 ∧
      Dispatch.staticClass? overridden 7 = some "A" ∧ overridden.SignaturesApart ∧
      ∃ fs, (layerwise.analyze overridden).2.store.callees.get? 18 = some fs ∧ 4 ∈ fs := by
  obtain ⟨hsites, haddress, hclass⟩ := secondCall_eq
  obtain ⟨hknown, hedge, htables, hfirst⟩ := tables_overridden
  obtain ⟨hname, hmethod, hsignature, hapart, hdefinition⟩ := override_overridden
  have hlisted : overridden.Lists 3 :=
    ⟨⟨0, "a", [0, 1, 2, 3], [0, 1], []⟩, List.mem_cons_self, by decide⟩
  have hsite : secondCall ∈ overridden.callSites 3 := by
    rw [hsites]
    exact List.mem_cons_self
  obtain ⟨h, fs, hhierarchy, hfs, -, hreaches⟩ :=
    @selects_callees layerwise overridden 3 secondCall ⟨7, 15, [.const 1]⟩ 1 7 _
      valid_overridden rfl hlisted hsite haddress rfl rfl
  have hready := (layerwise.running_analyze overridden).same_ready valid_overridden
    (List.cons_ne_nil _ _)
  have hrecovered : h = classesOfOverridden := hhierarchy.symm.trans hready.hierarchy
  rw [hrecovered] at hreaches
  have htable : [0, 2] ∈ classesOfOverridden.tablesOf "B" := by
    rw [htables]
    exact List.mem_cons_self
  refine ⟨valid_overridden, hlisted, hsite, hclass, hapart, fs, hfs, ?_⟩
  refine ((hreaches hapart).known "A" hclass hknown 4).2
    ⟨"B", [0, 2], 2, .single hedge, htable, rfl, ?_, hsignature, ?_, hdefinition⟩
  · rw [show (View.ofProgram overridden).link.program = overridden from rfl, hname]
    decide
  · intro m m' hm hm'
    rw [show (View.ofProgram overridden).link.program = overridden from rfl, hname, hmethod] at hm'
    cases hfirst.symm.trans (Dispatch.expected?_eq_some_iff.2 hm)
    cases hm'
    exact .inl rfl

end Strategy

end CallTargets
