import CallTargets.Proofs.Program.Built
import CallTargets.Proofs.Program.Range
import Mathlib.Data.List.Perm.Basic

/-!
# Places in a program

A program that requests build has a place for each of its parts and no second one: each function
is listed by one module, once, and each instruction by one block of one function, once
(`Program.Placed`). Checks of a program do not ask for that, so it is shown of the changes that
requests can make. What follows is that going through the modules comes to each call once
(`Placed.nodup_calls`).
-/

namespace CallTargets

section Modify

variable {α β : Type} {change : α → α} {parts : α → List β}

theorem flatMap_modify_of_eq (hchange : ∀ a, parts (change a) = parts a) (l : List α) (i : Nat) :
    (l.modify i change).flatMap parts = l.flatMap parts := by
  induction l generalizing i with
  | nil => simp
  | cons a l ih =>
    cases i with
    | zero => simp [hchange]
    | succ i => simp [ih]

theorem perm_flatMap_modify {b : β} (hchange : ∀ a, parts (change a) = parts a ++ [b])
    {l : List α} {i : Nat} (hi : i < l.length) :
    ((l.modify i change).flatMap parts).Perm (b :: l.flatMap parts) := by
  induction l generalizing i with
  | nil => cases hi
  | cons a l ih =>
    cases i with
    | zero =>
      simp only [List.modify_zero_cons, List.flatMap_cons, hchange, List.append_assoc]
      exact List.perm_middle
    | succ i =>
      simp only [List.modify_succ_cons, List.flatMap_cons]
      exact ((ih (Nat.lt_of_succ_lt_succ hi)).append_left _).trans List.perm_middle

end Modify

namespace Program

variable {p p' : Program}

/-- Each function has one place in the modules, and each instruction of a function one place in
its blocks. -/
structure Placed (p : Program) : Prop where
  functions : (p.modules.toList.flatMap Module.functions).Perm p.functionIds
  instructions : ∀ {f fn}, p.function? f = some fn → fn.instructions.Nodup

/-! ## Changes -/

namespace Placed

theorem empty : Placed {} := ⟨.refl _, fun h => by cases h⟩

variable (h : p.Placed)
include h

theorem addModule (name : String) : (p.addModule name).2.Placed := by
  refine ⟨?_, h.instructions⟩
  have hmodules : (p.addModule name).2.modules.toList.flatMap Module.functions =
      p.modules.toList.flatMap Module.functions := by
    simp [Program.addModule]
  rw [hmodules]
  exact h.functions

theorem changeModule (m : ModuleId) {change : Module → Module}
    (hchange : ∀ m, (change m).functions = m.functions) : (p.changeModule m change).Placed := by
  refine ⟨?_, h.instructions⟩
  rw [Program.changeModule, Array.toList_modify, flatMap_modify_of_eq hchange]
  exact h.functions

theorem changeFunction (f : FunctionId) {change : Function → Function}
    (hchange : ∀ fn, (change fn).instructions = fn.instructions) :
    (p.changeFunction f change).Placed := by
  constructor
  · rw [functionIds, Program.changeFunction, Array.size_modify]
    exact h.functions
  · intro f' fn hfn
    obtain ⟨fn', hfn', rfl⟩ := function?_changeFunction hfn
    split
    · rw [hchange]
      exact h.instructions hfn'
    · exact h.instructions hfn'

theorem pushFunction {m : ModuleId} (hm : p.HasModule m) (name : String) (type addressType : TypeId)
    (params : List TypeId) : (p.pushFunction m name type addressType params).Placed := by
  constructor
  · have hmodules : ((p.pushFunction m name type addressType params).modules.toList.flatMap
        Module.functions).Perm
          (⟨p.functions.size⟩ :: p.modules.toList.flatMap Module.functions) := by
      rw [Program.pushFunction, Array.toList_modify]
      exact perm_flatMap_modify (fun _ => rfl) hm
    have hids : (p.pushFunction m name type addressType params).functionIds =
        p.functionIds ++ [⟨p.functions.size⟩] := by
      simp [functionIds, Program.pushFunction, List.range_succ]
    rw [hids]
    exact hmodules.trans ((h.functions.cons _).trans (List.perm_append_singleton _ _).symm)
  · intro f fn hfn
    rcases getElem?_push_eq_some_iff.1 hfn with hfn | ⟨-, rfl⟩
    · exact h.instructions hfn
    · exact List.nodup_nil

theorem addInstr (hp : p.RecordsOk) {site : Site} (hblock : p.HasBlock site.function site.block)
    (type : TypeId) (op : Opcode) : (p.addInstr site type op).2.Placed := by
  constructor
  · have hids : (p.addInstr site type op).2.functionIds = p.functionIds := by
      simp [functionIds, Program.addInstr, Program.changeFunction, addValue]
    rw [hids]
    exact h.functions
  · intro f fn hfn
    obtain ⟨fn', hfn', rfl⟩ := function?_changeFunction hfn
    replace hfn' : p.function? f = some fn' := hfn'
    split
    · rename_i hf
      obtain rfl : site.function = f := congrArg FunctionId.mk hf
      have hplace : site.block.index < fn'.blocks.length := by
        rw [HasBlock, hfn'] at hblock
        exact hblock
      have hnew : (⟨p.values.size⟩ : ValueId) ∉ fn'.instructions := by
        intro hmem
        obtain ⟨b, hb, hmem⟩ := List.mem_flatMap.1 hmem
        obtain ⟨place, hplace⟩ := List.mem_iff_getElem?.1 hb
        have hvalue := (((hp.function hfn').block place b hplace).instr _ hmem).1
        exact Nat.lt_irrefl _ hvalue
      refine (perm_flatMap_modify (fun _ => rfl) hplace).nodup_iff.2 ?_
      exact List.nodup_cons.2 ⟨hnew, h.instructions hfn'⟩
    · exact h.instructions hfn'

theorem withUses : p.withUses.Placed := by
  constructor
  · rw [functionIds, Program.withUses, Array.size_map]
    exact h.functions
  · intro f fn hfn
    rw [function?_withUses] at hfn
    obtain ⟨fn', hfn', rfl⟩ := Option.map_eq_some_iff.1 hfn
    exact (h.instructions hfn' : fn'.instructions.Nodup)

end Placed

theorem Change.placed {refill : Prop} (h : Change refill p p') (hp : p.RecordsOk)
    (hplaced : p.Placed) : p'.Placed := by
  cases h with
  | addType => exact ⟨hplaced.functions, hplaced.instructions⟩
  | setBody => exact ⟨hplaced.functions, hplaced.instructions⟩
  | addModule name => exact hplaced.addModule name
  | listStruct m ht => exact hplaced.changeModule m fun _ => rfl
  | addFunction name hm htype haddress => exact hplaced.pushFunction hm name _ _ _
  | openEntry f =>
    refine hplaced.changeFunction f fun fn => ?_
    split
    · rename_i hdeclaration
      rw [Function.instructions, Function.instructions, List.isEmpty_iff.1 hdeclaration]
      rfl
    · rfl
  | addBlock f =>
    refine hplaced.changeFunction f fun fn => ?_
    simp [Function.instructions]
  | setLinkage f linkage => exact hplaced.changeFunction f fun _ => rfl
  | @addGlobal m type addressType init name =>
    have hmodule : (p.changeModule m fun m =>
        { m with globals := m.globals ++ [⟨p.globals.size⟩] }).Placed :=
      hplaced.changeModule m fun _ => rfl
    exact ⟨hmodule.functions, hplaced.instructions⟩
  | setInit => exact ⟨hplaced.functions, hplaced.instructions⟩
  | setGlobalLinkage => exact ⟨hplaced.functions, hplaced.instructions⟩
  | nameValue => exact ⟨hplaced.functions, hplaced.instructions⟩
  | addConst => exact ⟨hplaced.functions, hplaced.instructions⟩
  | addInstr htype hblock hop hoperands htyped => exact hplaced.addInstr hp hblock _ _

end Program

namespace Request

variable {rs : List Request}

theorem makes_of_named (hnamed : Named [] {} rs) : Program.Makes True {} [] (rs.foldl apply {}) :=
  makes_foldl Program.recordsOk_empty (List.forall_mem_nil _) hnamed (.inl trivial)

theorem valid_built (hnamed : Named [] {} rs) : (built rs).Valid := by
  have hrecords := (makes_of_named hnamed).recordsOk Program.recordsOk_empty
  exact Program.valid_withUses (Program.validate_eq_ok_iff.2 hrecords)

theorem placed_built (hnamed : Named [] {} rs) : (built rs).Placed := by
  have hplaced := (makes_of_named hnamed).keeps (P := fun q => q.RecordsOk ∧ q.Placed)
    (fun hchange hq => ⟨hchange.recordsOk hq.1, hchange.placed hq.1 hq.2⟩)
    ⟨Program.recordsOk_empty, Program.Placed.empty⟩
  exact hplaced.2.withUses

end Request

/-! ## Calls in their places -/

namespace Program

variable {p : Program}

theorem nodup_functionIds (p : Program) : p.functionIds.Nodup :=
  List.nodup_range.map fun _ _ h => congrArg FunctionId.index h

theorem map_id_callSites_sublist (p : Program) (f : FunctionId) :
    ((p.callSites f).map CallSite.id).Sublist (p.instructionsOf f) := by
  rw [callSites]
  induction p.instructionsOf f with
  | nil => exact .slnil
  | cons v vs ih =>
    cases hsite : p.callSite? v with
    | none =>
      rw [List.filterMap_cons_none hsite]
      exact ih.cons v
    | some site =>
      rw [List.filterMap_cons_some hsite, List.map_cons, id_of_callSite? hsite]
      exact ih.cons_cons v

theorem Placed.nodup_instructionsOf (h : p.Placed) (f : FunctionId) :
    (p.instructionsOf f).Nodup := by
  rw [instructionsOf]
  cases hf : p.function? f with
  | none => exact List.nodup_nil
  | some fn => exact h.instructions hf

theorem Placed.nodup_calls (h : p.Placed) (hp : p.Valid) : (p.calls.map CallSite.id).Nodup := by
  have hfunctions : (p.modules.toList.flatMap Module.functions).Nodup :=
    h.functions.nodup_iff.2 p.nodup_functionIds
  rw [calls, List.map_flatMap, List.nodup_flatMap]
  refine ⟨fun f _ => (h.nodup_instructionsOf f).sublist (p.map_id_callSites_sublist f), ?_⟩
  refine hfunctions.imp fun {f g} hne => ?_
  -- a call tells the function it is in
  intro v hf hg
  obtain ⟨site, hsite, rfl⟩ := List.mem_map.1 hf
  obtain ⟨other, hother, hid⟩ := List.mem_map.1 hg
  have hfound := callSite?_of_mem_callSites hother
  rw [hid, callSite?_of_mem_callSites hsite] at hfound
  cases hfound
  exact hne ((hp.caller_eq hsite).symm.trans (hp.caller_eq hother))

end Program

end CallTargets
