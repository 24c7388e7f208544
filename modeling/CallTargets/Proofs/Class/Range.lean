import CallTargets.Class.Dispatch
import CallTargets.Class.Structor
import CallTargets.Proofs.Class.Tables
import CallTargets.Proofs.Ordered
import CallTargets.Proofs.Program.Range
import Mathlib.Logic.Relation

/-!
# Classes in range

What modules show about classes is recorded one thing at a time (`Hierarchy.Step`). The functions
in the tables of the classes that are recovered from a valid program exist. The
entries of vtables do, as constants of the program, and a thunk calls what exists. Virtual
calls reach such functions only (`hasFunction_of_mem_targets`).
-/

namespace CallTargets

open Relation

/-! ## Tables -/

namespace Hierarchy

/-- The functions in the slots exist. -/
def InRange (p : Program) (h : Hierarchy) : Prop :=
  h.tables.All fun _ tables => ∀ table ∈ tables, ∀ f ∈ table, p.HasFunction f

section Tables

variable (h : Hierarchy) (c : String)

theorem tables_addClass : (h.addClass c).tables = h.tables := by
  unfold addClass
  split
  · rfl
  · dsimp only
    split <;> rfl

theorem edges_addClass : (h.addClass c).edges = h.edges := by
  unfold addClass
  split
  · rfl
  · dsimp only
    split <;> rfl

theorem tables_inherit (base : String) : (h.inherit c base).2.tables = h.tables := by
  unfold inherit
  split
  · exact (tables_addClass _ base).trans (tables_addClass h c)
  · rfl

end Tables

/-- One more thing is recorded. The functions in the slots of a new table exist. -/
inductive Step (p : Program) : Hierarchy → Hierarchy → Prop where
  | addTrait (h : Hierarchy) (c : String) (bit : UInt8) : Step p h (h.addTrait c bit)
  | addClass (h : Hierarchy) (c : String) : Step p h (h.addClass c)
  | inherit (h : Hierarchy) (derived base : String) : Step p h (h.inherit derived base).2
  | setVtable (h : Hierarchy) (c symbol : String) : Step p h (h.setVtable c symbol)
  | addTable (h : Hierarchy) (c : String) {slots : List FunctionId}
      (hslots : ∀ f ∈ slots, p.HasFunction f) : Step p h (h.addTable c slots)

namespace InRange

variable {p : Program} {h h' : Hierarchy} (hh : h.InRange p)
include hh

theorem addTable {slots : List FunctionId} (hslots : ∀ f ∈ slots, p.HasFunction f) (c : String) :
    (h.addTable c slots).InRange p := by
  unfold Hierarchy.addTable
  split
  · exact hh
  · refine OrdMap.All.alter hh fun tables htables table htable => ?_
    rcases List.mem_append.1 htable with htable | htable
    · cases tables with
      | none => cases htable
      | some tables => exact htables tables rfl table htable
    · rw [List.mem_singleton.1 htable]
      exact hslots

theorem step (hstep : Step p h h') : h'.InRange p := by
  cases hstep with
  | addTrait => exact hh
  | addClass c => rwa [InRange, tables_addClass]
  | inherit derived base => rwa [InRange, tables_inherit]
  | setVtable c symbol => rwa [InRange, setVtable, tables_addClass]
  | addTable c hslots => exact hh.addTable hslots c

theorem steps (hsteps : ReflTransGen (Step p) h h') : h'.InRange p := by
  induction hsteps with
  | refl => exact hh
  | tail _ hstep ih => exact ih.step hstep

theorem tablesOf {c : String} {table : List FunctionId} (htable : table ∈ h.tablesOf c) :
    ∀ f ∈ table, p.HasFunction f := by
  unfold Hierarchy.tablesOf at htable
  cases htables : h.tables.get? c with
  | none =>
    rw [htables] at htable
    cases htable
  | some tables =>
    rw [htables] at htable
    exact OrdMap.All.of_get? hh htables table htable

end InRange

end Hierarchy

/-! ## Vtables -/

namespace Vtable

def Entry.InRange (p : Program) : Entry → Prop
  | .function f => p.HasFunction f
  | _ => True

section Range

variable {p : Program} (hp : p.Valid)
include hp

theorem inRange_plainEntry (v : ValueId) : (plainEntry p v).InRange p := by
  unfold plainEntry
  split
  · rename_i hkind
    exact hp.kindOk hkind
  · split <;> trivial
  · trivial
  · trivial
  · trivial

theorem inRange_entry (v : ValueId) : (entry p v).InRange p := by
  unfold entry
  split
  · trivial
  · exact inRange_plainEntry hp _

theorem hasValue_of_elements? {v u : ValueId} {elements : List ValueId}
    (h : p.elements? v = some elements) (hu : u ∈ elements) : p.HasValue u :=
  hp.hasValue_of_const? (Program.const?_of_elements? h) hu

theorem hasValue_of_mem_parts {elements : List ValueId} (helements : ∀ v ∈ elements, p.HasValue v)
    {v : ValueId} (hv : v ∈ parts p elements) : p.HasValue v := by
  unfold parts at hv
  split at hv
  · rename_i first second
    split at hv
    · cases hinner : p.elements? first with
      | none =>
        rw [hinner] at hv
        exact helements v hv
      | some inner =>
        rw [hinner] at hv
        exact hasValue_of_elements? hp hinner hv
    · exact helements v hv
  · exact helements v hv

theorem inRange_of_mem_arrays {init : ValueId} {array : List Entry} (harray : array ∈ arrays p init)
    {e : Entry} (he : e ∈ array) : e.InRange p := by
  unfold arrays at harray
  split at harray
  · obtain ⟨vs, -, rfl⟩ := List.mem_map.1 harray
    obtain ⟨v, -, rfl⟩ := List.mem_map.1 he
    exact inRange_entry hp v
  · cases harray

theorem hasValue_of_ofGlobal? {g : GlobalId} {found : String × String × ValueId}
    (h : ofGlobal? p g = some found) : p.HasValue found.2.2 := by
  obtain ⟨global, hglobal, h⟩ := Option.bind_eq_some_iff.1 h
  split at h
  · obtain ⟨init, hinit, h⟩ := Option.bind_eq_some_iff.1 h
    obtain ⟨c, -, h⟩ := Option.bind_eq_some_iff.1 h
    cases h
    exact (hp.records.global hglobal).init init hinit
  · cases h

theorem hasFunction_of_thunkTarget? {f g : FunctionId} (h : thunkTarget? p f = some g) :
    p.HasFunction g := by
  obtain ⟨site, -, hbase⟩ := List.mem_filterMap.1 (List.mem_of_getLast? h)
  exact hp.hasFunction_base hbase

theorem hasFunction_of_slot? {e : Entry} (he : e.InRange p) {f : FunctionId}
    (h : slot? p e = some f) : p.HasFunction f := by
  cases e with
  | function g =>
    simp only [slot?] at h
    split at h
    · exact hasFunction_of_thunkTarget? hp h
    · cases h
      exact he
  | _ => cases h

theorem hasFunction_of_mem_slots {table : List Entry} (htable : ∀ e ∈ table, e.InRange p)
    {f : FunctionId} (hf : f ∈ slots p table) : p.HasFunction f := by
  have hall : ∀ g ∈ table.filterMap (slot? p), p.HasFunction g := by
    intro g hg
    obtain ⟨e, he, hslot⟩ := List.mem_filterMap.1 hg
    exact hasFunction_of_slot? hp (htable e he) hslot
  unfold slots at hf
  split at hf
  · cases hf
  · rename_i first rest hslots
    rw [hslots] at hall
    rcases List.mem_append.1 hf with hf | hf
    · exact hall f (List.eq_of_mem_replicate hf ▸ List.mem_cons_self)
    · exact hall f hf

end Range

end Vtable

section Steps

variable (p : Program) (h : Hierarchy)

theorem Vtable.steps_recordEntry (c : String) (e : Entry) :
    ReflTransGen (Hierarchy.Step p) h (recordEntry p c h e) := by
  cases e with
  | offset => exact .single (.addTrait h c _)
  | function f =>
    simp only [recordEntry, recordOwner]
    split
    · exact .single (.inherit h c _)
    · exact .refl
  | _ => exact .refl

variable {p} (hp : p.Valid)

include hp in
theorem Vtable.steps_recordTable {table : List Entry} (htable : ∀ e ∈ table, e.InRange p)
    (c : String) : ReflTransGen (Hierarchy.Step p) h (recordTable p c h table) := by
  have hentries : ReflTransGen (Hierarchy.Step p) h (table.foldl (recordEntry p c) h) :=
    List.foldlRecOn _ _ .refl fun h' hsteps e _ => hsteps.trans (steps_recordEntry p h' c e)
  exact hentries.tail (.addTable _ c fun f hf => hasFunction_of_mem_slots hp htable hf)

include hp in
theorem Vtable.steps_record (c symbol : String) (init : ValueId) :
    ReflTransGen (Hierarchy.Step p) h (record p h c symbol init) := by
  have htables : ReflTransGen (Hierarchy.Step p) h
      (((arrays p init).flatMap cut).foldl (recordTable p c) (h.setVtable c symbol)) := by
    refine List.foldlRecOn _ _ (.single (.setVtable h c symbol)) fun h' hsteps table htable => ?_
    obtain ⟨array, harray, htable⟩ := List.mem_flatMap.1 htable
    exact hsteps.trans (steps_recordTable h' hp (fun e he => inRange_of_mem_arrays hp harray
      (mem_of_mem_cut htable he)) c)
  rw [record_eq]
  split
  · exact htables.tail (.addTrait _ c _)
  · exact htables

include hp in
theorem Vtable.steps_scan (m : Module) : ReflTransGen (Hierarchy.Step p) h (scan p h m).2 :=
  List.foldlRecOn _ _ .refl fun h' hsteps found _ =>
    hsteps.trans (steps_record h' hp found.1 found.2.1 found.2.2)

theorem Structor.steps_record (state : Nat × Hierarchy) (f : Function) :
    ReflTransGen (Hierarchy.Step p) state.2 (record p state f).2 := by
  unfold record
  split
  · dsimp only
    split
    · exact List.foldlRecOn (motive := fun state' : Nat × Hierarchy =>
        ReflTransGen (Hierarchy.Step p) state.2 state'.2) _ _ (.single (.addClass state.2 _))
        fun state' hsteps base _ => hsteps.tail (.inherit state'.2 _ base)
    · exact .single (.addClass state.2 _)
  · exact .refl

theorem Structor.steps_scan (m : Module) : ReflTransGen (Hierarchy.Step p) h (scan p h m).2 :=
  List.foldlRecOn (motive := fun state : Nat × Hierarchy =>
    ReflTransGen (Hierarchy.Step p) h state.2) _ _ .refl
    fun state hsteps f _ => hsteps.trans (steps_record state f)

include hp in
theorem Hierarchy.steps_module (m : Module) :
    ReflTransGen (Step p) h (Structor.scan p (Vtable.scan p h m).2 m).2 :=
  (Vtable.steps_scan h hp m).trans (Structor.steps_scan _ m)

end Steps

/-! ## Virtual calls -/

namespace Dispatch

variable {view : View} {h : Hierarchy} {f : FunctionId}

theorem hasFunction_of_mem_candidates (hh : h.InRange view.program) {classes : OrdSet String}
    {slot : Option Nat} (hf : f ∈ candidates h classes slot) : view.program.HasFunction f := by
  obtain ⟨c, -, hf⟩ := List.mem_flatMap.1 hf
  obtain ⟨table, htable, hf⟩ := List.mem_flatMap.1 hf
  refine hh.tablesOf htable f ?_
  cases slot with
  | none => exact hf
  | some k => exact List.mem_of_getElem? (Option.mem_toList.1 hf)

theorem hasFunction_of_mem_targets (hview : view.Valid) (hh : h.InRange view.program) {call : Call}
    (hf : f ∈ targets view h call) : view.program.HasFunction f := by
  unfold targets at hf
  split at hf
  · obtain ⟨g, hg, rfl⟩ := List.mem_map.1 (OrdSet.mem_ofList.1 hf)
    exact hview.hasFunction_definitionOf
      (hasFunction_of_mem_candidates hh (List.mem_of_mem_filter hg))
  · exact absurd hf (OrdSet.not_mem_empty f)

end Dispatch

end CallTargets
