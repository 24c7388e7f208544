import CallTargets.Proofs.Class.Evidence
import CallTargets.Proofs.Class.Override
import CallTargets.Proofs.Class.Slots
import CallTargets.Proofs.Graph.Roam

/-!
# Hierarchies that are recorded step by step

Classes, inheritance, vtables, their tables and traits are recorded in any order. The edges of the
hierarchy are the inheritances that were recorded between two different classes with a name
(`Hierarchy.derives_ofRecordings`). Bases and derived classes are two readings of the edges, and
agree with two maps into which every inheritance is entered separately (`Kin`).

Main statement: `Hierarchy.consistent_ofRecordings`.
-/

namespace CallTargets

open Relation

/-- Something that is recorded about classes. -/
inductive Recording where
  | addClass (c : String)
  | inherit (derived base : String)
  | setVtable (c symbol : String)
  | addTable (c : String) (slots : List FunctionId)
  | addTrait (c : String) (bit : UInt8)

namespace Hierarchy

variable {h : Hierarchy} {rs : List Recording} {c d b : String}

def record (h : Hierarchy) : Recording → Hierarchy
  | .addClass c => h.addClass c
  | .inherit derived base => (h.inherit derived base).2
  | .setVtable c symbol => h.setVtable c symbol
  | .addTable c slots => h.addTable c slots
  | .addTrait c bit => h.addTrait c bit

/-- The hierarchy of some recordings, which are made one after another. -/
def ofRecordings (rs : List Recording) : Hierarchy := rs.foldl record {}

theorem canInherit_iff : canInherit d b = true ↔ d ≠ "" ∧ b ≠ "" ∧ d ≠ b := by
  simp [canInherit, and_assoc]

/-! ## Edges -/

theorem derives_record (h : Hierarchy) (r : Recording) :
    (h.record r).Derives b d ↔ h.Derives b d ∨ r = .inherit d b ∧ canInherit d b = true := by
  cases r with
  | addClass c => simp [record, Derives, edges_addClass]
  | inherit derived base =>
    rw [record, Derives, mem_edges_inherit, Recording.inherit.injEq, Prod.mk.injEq]
    refine or_congr_right ⟨?_, ?_⟩
    · rintro ⟨hcan, rfl, rfl⟩
      exact ⟨⟨rfl, rfl⟩, hcan⟩
    · rintro ⟨⟨rfl, rfl⟩, hcan⟩
      exact ⟨hcan, rfl, rfl⟩
  | setVtable c symbol => simp [record, Derives, edges_setVtable]
  | addTable c slots => simp [record, Derives, edges_addTable]
  | addTrait c bit => simp [record, Derives, addTrait]

/-- Exactly the inheritances that were recorded between different classes with a name. -/
theorem derives_ofRecordings :
    (ofRecordings rs).Derives b d ↔ .inherit d b ∈ rs ∧ d ≠ "" ∧ b ≠ "" ∧ d ≠ b := by
  refine (foldl_adds_iff (P := fun h : Hierarchy => h.Derives b d)
    (fun h r _ => derives_record h r) {}).trans ?_
  rw [or_iff_right (show ¬ Derives {} b d from OrdSet.not_mem_empty (d, b)), ← canInherit_iff]
  constructor
  · rintro ⟨r, hr, rfl, hcan⟩
    exact ⟨hr, hcan⟩
  · exact fun hr => ⟨_, hr.1, rfl, hr.2⟩

theorem Closed.record (hh : h.Closed) (r : Recording) : (h.record r).Closed := by
  cases r with
  | addClass c => exact hh.addClass c
  | inherit derived base => exact hh.inherit derived base
  | setVtable c symbol => exact hh.addClass c
  | addTable c slots => exact hh.addTable c slots
  | addTrait c bit => exact hh

theorem closed_ofRecordings (rs : List Recording) : (ofRecordings rs).Closed :=
  List.foldlRecOn rs record (fun e he => absurd he (OrdSet.not_mem_empty e))
    fun _ hh r _ => hh.record r

theorem mem_basesOf : b ∈ h.basesOf d ↔ h.Derives b d := by
  simp only [basesOf, Derives, List.mem_map, List.mem_filter, decide_eq_true_eq]
  constructor
  · rintro ⟨⟨d', b'⟩, ⟨hmem, rfl⟩, rfl⟩
    exact hmem
  · exact fun hmem => ⟨(d, b), ⟨hmem, rfl⟩, rfl⟩

/-! ## Descendants -/

/-- The search needs no bound: it comes to known classes only. -/
theorem Closed.roams_descent (hh : h.Closed) (c : String) :
    ∃ seen, h.descent.Roams (fun _ => false) [] [c] ∅ seen (.exhausted (h.descendants c)) := by
  have hnext : ∀ s v s' next, v ∈ h.classesWith c → h.descent.visit s v = .goOn s' next →
      ∀ w ∈ next, w ∈ h.classesWith c := by
    rintro s v s' next - hvisit w hw
    cases hvisit
    have hedge := hh (w, v) (mem_derivedOf.1 (List.mem_reverse.1 hw))
    exact OrdSet.mem_ofList.2 (List.mem_cons_of_mem c hedge.1)
  have htracks : Search.Tracks (· ∈ h.classesWith c) (fun _ => false) (h.classesWith c) [] :=
    ⟨(OrdSet.ofList _).nodup, fun v hv _ => iff_of_true hv List.not_mem_nil⟩
  obtain ⟨seen, hroams, -⟩ := Search.exists_roams_run hnext (by simp) ∅ htracks
    fun v hv => OrdSet.mem_ofList.2 (List.mem_singleton.1 hv ▸ List.mem_cons_self)
  refine ⟨seen, ?_⟩
  rw [descendants, Search.explore]
  rcases hrun : h.descent.run (h.classesWith c) [c] ∅ with ⟨left, answer | found⟩
  · cases answer
  · rwa [hrun] at hroams

/-- The class itself is found first. -/
theorem exists_toList_descendants (h : Hierarchy) (c : String) :
    ∃ rest, (h.descendants c).toList = c :: rest := by
  have hkeeps : h.descent.Keeps fun _ _ found => ∃ rest, found.toList = c :: rest := by
    refine ⟨fun {_ _ v s s' next} hfound _ hvisit => ?_, fun hfound _ => hfound⟩
    obtain ⟨rest, hrest⟩ := hfound
    cases hvisit
    rw [OrdSet.toList_insert, hrest]
    split
    · exact ⟨rest, rfl⟩
    · exact ⟨rest ++ [v], rfl⟩
  have hfirst : h.descendants c = h.descent.explore ((h.classesWith c).erase c)
      ((h.derivedOf c).reverse ++ []) (OrdSet.insert ∅ c) := by
    have hc : c ∈ h.classesWith c := OrdSet.mem_ofList.2 List.mem_cons_self
    rw [descendants, Search.explore, Search.run_fresh hc]
    rfl
  obtain ⟨-, hfound⟩ := hkeeps.explore ((h.classesWith c).erase c)
    ((h.derivedOf c).reverse ++ []) (OrdSet.insert ∅ c) ⟨[], rfl⟩
  exact hfirst ▸ hfound

end Hierarchy

/-! ## Two maps -/

/-- Bases and derived classes, each in a map of its own. -/
structure Kin where
  bases : OrdMap String (OrdSet String) := ∅
  derived : OrdMap String (OrdSet String) := ∅

namespace Kin

/-- Enters an inheritance between two classes into both maps. -/
def record (kin : Kin) : Recording → Kin
  | .inherit derived base =>
    if Hierarchy.canInherit derived base then
      { bases := kin.bases.alter derived fun s => (s.getD ∅).insert base
        derived := kin.derived.alter base fun s => (s.getD ∅).insert derived }
    else kin
  | _ => kin

def ofRecordings (rs : List Recording) : Kin := rs.foldl record {}

theorem relates_record (kin : Kin) (r : Recording) (d b : String) :
    ((kin.record r).bases.Relates d b ↔
      kin.bases.Relates d b ∨ r = .inherit d b ∧ Hierarchy.canInherit d b = true) ∧
    ((kin.record r).derived.Relates b d ↔
      kin.derived.Relates b d ∨ r = .inherit d b ∧ Hierarchy.canInherit d b = true) := by
  cases r with
  | inherit derived base =>
    cases hcan : Hierarchy.canInherit derived base with
    | true =>
      simp only [record, hcan, if_true, OrdMap.relates_add, Recording.inherit.injEq]
      grind
    | false =>
      simp only [record, hcan, Bool.false_eq_true, if_false, Recording.inherit.injEq]
      grind
  | _ => simp [record]

/-- Both maps relate the classes that the hierarchy relates. -/
theorem relates_ofRecordings (rs : List Recording) (d b : String) :
    ((ofRecordings rs).bases.Relates d b ↔ (Hierarchy.ofRecordings rs).Derives b d) ∧
      ((ofRecordings rs).derived.Relates b d ↔ (Hierarchy.ofRecordings rs).Derives b d) := by
  have hnone : ∀ k a, ¬ (∅ : OrdMap String (OrdSet String)).Relates k a :=
    fun _ a => OrdSet.not_mem_empty a
  have hedges := foldl_adds_iff (P := fun h : Hierarchy => h.Derives b d)
    (fun h r (_ : r ∈ rs) => Hierarchy.derives_record h r) {}
  have hbases := foldl_adds_iff (P := fun kin : Kin => kin.bases.Relates d b)
    (fun kin r (_ : r ∈ rs) => (relates_record kin r d b).1) {}
  have hderived := foldl_adds_iff (P := fun kin : Kin => kin.derived.Relates b d)
    (fun kin r (_ : r ∈ rs) => (relates_record kin r d b).2) {}
  have hedges' := hedges.trans (or_iff_right (OrdSet.not_mem_empty (d, b)))
  exact ⟨(hbases.trans (or_iff_right (hnone d b))).trans hedges'.symm,
    (hderived.trans (or_iff_right (hnone b d))).trans hedges'.symm⟩

end Kin

/-! ## Consistency -/

namespace Hierarchy

/-- Bases and derived classes are one relation between different classes that are known, and the
descendants of a class are those that it leads to. -/
structure Consistent (h : Hierarchy) : Prop where
  mem_basesOf_iff : ∀ d b, b ∈ h.basesOf d ↔ d ∈ h.derivedOf b
  not_mem_basesOf_self : ∀ c, c ∉ h.basesOf c
  known : ∀ d b, b ∈ h.basesOf d → (d ∈ h.classes ∧ d ≠ "") ∧ b ∈ h.classes ∧ b ≠ ""
  /-- The search for descendants ends although nothing bounds it. -/
  ends : ∀ c, ∃ seen,
    h.descent.Roams (fun _ => false) [] [c] ∅ seen (.exhausted (h.descendants c))
  /-- The class comes first, and then the others, each once. -/
  descendants : ∀ c, ∃ rest, (h.descendants c).toList = c :: rest ∧ rest.Nodup ∧
    ∀ d, d ∈ rest ↔ d ≠ c ∧ ReflTransGen (fun b d => d ∈ h.derivedOf b) c d

/-- However classes are recorded, the hierarchy is consistent. Its inheritances are those that were
recorded between two different classes with a name, and maps for bases and for derived classes
that are kept separately agree with it. -/
theorem consistent_ofRecordings (rs : List Recording) :
    (ofRecordings rs).Consistent ∧ ∀ d b,
      (b ∈ (ofRecordings rs).basesOf d ↔ .inherit d b ∈ rs ∧ d ≠ "" ∧ b ≠ "" ∧ d ≠ b) ∧
      ((Kin.ofRecordings rs).bases.Relates d b ↔ b ∈ (ofRecordings rs).basesOf d) ∧
      ((Kin.ofRecordings rs).derived.Relates b d ↔ d ∈ (ofRecordings rs).derivedOf b) := by
  have hclosed := closed_ofRecordings rs
  have hbases : ∀ d b, b ∈ (ofRecordings rs).basesOf d ↔
      .inherit d b ∈ rs ∧ d ≠ "" ∧ b ≠ "" ∧ d ≠ b := fun d b =>
    mem_basesOf.trans derives_ofRecordings
  refine ⟨⟨fun d b => mem_basesOf.trans mem_derivedOf.symm, fun c hc => ?_, fun d b hb => ?_,
    hclosed.roams_descent, fun c => ?_⟩, fun d b => ⟨hbases d b, ?_, ?_⟩⟩
  · exact ((hbases c c).1 hc).2.2.2 rfl
  · obtain ⟨-, hd, hb', -⟩ := (hbases d b).1 hb
    obtain ⟨hdmem, hbmem⟩ := hclosed (d, b) (mem_basesOf.1 hb)
    exact ⟨⟨hdmem, hd⟩, hbmem, hb'⟩
  · obtain ⟨rest, hrest⟩ := exists_toList_descendants (ofRecordings rs) c
    have hnodup : (c :: rest).Nodup := hrest ▸ ((ofRecordings rs).descendants c).nodup
    obtain ⟨hc, hnodup⟩ := List.nodup_cons.1 hnodup
    refine ⟨rest, hrest, hnodup, fun d => ?_⟩
    have hderives : (fun b d => d ∈ (ofRecordings rs).derivedOf b) = (ofRecordings rs).Derives :=
      funext fun b => funext fun d => propext mem_derivedOf
    rw [hderives, ← hclosed.mem_descendants, ← OrdSet.mem_toList, hrest, List.mem_cons]
    constructor
    · intro hd
      exact ⟨fun heq => hc (heq ▸ hd), .inr hd⟩
    · rintro ⟨hne, heq | hd⟩
      · exact absurd heq hne
      · exact hd
  · exact (Kin.relates_ofRecordings rs d b).1.trans mem_basesOf.symm
  · exact (Kin.relates_ofRecordings rs d b).2.trans mem_derivedOf.symm

end Hierarchy

end CallTargets
