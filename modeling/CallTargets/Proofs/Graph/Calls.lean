import CallTargets.CallGraph
import CallTargets.Proofs.Graph.Components
import CallTargets.Proofs.Graph.Search
import CallTargets.Proofs.Ordered
import Mathlib.Data.List.Pairwise

/-!
# Recursion, reachability and components of a call graph

Three passes over a call graph compute related things on their own: a search for all that a function
may come to call, a search for a way back to it, and the components of the graph on the places of
its functions. Each is compared to paths of calls: `mem_reachable` and `isRecursive_iff` for the
searches, `reaches_adjacency` for the way between functions and their places. So they agree: the
functions with a way back are those of a component of several members, or with a call of themselves
(`isRecursive_iff_of_mem`).

Main statement: `CallGraph.agrees_ofCalls`.
-/

namespace CallTargets

namespace CallGraph

variable {i j : Nat} {places : List Nat} {c : List FunctionId}

open Relation

variable {g : CallGraph} {f h : FunctionId}

/-- The graph of some calls, which are added one after another. -/
def ofCalls (calls : List (FunctionId × FunctionId)) : CallGraph :=
  calls.foldl (fun g call => g.add call.1 call.2) {}

def Calls (g : CallGraph) (f h : FunctionId) : Prop := (f, h) ∈ g.edges

theorem calls_ofCalls {calls : List (FunctionId × FunctionId)} :
    (ofCalls calls).Calls f h ↔ (f, h) ∈ calls := by
  have hstep (g : CallGraph) (call : FunctionId × FunctionId) :
      (g.add call.1 call.2).Calls f h ↔ g.Calls f h ∨ (f, h) = call := OrdSet.mem_insert
  have hnone : ¬ Calls {} f h := OrdSet.not_mem_empty (f, h)
  refine (foldl_adds_iff (P := (Calls · f h)) (fun g call _ => hstep g call) {}).trans ?_
  rw [or_iff_right hnone, exists_eq_right']

theorem mem_callees : h ∈ g.callees f ↔ g.Calls f h := by
  simp only [callees, Calls, List.mem_map, List.mem_filter, decide_eq_true_eq]
  constructor
  · rintro ⟨⟨f', h'⟩, ⟨hmem, rfl⟩, rfl⟩
    exact hmem
  · exact fun hmem => ⟨(f, h), ⟨hmem, rfl⟩, rfl⟩

theorem mem_nodes : f ∈ g.nodes ↔ ∃ h, g.Calls f h ∨ g.Calls h f := by
  simp only [nodes, OrdSet.mem_ofList, List.mem_flatMap, Calls]
  constructor
  · rintro ⟨⟨caller, callee⟩, hmem, hf⟩
    rcases List.mem_pair.1 hf with rfl | rfl
    · exact ⟨callee, .inl hmem⟩
    · exact ⟨caller, .inr hmem⟩
  · rintro ⟨h, hmem | hmem⟩
    · exact ⟨(f, h), hmem, List.mem_cons_self⟩
    · exact ⟨(h, f), hmem, List.mem_cons_of_mem _ List.mem_cons_self⟩

theorem Calls.caller_mem (hcalls : g.Calls f h) : f ∈ g.nodes := mem_nodes.2 ⟨h, .inl hcalls⟩

theorem Calls.callee_mem (hcalls : g.Calls f h) : h ∈ g.nodes := mem_nodes.2 ⟨f, .inr hcalls⟩

/-! ## Searches -/

theorem mem_nodesWith_of_callees {v w : FunctionId} (hw : w ∈ (g.callees v).reverse) :
    w ∈ g.nodesWith f := by
  have hnode : w ∈ g.nodes := (mem_callees.1 (List.mem_reverse.1 hw)).callee_mem
  exact OrdSet.mem_ofList.2 (List.mem_cons_of_mem f hnode)

theorem self_mem_nodesWith : f ∈ g.nodesWith f := OrdSet.mem_ofList.2 List.mem_cons_self

theorem nodup_nodesWith : (g.nodesWith f).Nodup := (OrdSet.ofList _).nodup

theorem mem_reachable : h ∈ g.reachable f ↔ ReflTransGen g.Calls f h := by
  obtain ⟨seen, hreachable, hseen⟩ : ∃ seen : List FunctionId,
      g.reachable f = seen.foldl OrdSet.insert ∅ ∧
        ∀ v, v ∈ seen ↔ ReflTransGen (Search.Leads fun v => (g.callees v).reverse) f v :=
    Search.explore_eq_foldl (fun _ _ => rfl) (fun _ _ => rfl) ∅ nodup_nodesWith
      self_mem_nodesWith fun _ _ hw => mem_nodesWith_of_callees hw
  have hleads : (Search.Leads fun v => (g.callees v).reverse) = g.Calls := by
    funext v w
    exact propext (List.mem_reverse.trans mem_callees)
  rw [hreachable, ← hleads, ← hseen]
  exact OrdSet.mem_ofList

theorem isRecursive_eq (g : CallGraph) (f : FunctionId) :
    g.isRecursive f = (((g.seeking f).run (g.nodesWith f) [f] ()).2.answer?).isSome := by
  unfold isRecursive
  cases ((g.seeking f).run (g.nodesWith f) [f] ()).2 <;> rfl

theorem isRecursive_iff : g.isRecursive f = true ↔ TransGen g.Calls f f := by
  rw [isRecursive_eq]
  constructor
  · intro hanswer
    rcases hrun : (g.seeking f).run (g.nodesWith f) [f] () with ⟨left, answer | state⟩
    · -- calls lead from `f` to whatever waits, and so to the function that ends the search
      have hkeeps : (g.seeking f).Keeps fun _ todo _ => ∀ v ∈ todo, ReflTransGen g.Calls f v := by
        constructor
        · intro fresh todo v s s' next hinv _ hvisit w hw
          simp only [seeking] at hvisit
          split at hvisit
          · cases hvisit
          · cases hvisit
            rcases Turn.mem_join.1 hw with hw | hw
            · exact (hinv v List.mem_cons_self).tail (mem_callees.1 (List.mem_reverse.1 hw))
            · exact hinv w (List.mem_cons_of_mem v hw)
        · intro fresh todo v s hinv _ w hw
          exact hinv w (List.mem_cons_of_mem v hw)
      obtain ⟨fresh, v, todo, s, hinv, -, hstop⟩ := hkeeps.answered
        (fun v hv => List.mem_singleton.1 hv ▸ .refl) hrun
      simp only [seeking] at hstop
      split at hstop
      · rename_i hcontains
        have hback : g.Calls v f := mem_callees.1 (List.contains_iff_mem.1 hcontains)
        exact .tail' (hinv v List.mem_cons_self) hback
      · cases hstop
    · rw [hrun] at hanswer
      cases hanswer
  · intro hpath
    rcases hrun : (g.seeking f).run (g.nodesWith f) [f] () with ⟨left, answer | state⟩
    · rfl
    · obtain ⟨u, hto, hback⟩ := TransGen.tail'_iff.1 hpath
      obtain ⟨Seen, hstart, hclosed⟩ := Search.closed_of_exhausted nodup_nodesWith hrun
      -- what was seen calls only what was seen, and never `f`
      have hstep : ∀ v, Seen v → ¬ g.Calls v f ∧ ∀ w, g.Calls v w → Seen w := by
        intro v hv
        obtain ⟨next, hvisit, hnext⟩ := hclosed v hv
        simp only [seeking] at hvisit
        split at hvisit
        · cases hvisit
        · rename_i hcontains
          cases hvisit
          refine ⟨fun hcall => hcontains (List.contains_iff_mem.2 (mem_callees.2 hcall)), ?_⟩
          intro w hcall
          have hw : w ∈ (g.callees v).reverse := List.mem_reverse.2 (mem_callees.2 hcall)
          exact hnext w hw (mem_nodesWith_of_callees hw)
      have hseen : Seen u := by
        clear hback
        induction hto with
        | refl => exact hstart f List.mem_cons_self self_mem_nodesWith
        | tail _ hcall ih => exact (hstep _ ih).2 _ hcall
      exact absurd hback (hstep u hseen).1

/-! ## Functions and their places -/

def At (g : CallGraph) (i : Nat) (f : FunctionId) : Prop := g.nodes.toList[i]? = some f

theorem At.lt (hi : g.At i f) : i < g.adjacency.size := by
  obtain ⟨hlt, -⟩ := List.getElem?_eq_some_iff.1 hi
  simpa [adjacency] using hlt

theorem At.mem (hi : g.At i f) : f ∈ g.nodes := List.mem_of_getElem? hi

theorem At.unique (hi : g.At i f) (hj : g.At j f) : i = j := by
  obtain ⟨hlt, heq⟩ := List.getElem?_eq_some_iff.1 hi
  obtain ⟨hlt', heq'⟩ := List.getElem?_eq_some_iff.1 hj
  exact (g.nodes.nodup.getElem_inj_iff).1 (heq.trans heq'.symm)

theorem exists_at_of_mem (hf : f ∈ g.nodes) : ∃ i, g.At i f := List.getElem?_of_mem hf

theorem exists_at_of_lt (hi : i < g.adjacency.size) : ∃ f, g.At i f := by
  have hlt : i < g.nodes.toList.length := by simpa [adjacency] using hi
  exact ⟨_, List.getElem?_eq_getElem hlt⟩

theorem idxOf?_eq_some_iff : g.nodes.toList.idxOf? f = some i ↔ g.At i f := by
  constructor
  · intro hidx
    obtain ⟨hlt, heq, -⟩ := List.findIdx?_eq_some_iff_getElem.1 hidx
    rw [At, List.getElem?_eq_getElem hlt, eq_of_beq heq]
  · intro hi
    cases hidx : g.nodes.toList.idxOf? f with
    | none => exact absurd hi.mem (List.idxOf?_eq_none_iff.1 hidx)
    | some j =>
      obtain ⟨hlt, heq, -⟩ := List.findIdx?_eq_some_iff_getElem.1 hidx
      have hj : g.At j f := by rw [At, List.getElem?_eq_getElem hlt, eq_of_beq heq]
      rw [hj.unique hi]

theorem mem_succ_adjacency (hi : g.At i f) :
    j ∈ g.adjacency.succ i ↔ ∃ h, g.At j h ∧ g.Calls f h := by
  have hsucc : g.adjacency.succ i = (g.callees f).filterMap (g.nodes.toList.idxOf? ·) := by
    rw [Adjacency.succ, adjacency, List.getElem?_toArray, List.getElem?_map, hi]
    rfl
  simp only [hsucc, List.mem_filterMap, idxOf?_eq_some_iff, mem_callees, and_comm]

theorem reaches_adjacency (hi : g.At i f) (hj : g.At j h) :
    g.adjacency.Reaches i j ↔ ReflTransGen g.Calls f h := by
  constructor
  · intro hpath
    induction hpath generalizing h with
    | refl =>
      cases hi.symm.trans hj
      exact .refl
    | tail _ hedge ih =>
      rename_i k l hpath
      -- a path from a function stays among functions
      have hk : k < g.adjacency.size := by
        rcases hpath.cases_tail with rfl | ⟨u, -, hlast⟩
        · exact hi.lt
        · exact hlast.2
      obtain ⟨u, hu⟩ := exists_at_of_lt hk
      obtain ⟨h', hh', hcall⟩ := (mem_succ_adjacency hu).1 hedge.1
      cases hj.symm.trans hh'
      exact (ih hu).tail hcall
  · intro hpath
    induction hpath generalizing j with
    | refl =>
      rw [hi.unique hj]
      exact .refl
    | tail _ hcall ih =>
      obtain ⟨k, hk⟩ := exists_at_of_mem hcall.caller_mem
      exact (ih hk).tail ⟨(mem_succ_adjacency hk).2 ⟨_, hj, hcall⟩, hj.lt⟩

/-! ## Components -/

def functionsAt (g : CallGraph) (places : List Nat) : List FunctionId :=
  places.filterMap (g.nodes.toList[·]?)

theorem components_eq (g : CallGraph) :
    g.components = g.adjacency.components.map g.functionsAt := rfl

theorem mem_functionsAt : f ∈ g.functionsAt places ↔ ∃ i ∈ places, g.At i f := List.mem_filterMap

theorem lt_of_mem_component {c : List Nat} (hc : c ∈ g.adjacency.components) (hi : i ∈ c) :
    i < g.adjacency.size := by
  have hflat : i ∈ g.adjacency.components.flatten := List.mem_flatten.2 ⟨c, hc, hi⟩
  exact List.mem_range.1 (g.adjacency.perm_flatten_components.mem_iff.1 hflat)

theorem length_functionsAt (h : ∀ i ∈ places, i < g.adjacency.size) :
    (g.functionsAt places).length = places.length := by
  induction places with
  | nil => rfl
  | cons i places ih =>
    obtain ⟨f, hf⟩ := exists_at_of_lt (h i List.mem_cons_self)
    rw [functionsAt, List.filterMap_cons_some hf, List.length_cons, List.length_cons]
    exact congrArg (· + 1) (ih fun j hj => h j (List.mem_cons_of_mem i hj))

theorem functionsAt_range (g : CallGraph) :
    g.functionsAt (List.range g.adjacency.size) = g.nodes.toList := by
  have hrange : ∀ fs : List FunctionId, (List.range fs.length).filterMap (fs[·]?) = fs := by
    intro fs
    induction fs with
    | nil => rfl
    | cons f fs ih =>
      have hhead : (f :: fs)[0]? = some f := rfl
      rw [List.length_cons, List.range_succ_eq_map, List.filterMap_cons_some hhead,
        List.filterMap_map]
      exact congrArg (f :: ·) ih
  have hsize : g.adjacency.size = g.nodes.toList.length := by simp [adjacency]
  rw [hsize]
  exact hrange g.nodes.toList

theorem perm_flatten_components (g : CallGraph) : g.components.flatten.Perm g.nodes.toList := by
  have hflat : g.components.flatten = g.functionsAt g.adjacency.components.flatten := by
    rw [components_eq, functionsAt, List.filterMap_flatten]
    rfl
  rw [hflat, ← functionsAt_range]
  exact g.adjacency.perm_flatten_components.filterMap _

theorem nodup_flatten_components (g : CallGraph) : g.components.flatten.Nodup :=
  g.perm_flatten_components.nodup_iff.2 g.nodes.nodup

theorem nil_notMem_components (g : CallGraph) : [] ∉ g.components := by
  intro hnil
  obtain ⟨places, hplaces, hempty⟩ := List.mem_map.1 hnil
  have hlength : (g.functionsAt places).length = places.length :=
    length_functionsAt fun i => lt_of_mem_component hplaces
  obtain rfl : places = [] := List.length_eq_zero_iff.1 (hlength ▸ List.length_eq_zero_iff.2 hempty)
  rw [Adjacency.components, List.mem_reverse] at hplaces
  exact g.adjacency.finalPass_spec.1.nonempty hplaces

theorem exists_component_iff :
    (∃ c ∈ g.components, f ∈ c ∧ h ∈ c) ↔
      f ∈ g.nodes ∧ ReflTransGen g.Calls f h ∧ ReflTransGen g.Calls h f := by
  constructor
  · rintro ⟨c, hc, hf, hh⟩
    obtain ⟨places, hplaces, rfl⟩ := List.mem_map.1 hc
    obtain ⟨i, hi, hif⟩ := mem_functionsAt.1 hf
    obtain ⟨j, hj, hjh⟩ := mem_functionsAt.1 hh
    obtain ⟨-, hto, hback⟩ := Adjacency.exists_component_iff.1 ⟨places, hplaces, hi, hj⟩
    exact ⟨hif.mem, (reaches_adjacency hif hjh).1 hto, (reaches_adjacency hjh hif).1 hback⟩
  · rintro ⟨hf, hto, hback⟩
    have hh : h ∈ g.nodes := by
      rcases hto.cases_tail with rfl | ⟨u, -, hcall⟩
      · exact hf
      · exact hcall.callee_mem
    obtain ⟨i, hi⟩ := exists_at_of_mem hf
    obtain ⟨j, hj⟩ := exists_at_of_mem hh
    obtain ⟨c, hc, hic, hjc⟩ := Adjacency.exists_component_iff.2
      ⟨hi.lt, (reaches_adjacency hi hj).2 hto, (reaches_adjacency hj hi).2 hback⟩
    exact ⟨_, List.mem_map.2 ⟨c, hc, rfl⟩, mem_functionsAt.2 ⟨i, hic, hi⟩,
      mem_functionsAt.2 ⟨j, hjc, hj⟩⟩

theorem mem_component_iff (hc : c ∈ g.components) (hf : f ∈ c) :
    h ∈ c ↔ ReflTransGen g.Calls f h ∧ ReflTransGen g.Calls h f := by
  constructor
  · exact fun hh => (exists_component_iff.1 ⟨c, hc, hf, hh⟩).2
  · intro hpaths
    have hnode : f ∈ g.nodes :=
      g.perm_flatten_components.mem_iff.1 (List.mem_flatten.2 ⟨c, hc, hf⟩)
    obtain ⟨d, hd, hfd, hhd⟩ := exists_component_iff.2 ⟨hnode, hpaths⟩
    have hdisjoint := (List.nodup_flatten.1 g.nodup_flatten_components).2
    have hsymm : Std.Symm (List.Disjoint : List FunctionId → List FunctionId → Prop) :=
      ⟨fun _ _ hcd _ hd hc => hcd hc hd⟩
    by_contra hh
    have hne : c ≠ d := fun heq => hh (heq ▸ hhd)
    exact hdisjoint.forall hc hd hne hf hfd

theorem pairwise_components (g : CallGraph) :
    g.components.Pairwise fun earlier later => ∀ f ∈ earlier, ∀ h ∈ later, ¬ g.Calls f h := by
  rw [components_eq, List.pairwise_map, List.pairwise_iff_getElem]
  intro i j hi hj hlt f hf h hh hcall
  obtain ⟨v, hv, hvf⟩ := mem_functionsAt.1 hf
  obtain ⟨w, hw, hwh⟩ := mem_functionsAt.1 hh
  have hle := Adjacency.le_of_reaches (List.getElem?_eq_getElem hi) (List.getElem?_eq_getElem hj)
    hv hw ((reaches_adjacency hvf hwh).2 (.single hcall))
  omega

/-! ## Recursion -/

theorem one_lt_length_iff (hnodup : c.Nodup) (hf : f ∈ c) : 1 < c.length ↔ ∃ h ∈ c, h ≠ f := by
  rcases c with _ | ⟨a, _ | ⟨b, c⟩⟩
  · cases hf
  · obtain rfl := List.mem_singleton.1 hf
    simp
  · refine iff_of_true (by simp) ?_
    by_cases ha : a = f
    · subst ha
      have hab : a ≠ b := fun heq => (List.nodup_cons.1 hnodup).1 (heq ▸ List.mem_cons_self)
      exact ⟨b, List.mem_cons_of_mem a List.mem_cons_self, hab.symm⟩
    · exact ⟨a, List.mem_cons_self, ha⟩

/-- A function is recursive exactly if its component has several members, or if it calls
itself. -/
theorem isRecursive_iff_of_mem (hc : c ∈ g.components) (hf : f ∈ c) :
    g.isRecursive f = true ↔ 1 < c.length ∨ g.Calls f f := by
  have hnodup : c.Nodup := (List.nodup_flatten.1 g.nodup_flatten_components).1 c hc
  rw [isRecursive_iff, one_lt_length_iff hnodup hf]
  constructor
  · intro hpath
    -- what the function calls first on its way back is in its component
    obtain ⟨u, hcall, hback⟩ := TransGen.head'_iff.1 hpath
    have hu : u ∈ c := (mem_component_iff hc hf).2 ⟨.single hcall, hback⟩
    by_cases heq : u = f
    · exact .inr (heq ▸ hcall)
    · exact .inl ⟨u, hu, heq⟩
  · rintro (⟨h, hh, hne⟩ | hcall)
    · obtain ⟨hto, hback⟩ := (mem_component_iff hc hf).1 hh
      have hto' : TransGen g.Calls f h :=
        (reflTransGen_iff_eq_or_transGen.1 hto).resolve_left hne
      exact hto'.trans_left hback
    · exact .single hcall

theorem isCyclic_eq (hplaces : places ∈ g.adjacency.components) :
    g.adjacency.isCyclic places = (g.functionsAt places).any g.isRecursive := by
  have hc : g.functionsAt places ∈ g.components := List.mem_map.2 ⟨places, hplaces, rfl⟩
  have hlength : (g.functionsAt places).length = places.length :=
    length_functionsAt fun i => lt_of_mem_component hplaces
  rw [Bool.eq_iff_iff, List.any_eq_true]
  rcases places with _ | ⟨i, _ | ⟨j, places⟩⟩
  · exact absurd hc g.nil_notMem_components
  · obtain ⟨f, hf⟩ := exists_at_of_lt (lt_of_mem_component hplaces List.mem_cons_self)
    have hmem : f ∈ g.functionsAt [i] := mem_functionsAt.2 ⟨i, List.mem_cons_self, hf⟩
    have hself : g.isRecursive f = true ↔ g.Calls f f := by
      rw [isRecursive_iff_of_mem hc hmem, hlength]
      exact or_iff_right (Nat.lt_irrefl 1)
    rw [Adjacency.isCyclic, List.contains_iff_mem, mem_succ_adjacency hf]
    constructor
    · rintro ⟨h, hh, hcall⟩
      cases hf.symm.trans hh
      exact ⟨f, hmem, hself.2 hcall⟩
    · rintro ⟨h, hh, hrecursive⟩
      obtain ⟨k, hk, hkh⟩ := mem_functionsAt.1 hh
      obtain rfl := List.mem_singleton.1 hk
      cases hf.symm.trans hkh
      exact ⟨f, hf, hself.1 hrecursive⟩
  · have hmany : 1 < (g.functionsAt (i :: j :: places)).length := by
      rw [hlength, List.length_cons, List.length_cons]
      omega
    obtain ⟨f, hf⟩ := List.exists_mem_of_length_pos (Nat.zero_lt_of_lt hmany)
    have hrecursive : g.isRecursive f = true := (isRecursive_iff_of_mem hc hf).2 (.inl hmany)
    exact iff_of_true (by simp [Adjacency.isCyclic]) ⟨f, hf, hrecursive⟩

theorem cyclic_stats (g : CallGraph) :
    g.stats.cyclic = (g.components.filter fun c => c.any g.isRecursive).length := by
  rw [components_eq, List.filter_map, List.length_map]
  exact congrArg List.length (List.filter_congr fun places hplaces => isCyclic_eq hplaces)

/-! ## All together -/

/-- What the questions to a call graph say about the calls in it, and about each other. -/
structure Agrees (calls : List (FunctionId × FunctionId)) (g : CallGraph) : Prop where
  /-- The functions are those that a call starts from or leads to. -/
  nodes : ∀ f, f ∈ g.nodes ↔ ∃ h, (f, h) ∈ calls ∨ (h, f) ∈ calls
  reachable : ∀ f h, h ∈ g.reachable f ↔ ReflTransGen (fun f h => (f, h) ∈ calls) f h
  recursive : ∀ f, g.isRecursive f = true ↔ TransGen (fun f h => (f, h) ∈ calls) f f
  partition : g.components.flatten.Perm g.nodes.toList ∧ [] ∉ g.components
  shared : ∀ f h, (∃ c ∈ g.components, f ∈ c ∧ h ∈ c) ↔
    f ∈ g.nodes ∧ h ∈ g.reachable f ∧ f ∈ g.reachable h
  order : g.components.Pairwise fun earlier later => ∀ f ∈ earlier, ∀ h ∈ later, (f, h) ∉ calls
  cyclic : ∀ c ∈ g.components, ∀ f ∈ c, g.isRecursive f = true ↔ 1 < c.length ∨ (f, f) ∈ calls
  count : g.stats.cyclic = (g.components.filter fun c => c.any g.isRecursive).length

/-- **Recursion, reachability and components.** Whichever calls are added to a graph, in whichever
order: the reachable functions are those at the ends of paths, the recursive ones those with a path
back, the components are the classes of functions that reach each other, callees first, and the
cyclic ones are those with a recursive function. -/
theorem agrees_ofCalls (calls : List (FunctionId × FunctionId)) :
    Agrees calls (ofCalls calls) := by
  have hcalls : (ofCalls calls).Calls = fun f h => (f, h) ∈ calls := by
    funext f h
    exact propext calls_ofCalls
  constructor
  · intro f
    rw [mem_nodes, hcalls]
  · intro f h
    rw [mem_reachable, hcalls]
  · intro f
    rw [isRecursive_iff, hcalls]
  · exact ⟨perm_flatten_components _, nil_notMem_components _⟩
  · intro f h
    rw [mem_reachable, mem_reachable]
    exact exists_component_iff
  · have hpairwise := (ofCalls calls).pairwise_components
    rwa [hcalls] at hpairwise
  · intro c hc f hf
    rw [isRecursive_iff_of_mem hc hf, hcalls]
  · exact cyclic_stats _

/-- Two functions that call each other, and below them one that calls itself. -/
example : (ofCalls [(0, 1), (1, 0), (1, 2), (2, 2), (2, 3)]).components =
    [[3], [2], [0, 1]] := by decide

end CallGraph

end CallTargets
