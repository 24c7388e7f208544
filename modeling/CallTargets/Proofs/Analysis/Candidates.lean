import CallTargets.Proofs.Layer.Stored

/-!
# The candidates of indirect calls

While modules are prepared, each function that an indirect call may reach is added to the functions
whose address is taken, and to those of its own signature. Behind the last module, definitions take
the places of declarations in both. A definition has the signature of the declarations that it
stands for, so it takes their places under one signature, and nothing has to move
(`Store.IsIndex.linkCandidates`). What the modules contribute does not depend on their order, and
which of them is the last one does not matter either.

Main statement: `Strategy.candidates_exact`.
-/

namespace CallTargets

/-- Some module lists the function, its address is taken, and by its name it is neither an
intrinsic nor a method. -/
structure Program.Offers (p : Program) (f : FunctionId) : Prop where
  listed : ∃ m ∈ p.modules.toList, f ∈ m.functions
  function : ∃ fn, p.function? f = some fn ∧ fn.addressTaken = true ∧
    Text.startsWith fn.name "llvm." = false ∧ Text.startsWith fn.name "_ZN" = false

theorem Program.offers_iff {p : Program} {f : FunctionId} :
    p.Offers f ↔ ∃ m ∈ p.modules.toList, f ∈ m.functions ∧
      (p.function? f).any Store.isCandidate = true := by
  have hcandidate (fn : Function) : Store.isCandidate fn = true ↔ fn.addressTaken = true ∧
      Text.startsWith fn.name "llvm." = false ∧ Text.startsWith fn.name "_ZN" = false := by
    simp only [Store.isCandidate, Bool.and_eq_true, Bool.not_eq_true', and_assoc]
    rfl
  simp only [Option.any_eq_true, hcandidate]
  constructor
  · rintro ⟨⟨m, hm, hf⟩, hfunction⟩
    exact ⟨m, hm, hf, hfunction⟩
  · rintro ⟨m, hm, hf, hfunction⟩
    exact ⟨⟨m, hm, hf⟩, hfunction⟩

namespace Store

variable {view : View} {s t : Store} {f : FunctionId}

/-! ## Candidates by signature -/

/-- The functions whose address is taken are listed under their signatures, and no signature is
without functions. -/
structure IsIndex (view : View) (s : Store) : Prop where
  bucket : ∀ key f, f ∈ s.withSignature key ↔ f ∈ s.addressTaken ∧ view.signatureOf f = key
  nonempty : s.buckets.All fun _ fs => ∃ f, f ∈ fs

namespace IsIndex

theorem empty (view : View) : IsIndex view {} where
  bucket key f := by
    constructor
    · exact fun hf => absurd hf (OrdSet.not_mem_empty f)
    · exact fun hf => absurd hf.1 (OrdSet.not_mem_empty f)
  nonempty := .empty

theorem same (h : s.IsIndex view) (hsame : SameCandidates s t) : t.IsIndex view := by
  constructor
  · intro key f
    rw [withSignature, hsame.buckets, hsame.addressTaken]
    exact h.bucket key f
  · rw [hsame.buckets]
    exact h.nonempty

theorem addCandidate (h : s.IsIndex view) (g : FunctionId) :
    (s.addCandidate (view.signatureOf g) g).IsIndex view := by
  constructor
  · intro key f
    have hbucket : f ∈ (s.addCandidate (view.signatureOf g) g).withSignature key ↔
        f ∈ s.withSignature key ∨ key = view.signatureOf g ∧ f = g := OrdMap.relates_add
    have htaken : f ∈ (s.addCandidate (view.signatureOf g) g).addressTaken ↔
        f ∈ s.addressTaken ∨ f = g := OrdSet.mem_insert
    rw [hbucket, htaken, h.bucket]
    constructor
    · rintro (⟨hf, hkey⟩ | ⟨rfl, rfl⟩)
      · exact ⟨.inl hf, hkey⟩
      · exact ⟨.inr rfl, rfl⟩
    · rintro ⟨hf | rfl, hkey⟩
      · exact .inl ⟨hf, hkey⟩
      · exact .inr ⟨hkey.symm, rfl⟩
  · exact h.nonempty.alter fun fs _ => ⟨g, OrdSet.mem_insert.2 (.inr rfl)⟩

theorem addCandidates (h : s.IsIndex view) (m : Module) :
    (s.addCandidates view m).IsIndex view := by
  rw [Store.addCandidates]
  exact List.foldlRecOn _ _ h fun _ hs f _ => hs.addCandidate f

theorem linkCandidates (h : s.IsIndex view) : (s.linkCandidates view).IsIndex view := by
  constructor
  · intro key f
    have hbucket : f ∈ (s.linkCandidates view).withSignature key ↔
        ∃ g ∈ s.withSignature key, view.definitionOf g = f := by
      unfold withSignature Store.linkCandidates
      rw [OrdMap.get?_mapValues]
      cases s.buckets.get? key with
      | none => simp
      | some fs => exact OrdSet.mem_image
    have htaken : f ∈ (s.linkCandidates view).addressTaken ↔
        ∃ g ∈ s.addressTaken, view.definitionOf g = f := OrdSet.mem_image
    rw [hbucket, htaken]
    constructor
    · rintro ⟨g, hg, rfl⟩
      obtain ⟨htaken, hkey⟩ := (h.bucket key g).1 hg
      exact ⟨⟨g, htaken, rfl⟩, (view.signatureOf_definitionOf g).trans hkey⟩
    · rintro ⟨⟨g, hg, rfl⟩, hkey⟩
      rw [view.signatureOf_definitionOf] at hkey
      exact ⟨g, (h.bucket key g).2 ⟨hg, hkey⟩, rfl⟩
  · refine h.nonempty.mapValues fun key fs hfs => ?_
    obtain ⟨g, hg⟩ := hfs
    exact ⟨view.definitionOf g, OrdSet.mem_image.2 ⟨g, hg, rfl⟩⟩

theorem storeOf (view : View) (ms : List Module) : (Strategy.storeOf view ms).IsIndex view :=
  List.foldlRecOn _ _ (empty view) fun s hs m _ =>
    (hs.same (.addModule view s m)).addCandidates m

end IsIndex

end Store

/-! ## Modules in any order -/

theorem Program.Valid.exists_perm_modules {p : Program} (hp : p.Valid) {order : List ModuleId}
    (h : order.Perm p.moduleIds) :
    ∃ ms : List Module, ms.Perm p.modules.toList ∧ order = ms.map Module.id := by
  have hmodules : p.moduleIds.filterMap p.module? = p.modules.toList := by
    rw [moduleIds, List.filterMap_map]
    refine (List.filterMap_congr fun m hm => ?_).trans List.filterMap_some
    exact hp.module?_id hm
  have hids : ∀ id ∈ order, ∃ m, p.module? id = some m ∧ m.id = id := by
    intro id hid
    obtain ⟨m, hm, rfl⟩ := List.mem_map.1 (h.mem_iff.1 hid)
    exact ⟨m, hp.module?_id hm, rfl⟩
  refine ⟨order.filterMap p.module?, hmodules ▸ h.filterMap p.module?, ?_⟩
  clear h
  induction order with
  | nil => rfl
  | cons id order ih =>
    obtain ⟨m, hm, hname⟩ := hids id List.mem_cons_self
    rw [List.filterMap_cons_some hm, List.map_cons, hname,
      ← ih fun id' hid' => hids id' (List.mem_cons_of_mem id hid')]

namespace Strategy

variable {strategy : Strategy} {p : Program} {f : FunctionId}

def preparedIn [Hasher] (strategy : Strategy) (p : Program) (order : List ModuleId) : Analysis :=
  order.foldl (Analysis.prepare strategy) (Analysis.start p)

theorem sameCandidates_last [Hasher] {ms : List Module} {m : Module}
    (hsize : ms.length + 1 = p.modules.size) :
    Store.SameCandidates
      ((storeOf (View.ofProgram p).link (ms ++ [m])).linkCandidates (View.ofProgram p).link)
      ((strategy.halfway p ms).prepareModule strategy m).store := by
  have hlast : (strategy.halfway p ms).isLast = true := decide_eq_true hsize
  rw [prepareModule_eq, storeOf_append]
  simp only [hlast, Bool.and_true, if_true]
  split
  · exact ⟨rfl, rfl⟩
  · exact .refl _

theorem sameCandidates_preparedIn [Hasher] (strategy : Strategy) (hp : p.Valid) {ms : List Module}
    (hms : ms.Perm p.modules.toList) (hne : ms ≠ []) :
    Store.SameCandidates
      ((storeOf (View.ofProgram p).link ms).linkCandidates (View.ofProgram p).link)
      (strategy.preparedIn p (ms.map Module.id)).store := by
  obtain ⟨init, m, rfl⟩ : ∃ init m, ms = init ++ [m] :=
    ⟨_, _, (List.dropLast_append_getLast hne).symm⟩
  have hsize : init.length + 1 = p.modules.size := by
    rw [← Array.length_toList, ← hms.length_eq, List.length_append, List.length_singleton]
  rw [preparedIn, strategy.foldl_prepare_last hp (fun m' hm' => hms.mem_iff.1 hm') hsize]
  exact sameCandidates_last hsize

theorem isIndex_preparedIn [Hasher] (strategy : Strategy) (hp : p.Valid) {order : List ModuleId}
    (horder : order.Perm p.moduleIds) :
    (strategy.preparedIn p order).store.IsIndex (View.ofProgram p).link ∧
      ∀ f, f ∈ (strategy.preparedIn p order).store.addressTaken ↔
        ∃ g, p.Offers g ∧ (View.ofProgram p).link.definitionOf g = f := by
  obtain ⟨ms, hms, rfl⟩ := hp.exists_perm_modules horder
  by_cases hne : ms = []
  · subst hne
    refine ⟨.empty _, fun f => iff_of_false (OrdSet.not_mem_empty f) ?_⟩
    rintro ⟨g, hg, -⟩
    obtain ⟨m, hm, -⟩ := hg.listed
    rw [hms.symm.eq_nil] at hm
    cases hm
  · have hsame := strategy.sameCandidates_preparedIn hp hms hne
    refine ⟨(Store.IsIndex.storeOf _ ms).linkCandidates.same hsame, fun f => ?_⟩
    have hlinked : f ∈ ((storeOf (View.ofProgram p).link ms).linkCandidates
        (View.ofProgram p).link).addressTaken ↔
          ∃ g ∈ (storeOf (View.ofProgram p).link ms).addressTaken,
            (View.ofProgram p).link.definitionOf g = f := OrdSet.mem_image
    rw [hsame.addressTaken, hlinked]
    refine exists_congr fun g => and_congr_left fun _ => ?_
    rw [Store.mem_addressTaken_storeOf, Program.offers_iff]
    exact exists_congr fun m => and_congr_left fun _ => hms.mem_iff

theorem isIndex_prepared [Hasher] (strategy : Strategy) (hp : p.Valid) :
    (strategy.prepared p).store.IsIndex (View.ofProgram p).link :=
  (strategy.isIndex_preparedIn hp (.refl _)).1

/-- **The candidates of indirect calls.** Once all modules of a valid program are prepared, in
whichever order, the functions whose address is taken are the definitions behind those that the
modules offer. Each is listed under the hash of its signature and no other one, and unless two
signatures that differ have the same hash, under each signature the functions that have it are
listed. No hash is without functions. As sets, none of these depends on the order. -/
theorem candidates_exact [Hasher] (hp : p.Valid) (strategy : Strategy) {order : List ModuleId}
    (horder : order.Perm p.moduleIds) :
    (∀ f, f ∈ (strategy.preparedIn p order).store.addressTaken ↔
      ∃ g, p.Offers g ∧ (View.ofProgram p).link.definitionOf g = f) ∧
    (∀ key f, f ∈ (strategy.preparedIn p order).store.withSignature key ↔
      f ∈ (strategy.preparedIn p order).store.addressTaken ∧
        (View.ofProgram p).link.signatureOf f = key) ∧
    (p.SignaturesApart → ∀ t, p.HasType t → ∀ f,
      f ∈ (strategy.preparedIn p order).store.withSignature
          ((View.ofProgram p).link.signature t) ↔
        f ∈ (strategy.preparedIn p order).store.addressTaken ∧
          p.writtenSignature f = p.types.signatureText t) ∧
    (∀ key fs, (strategy.preparedIn p order).store.buckets.get? key = some fs → ∃ f, f ∈ fs) ∧
    ∀ order' : List ModuleId, order'.Perm p.moduleIds →
      (∀ f, f ∈ (strategy.preparedIn p order').store.addressTaken ↔
        f ∈ (strategy.preparedIn p order).store.addressTaken) ∧
      ∀ key f, f ∈ (strategy.preparedIn p order').store.withSignature key ↔
        f ∈ (strategy.preparedIn p order).store.withSignature key := by
  obtain ⟨hindex, htaken⟩ := strategy.isIndex_preparedIn hp horder
  refine ⟨htaken, hindex.bucket, fun hapart t ht f => ?_,
    fun key fs hfs => hindex.nonempty.of_get? hfs, fun order' horder' => ?_⟩
  · rw [hindex.bucket]
    refine and_congr_right fun hf => ?_
    obtain ⟨g, hg, rfl⟩ := (htaken f).1 hf
    obtain ⟨m, hm, hlisted⟩ := hg.listed
    exact hapart.signatureOf_eq_iff hp ((View.valid_ofProgram hp).link.hasFunction_definitionOf
      (hp.hasFunction_of_mem_module hm hlisted)) ht
  obtain ⟨hindex', htaken'⟩ := strategy.isIndex_preparedIn hp horder'
  have hsame : ∀ f, f ∈ (strategy.preparedIn p order').store.addressTaken ↔
      f ∈ (strategy.preparedIn p order).store.addressTaken := fun f =>
    (htaken' f).trans (htaken f).symm
  refine ⟨hsame, fun key f => ?_⟩
  rw [hindex'.bucket, hindex.bucket, hsame]

attribute [local instance] Hasher.digits

/-- The module with the declaration of `f` comes first, and the one with its definition last. -/
theorem candidates_exact_storedField :
    storedField.Valid ∧ [1, 0].Perm storedField.moduleIds ∧
      storedField.Offers 1 ∧ (View.ofProgram storedField).link.definitionOf 1 = 0 ∧
      0 ∈ (layerwise.preparedIn storedField [1, 0]).store.addressTaken ∧
      1 ∉ (layerwise.preparedIn storedField [1, 0]).store.addressTaken ∧
      storedField.SignaturesApart ∧
      0 ∈ (layerwise.preparedIn storedField [1, 0]).store.withSignature
        ((View.ofProgram storedField).link.signature 1) := by
  have horder : [1, 0].Perm storedField.moduleIds := .swap _ _ []
  have hoffers : storedField.Offers 1 := by
    refine ⟨⟨_, List.mem_cons_of_mem _ List.mem_cons_self, List.mem_cons_self⟩, ?_⟩
    exact ⟨⟨"f", 1, 1, .external, [], [], 2, true⟩, by cbv, rfl, by decide, by decide⟩
  have hdefinition : (View.ofProgram storedField).link.definitionOf 1 = 0 := by cbv
  have hapart : storedField.SignaturesApart := by decide +kernel
  have htype : storedField.HasType 1 := show 1 < storedField.types.size by decide
  have hwritten : storedField.writtenSignature 0 = storedField.types.signatureText 1 := by
    decide +kernel
  obtain ⟨htaken, -, hbucket, -⟩ := candidates_exact valid_storedField layerwise horder
  have hzero : 0 ∈ (layerwise.preparedIn storedField [1, 0]).store.addressTaken :=
    (htaken 0).2 ⟨1, hoffers, hdefinition⟩
  refine ⟨valid_storedField, horder, hoffers, hdefinition, hzero, fun hone => ?_,
    hapart, (hbucket hapart 1 htype 0).2 ⟨hzero, hwritten⟩⟩
  -- a declaration that stands for another function is nobody's definition
  obtain ⟨g, -, hg⟩ := (htaken 1).1 hone
  have hlinked := (View.valid_ofProgram valid_storedField).link.definitionOf_definitionOf g
  rw [hg, hdefinition] at hlinked
  cases hlinked

end Strategy

end CallTargets
