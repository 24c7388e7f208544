import CallTargets.Proofs.Program.Valid
import CallTargets.View

/-!
# Valid views

The definitions of a view are functions with a body that can be seen from other modules,
each under its own name (`View.Valid`). Linking keeps that, so a declaration stands for
itself or for such a function, and direct calls lead to functions that exist.
-/

namespace CallTargets

/-- The characters of a text as the digits of a number, by which samples are hashed. -/
@[reducible] def Hasher.digits : Hasher where
  hash text := .ofNat (text.toList.foldl (fun code c => 131 * code + c.toNat) 0)

/-! ## Functions that exist -/

namespace Program

variable {p : Program} {f : FunctionId} {v : ValueId}

theorem exists_function (h : p.HasFunction f) : ∃ fn, p.function? f = some fn :=
  ⟨p.functions[f.index], Array.getElem?_eq_getElem h⟩

theorem hasFunction_of_eq_some {fn : Function} (h : p.function? f = some fn) : p.HasFunction f :=
  (Array.getElem?_eq_some_iff.1 h).1

theorem mem_functionIds : f ∈ p.functionIds ↔ p.HasFunction f := by
  simp only [functionIds, List.mem_map, List.mem_range, HasFunction]
  constructor
  · rintro ⟨i, hi, rfl⟩
    exact hi
  · exact fun h => ⟨f.index, h, rfl⟩

theorem Valid.kindOk (h : p.Valid) {k : ValueKind} (hk : (p.value? v).map Value.kind = some k) :
    p.KindOk k := by
  obtain ⟨val, hval, rfl⟩ := Option.map_eq_some_iff.1 hk
  exact (h.records.value hval).kind

theorem Valid.hasFunction_base (h : p.Valid) (hf : p.baseFunction? v = some f) :
    p.HasFunction f :=
  h.kindOk (function?_bind_eq_some_iff.1 hf)

/-! ## Signatures and their hashes -/

def writtenSignature (p : Program) (f : FunctionId) : String :=
  p.types.signatureText (((p.function? f).map Function.type).getD default)

/-- No two signatures of a program that are written differently have the same hash. -/
def SignaturesApart [Hasher] (p : Program) : Prop :=
  ∀ t ∈ p.types.ids, ∀ u ∈ p.types.ids,
    Hasher.hash (p.types.signatureText t) = Hasher.hash (p.types.signatureText u) →
      p.types.signatureText t = p.types.signatureText u

instance [Hasher] (p : Program) : Decidable p.SignaturesApart :=
  inferInstanceAs (Decidable (∀ t ∈ p.types.ids, ∀ u ∈ p.types.ids, _ → _))

theorem mem_ids {t : TypeId} (h : p.HasType t) : t ∈ p.types.ids :=
  List.mem_map.2 ⟨t.index, List.mem_range.2 h, rfl⟩

theorem SignaturesApart.signatureOf_eq_iff [Hasher] (h : p.SignaturesApart) (hp : p.Valid)
    (hf : p.HasFunction f) {t : TypeId} (ht : p.HasType t) :
    (View.ofProgram p).link.signatureOf f = (View.ofProgram p).link.signature t ↔
      p.writtenSignature f = p.types.signatureText t := by
  obtain ⟨fn, hfn⟩ := exists_function hf
  have htype := (hp.records.function hfn).type
  rw [writtenSignature, View.signatureOf, show (View.ofProgram p).link.program = p from rfl, hfn,
    View.signature, View.signature, SignatureKey.mk.injEq]
  exact ⟨h _ (mem_ids htype) _ (mem_ids ht), congrArg Hasher.hash⟩

end Program

/-! ## Definitions -/

namespace View

variable {view : View} {f : FunctionId}

/-- The program is valid, and the definitions are functions with a body that can be seen
from other modules. -/
structure Valid (view : View) : Prop where
  program : view.program.Valid
  definition : ∀ {name : String} {d : FunctionId}, view.definitions.get? name = some d →
    ∃ fn, view.program.function? d = some fn ∧ fn.name = name ∧
      fn.linkage.isExternal = true ∧ fn.isDeclaration = false

theorem valid_ofProgram [Hasher] {p : Program} (h : p.Valid) : (ofProgram p).Valid :=
  ⟨h, fun hd => by simp [ofProgram] at hd⟩

theorem get?_recordDefinition {p : Program} {definitions : OrdMap String FunctionId}
    {name : String} {d : FunctionId}
    (h : (recordDefinition p definitions f).get? name = some d) :
    definitions.get? name = some d ∨ d = f ∧ ∃ fn, p.function? f = some fn ∧ fn.name = name ∧
      fn.linkage.isExternal = true ∧ fn.isDeclaration = false := by
  cases hf : p.function? f with
  | none =>
    simp only [recordDefinition, hf] at h
    exact .inl h
  | some fn =>
    obtain ⟨fname, type, module, linkage, params, blocks, value, taken⟩ := fn
    cases blocks with
    | nil =>
      simp only [recordDefinition, hf] at h
      exact .inl h
    | cons b bs =>
      simp only [recordDefinition, hf] at h
      split at h
      · rename_i hext
        rw [OrdMap.insertIfNew, OrdMap.get?_alter] at h
        split at h
        · rename_i hname
          subst hname
          cases hold : definitions.get? fname with
          | some d' =>
            rw [hold] at h
            exact .inl h
          | none =>
            rw [hold] at h
            cases h
            exact .inr ⟨rfl, _, rfl, rfl, hext, rfl⟩
        · exact .inl h
      · exact .inl h

theorem Valid.link (h : view.Valid) : view.link.Valid := by
  have hfold : ∀ (fs : List FunctionId) (definitions : OrdMap String FunctionId),
      ({ view with definitions } : View).Valid →
      ({ view with
        definitions := fs.foldl (recordDefinition view.program) definitions } : View).Valid := by
    intro fs
    induction fs with
    | nil => exact fun _ h => h
    | cons f fs ih =>
      intro definitions h
      refine ih _ ⟨h.program, fun hd => ?_⟩
      rcases get?_recordDefinition hd with hd | ⟨rfl, hf⟩
      · exact h.definition hd
      · exact hf
  exact hfold view.program.functionIds view.definitions h

theorem definitionOf_eq (view : View) (f : FunctionId) :
    view.definitionOf f = f ∨ ∃ fn, view.program.function? f = some fn ∧ fn.isDeclaration = true ∧
      view.definitions.get? fn.name = some (view.definitionOf f) ∧
      view.signatureOf (view.definitionOf f) = view.signatureOf f := by
  unfold definitionOf
  split
  · rename_i hf
    split
    · rename_i d hd
      split
      · rename_i hsig
        exact .inr ⟨_, hf, rfl, hd, hsig⟩
      · exact .inl rfl
    · exact .inl rfl
  · exact .inl rfl

theorem signatureOf_definitionOf (view : View) (f : FunctionId) :
    view.signatureOf (view.definitionOf f) = view.signatureOf f := by
  rcases view.definitionOf_eq f with heq | ⟨-, -, -, -, hsignature⟩
  · rw [heq]
  · exact hsignature

theorem Valid.hasFunction_definitionOf (h : view.Valid) (hf : view.program.HasFunction f) :
    view.program.HasFunction (view.definitionOf f) := by
  rcases view.definitionOf_eq f with heq | ⟨fn, -, -, hd, -⟩
  · rwa [heq]
  · obtain ⟨fn', hfn', -⟩ := h.definition hd
    exact Program.hasFunction_of_eq_some hfn'

theorem definitionOf_of_body {fn : Function} (hf : view.program.function? f = some fn)
    (hbody : fn.isDeclaration = false) : view.definitionOf f = f := by
  rcases view.definitionOf_eq f with heq | ⟨fn', hf', hdecl, -⟩
  · exact heq
  · cases hf.symm.trans hf'
    rw [hbody] at hdecl
    cases hdecl

theorem Valid.definitionOf_definitionOf (h : view.Valid) (f : FunctionId) :
    view.definitionOf (view.definitionOf f) = view.definitionOf f := by
  rcases view.definitionOf_eq f with heq | ⟨fn, -, -, hd, -⟩
  · rw [heq, heq]
  · obtain ⟨fn', hfn', -, -, hbody⟩ := h.definition hd
    exact definitionOf_of_body hfn' hbody

theorem Valid.name_definitionOf (h : view.Valid) (f : FunctionId) :
    (view.program.function? (view.definitionOf f)).map Function.name =
      (view.program.function? f).map Function.name := by
  rcases view.definitionOf_eq f with heq | ⟨fn, hfn, -, hd, -⟩
  · rw [heq]
  · obtain ⟨fn', hfn', hname, -⟩ := h.definition hd
    rw [hfn, hfn', Option.map_some, hname, Option.map_some]

theorem Valid.isIntrinsic_definitionOf (h : view.Valid) (f : FunctionId) :
    view.program.isIntrinsic (view.definitionOf f) = view.program.isIntrinsic f := by
  have hname (g : FunctionId) : view.program.isIntrinsic g =
      ((view.program.function? g).map Function.name).any (Text.startsWith · "llvm.") := by
    rw [Option.any_map]
    rfl
  rw [hname, hname, h.name_definitionOf]

theorem Valid.directTarget (h : view.Valid) {callee : ValueId}
    (hf : view.directTarget? callee = some f) :
    view.program.HasFunction f ∧ view.program.isDeclaration f = false := by
  obtain ⟨hbase, hdecl⟩ := Option.filter_eq_some_iff.1 hf
  obtain ⟨g, hg, rfl⟩ := Option.map_eq_some_iff.1 hbase
  exact ⟨h.hasFunction_definitionOf (h.program.hasFunction_base hg), by simpa using hdecl⟩

end View

end CallTargets
