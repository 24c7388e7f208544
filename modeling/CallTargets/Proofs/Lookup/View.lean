import CallTargets.Proofs.Lookup.Program

/-!
# Queries about keys and definitions

The keys of types and signatures, linking, and what declarations stand for, as queries. They
are given what a view holds besides its program (`View.Index`).
-/

namespace CallTargets

structure View.Index where
  hash : String → UInt64
  shapes : Shapes
  definitions : OrdMap String FunctionId

def View.index (view : View) : View.Index := ⟨view.hash, view.shapes, view.definitions⟩

/-! ## Queries -/

namespace Query

variable (index : View.Index)

/-- Adds a named struct whose fields are known. -/
def registerShape (shapes : Shapes) (t : TypeId) : Query Shapes := do
  match ← type t with
  | .struct (some name) _ false =>
    let kinds ← fieldKinds t
    return shapes.alter kinds fun names => (names.getD ∅).insert name
  | _ => return shapes

def shapes : Query Shapes := do
  fold registerShape ∅
    ((← modules).flatMap Module.structs ++ (List.range (← counts).types).map TypeId.mk)

def typeKey (t : TypeId) : Query TypeKey := do
  return ⟨index.hash (← (← type t).keyText index.shapes (fieldKinds t) (print t))⟩

def layer (l : Layer TypeId) : Query (Layer TypeKey) := do
  return ⟨← typeKey index l.type, l.field⟩

def signature (t : TypeId) : Query SignatureKey := do
  return ⟨index.hash (Normal.signatureText (← print t))⟩

def signatureOf (f : FunctionId) : Query SignatureKey := do signature index (← function f).type

/-- Adds a function that can be seen from other modules to the definitions. -/
def recordDefinition (definitions : OrdMap String FunctionId) (f : FunctionId) :
    Query (OrdMap String FunctionId) := do
  let fn ← function f
  return if !fn.isDeclaration && fn.linkage.isExternal then definitions.insertIfNew fn.name f
    else definitions

def link (definitions : OrdMap String FunctionId) : Query (OrdMap String FunctionId) := do
  fold recordDefinition definitions (← functionIds)

def definitionOf (f : FunctionId) : Query FunctionId := do
  let fn ← function f
  if fn.isDeclaration then
    match index.definitions.get? fn.name with
    | some d => return if (← signatureOf index d) = (← signatureOf index f) then d else f
    | none => return f
  else return f

def directTarget? (callee : ValueId) : Query (Option FunctionId) := do
  match ← baseFunction? callee with
  | some g =>
    let f ← definitionOf index g
    return if ← isDeclaration f then none else some f
  | none => return none

end Query

/-! ## Answers -/

namespace Query

section Link

variable {p : Program} (hp : p.Valid)

include hp in
theorem answer?_registerShape {t : TypeId} (ht : p.HasType t) (shapes : Shapes) :
    (registerShape shapes t).answer? p = some (shapes.register p.types t) := by
  obtain ⟨ty, hty⟩ := Program.exists_type ht
  simp only [registerShape, Shapes.register, hty, answer?_bind, answer?_type, Option.bind_some]
  split
  · simp [answer?_fieldKinds hp ht]
  · rename_i hne
    split
    · rename_i name fields h
      cases h
      exact absurd rfl (hne name fields)
    · rfl

include hp in
theorem answer?_shapes : shapes.answer? p = some (Shapes.ofProgram p) := by
  simp only [shapes, answer?_bind, answer?_modules, answer?_counts, Option.bind_some]
  refine answer?_fold (fun shapes t ht => ?_) ∅
  refine answer?_registerShape hp ?_ shapes
  rcases List.mem_append.1 ht with ht | ht
  · obtain ⟨m, hm, ht⟩ := List.mem_flatMap.1 ht
    exact (hp.records.module (hp.module?_id hm)).structs t ht
  · obtain ⟨i, hi, rfl⟩ := List.mem_map.1 ht
    exact List.mem_range.1 hi

theorem answer?_recordDefinition {f : FunctionId} (hf : p.HasFunction f)
    (definitions : OrdMap String FunctionId) :
    (recordDefinition definitions f).answer? p = some (View.recordDefinition p definitions f) := by
  obtain ⟨fn, hfn⟩ := Program.exists_function hf
  obtain ⟨name, type, module, linkage, params, blocks, value, taken⟩ := fn
  cases blocks <;> simp [recordDefinition, View.recordDefinition, hfn, Function.isDeclaration]

theorem answer?_link (view : View) :
    (link view.definitions).answer? view.program = some view.link.definitions := by
  simp only [link, answer?_bind, answer?_functionIds, Option.bind_some]
  exact answer?_fold (fun definitions f hf =>
    answer?_recordDefinition (Program.mem_functionIds.1 hf) definitions) view.definitions

end Link

section View

variable {view : View} (hview : view.Valid) {t : TypeId} {f : FunctionId} {v : ValueId}
include hview

omit hview in
theorem answer?_keyText (p : Program) (ty : Ty) (shapes : Shapes) (kinds print : Query String) :
    (ty.keyText shapes kinds print).answer? p =
      ty.keyText shapes (kinds.answer? p) (print.answer? p) := by
  cases ty with
  | struct name fields bodiless =>
    cases name with
    | some name => rfl
    | none =>
      simp only [Ty.keyText, answer?_bind, Option.bind_eq_bind]
      congr 1
      funext kinds
      cases shapes.first? kinds <;> rfl
  | _ => simp [Ty.keyText]

theorem answer?_typeKey (ht : view.program.HasType t) :
    (typeKey view.index t).answer? view.program = some (view.typeKey t) := by
  obtain ⟨ty, hty⟩ := Program.exists_type ht
  simp [typeKey, View.typeKey, TypeTable.keyText, View.index, hty, answer?_keyText,
    answer?_fieldKinds hview.program ht, answer?_print hview.program ht, Ty.keyText_some]

theorem answer?_layer {l : Layer TypeId} (hl : view.program.HasType l.type) :
    (layer view.index l).answer? view.program = some (view.layer l) := by
  simp [layer, answer?_typeKey hview hl, View.layer, Layer.mapType]

theorem answer?_wholeLayer (ht : view.program.HasType t) :
    (layer view.index ⟨t, .any⟩).answer? view.program = some (view.layer ⟨t, .any⟩) :=
  answer?_layer hview ht

theorem answer?_signature (ht : view.program.HasType t) :
    (signature view.index t).answer? view.program = some (view.signature t) := by
  simp [signature, answer?_print hview.program ht, View.signature, View.index,
    TypeTable.signatureText]

theorem answer?_signatureOf (hf : view.program.HasFunction f) :
    (signatureOf view.index f).answer? view.program = some (view.signatureOf f) := by
  obtain ⟨fn, hfn⟩ := Program.exists_function hf
  simp [signatureOf, hfn, View.signatureOf,
    answer?_signature hview (hview.program.records.function hfn).type]

theorem answer?_definitionOf (hf : view.program.HasFunction f) :
    (definitionOf view.index f).answer? view.program = some (view.definitionOf f) := by
  obtain ⟨fn, hfn⟩ := Program.exists_function hf
  have hsignature := answer?_signatureOf hview hf
  obtain ⟨name, type, module, linkage, params, blocks, value, taken⟩ := fn
  cases blocks with
  | cons b bs => simp [definitionOf, View.definitionOf, hfn, Function.isDeclaration]
  | nil =>
    simp only [definitionOf, View.definitionOf, hfn, Function.isDeclaration, answer?_bind,
      answer?_function, Option.bind_some, List.isEmpty_nil, if_true,
      show view.index.definitions = view.definitions from rfl]
    cases hd : view.definitions.get? name with
    | none => rfl
    | some d =>
      obtain ⟨fn', hfn', -⟩ := hview.definition hd
      simp [hsignature, answer?_signatureOf hview (Program.hasFunction_of_eq_some hfn')]

theorem answer?_directTarget? (hv : view.program.HasValue v) :
    (directTarget? view.index v).answer? view.program = some (view.directTarget? v) := by
  simp only [directTarget?, View.directTarget?, answer?_bind,
    answer?_baseFunction? hv hview.program, Option.bind_some]
  cases hbase : view.program.baseFunction? v with
  | none => rfl
  | some g =>
    have hg := hview.program.hasFunction_base hbase
    have hdecl := answer?_isDeclaration (hview.hasFunction_definitionOf hg)
    cases hbody : view.program.isDeclaration (view.definitionOf g) <;>
      simp [answer?_definitionOf hview hg, hdecl, hbody, Option.filter]

end View

end Query

end CallTargets
