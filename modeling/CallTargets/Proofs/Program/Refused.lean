import CallTargets.Program.Builder
import CallTargets.Proofs.Ty.Index
import Mathlib

/-!
# Refused requests

A builder keeps what it did before it was refused something, so a request that is refused halfway
would leave types, values or notes in the maps behind. None does: all that can be refused is looked
at first, and the changes that follow are granted (`Construct.Follows`). A struct that is declared
before it gets its fields can be given them, since the maps lead to what is there. So a builder
does to its program what a request asks for, and a refused request leaves it as it was.
-/

namespace CallTargets

namespace Construct

variable {α β : Type} {b : Builder}

/-! ## Steps -/

theorem run_askTypes (what : IndexedTable → Except Fault α) (b : Builder) :
    (askTypes what).run b = (what b.types, b) := rfl

/-- With a builder whose maps lead to its types, this is a change of the program that is always
granted, and the maps still lead to the types. -/
def Does (x : Construct α) (c : Program → α × Program) : Prop :=
  ∀ b : Builder, b.types.Sound → ∃ b', x.run b = (.ok (c b.program).1, b') ∧
    b'.program = (c b.program).2 ∧ b'.types.Sound

namespace Does

variable {x : Construct α} {c : Program → α × Program} {f : α → Construct β}
  {d : α → Program → β × Program}

theorem pure (a : α) : Does (Pure.pure a) fun p => (a, p) := fun b hb => ⟨b, rfl, rfl, hb⟩

theorem bind (hx : x.Does c) (hf : ∀ a, (f a).Does (d a)) :
    (x >>= f).Does fun p => d (c p).1 (c p).2 := by
  intro b hb
  obtain ⟨b', hrun, hprogram, hb'⟩ := hx b hb
  obtain ⟨b'', hrun', hprogram', hb''⟩ := hf (c b.program).1 b' hb'
  rw [hprogram] at hrun' hprogram'
  refine ⟨b'', ?_, hprogram', hb''⟩
  rw [Build.run_bind, hrun]
  exact hrun'

theorem change (hc : ∀ p, (c p).2.types = p.types) : (Construct.change c).Does c := by
  intro b hb
  refine ⟨{ b with program := (c b.program).2 }, rfl, rfl, ?_⟩
  unfold Builder.types
  rw [hc b.program]
  exact hb

theorem addType (ty : Ty) : (Construct.addType ty).Does (·.addType ty) := by
  intro b hb
  have hintern := hb.intern_eq ty
  refine ⟨b.withTypes (b.types.intern ty).2, ?_, ?_, hb.intern ty⟩
  · exact congrArg (fun r : TypeId × TypeTable => (Except.ok r.1, b.withTypes _)) hintern
  · exact congrArg (fun r : TypeId × TypeTable => { b.program with types := r.2 }) hintern

theorem lookup (name : String) : (perform (.lookup name)).Does fun p =>
    ((p.types.lookupStruct? name).toList.map .type, p) := by
  intro b hb
  refine ⟨b, ?_, rfl, hb⟩
  have hstructs : b.types.lookupStruct? name = b.program.types.lookupStruct? name :=
    hb.finds.structs name
  exact congrArg (fun t => (Except.ok (t.toList.map Entity.type), b)) hstructs

theorem reindex : (perform .reindex).Does fun p => ([], p) := by
  intro b hb
  refine ⟨b.withTypes b.types.reindex, rfl, ?_, hb.reindex⟩
  rw [Builder.withTypes, IndexedTable.table_reindex]
  rfl

theorem declareStruct (name : String) : (changeTypes (·.declareStruct name)).Does
    (·.addType (.struct (some name) [] true)) := by
  have hdeclare : changeTypes (·.declareStruct name) =
      Construct.addType (.struct (some name) [] true) :=
    congrArg changeTypes (funext fun t => t.declareStruct_eq name)
  rw [hdeclare]
  exact addType _

theorem addResultType (type : ResultType) :
    (Construct.addResultType type).Does (·.addResultType type) := by
  cases type with
  | old t => exact pure t
  | made ty => exact addType ty

end Does

section Structs

variable {t : TypeId} {fields : List TypeId}

theorem run_setBody_of_ok {types : TypeTable} (h : b.program.types.setBody t fields = .ok types) :
    (setBody t fields).run b = (.ok (), b.withTypes { b.types with table := types }) := by
  have hset : b.types.setBody t fields = .ok { b.types with table := types } := by
    unfold IndexedTable.setBody
    rw [show b.types.table.setBody t fields = .ok types from h]
    rfl
  rw [setBody, Build.run_bind, run_askTypes, hset]
  rfl

theorem run_setBody_of_error {fault : Fault} (h : b.program.types.setBody t fields = .error fault) :
    (setBody t fields).run b = (.error fault, b) := by
  have hset : b.types.setBody t fields = .error fault := by
    unfold IndexedTable.setBody
    rw [show b.types.table.setBody t fields = .error fault from h]
    rfl
  rw [setBody, Build.run_bind, run_askTypes, hset]

theorem run_defineStruct (hb : b.types.Sound) (name : String) (fields : List TypeId) :
    ∃ t types, b.program.types.defineStruct name fields = .ok (t, types) ∧
      ∃ b', (defineStruct name fields).run b = (.ok t, b') ∧
        b'.program = { b.program with types } ∧ b'.types.Sound := by
  obtain ⟨types, hbody, -⟩ := hb.defineStruct_eq name fields
  obtain ⟨b', hrun, hprogram, hb'⟩ : ∃ b', (changeTypes (·.declareStruct name)).run b =
        (.ok (b.program.types.declareStruct name).1, b') ∧
      b'.program = { b.program with types := (b.program.types.declareStruct name).2 } ∧
      b'.types.Sound := Does.declareStruct name b hb
  have hfields : b'.program.types.setBody (b.program.types.declareStruct name).1 fields =
      .ok types := by
    rw [hprogram]
    exact hbody
  refine ⟨(b.program.types.declareStruct name).1, types, ?_,
    b'.withTypes { b'.types with table := types }, ?_, ?_, hb'.setBody hfields⟩
  · have hbody' : (b.program.types.declareStruct name).2.setBody
        (b.program.types.declareStruct name).1 fields = .ok types := hbody
    simp only [TypeTable.defineStruct, hbody']
    rfl
  · rw [defineStruct, Build.run_bind, hrun]
    refine (Build.run_bind _ _ b').trans ?_
    rw [run_setBody_of_ok hfields]
    rfl
  · rw [Builder.withTypes, hprogram]

end Structs

/-! ## Requests -/

/-- A builder follows what is asked of its program: it yields the same or is refused alike, has
the same program afterwards, and is as before if it was refused. -/
structure Follows (x : Construct α) (y : Build α) (b : Builder) : Prop where
  same : y.run b.program = ((x.run b).1, (x.run b).2.program)
  sound : (x.run b).2.types.Sound
  refused : ∀ fault, (x.run b).1 = .error fault → (x.run b).2 = b

namespace Follows

variable {x : Construct α} {y : Build α} {c : Program → α × Program} {f : α → Construct β}
  {g : α → Build β}

theorem of_does (hx : x.Does c) (hb : b.types.Sound)
    (hy : y.run b.program = (.ok (c b.program).1, (c b.program).2)) : Follows x y b := by
  obtain ⟨b', hrun, hprogram, hb'⟩ := hx b hb
  refine ⟨?_, ?_, ?_⟩
  · rw [hy, hrun, hprogram]
  · rw [hrun]
    exact hb'
  · rw [hrun]
    intro fault hfault
    cases hfault

theorem ofProgram (hb : b.types.Sound)
    (hy : y.Ensures b.program fun _ p => p.types = b.program.types) :
    Follows (ofProgram y) y b := by
  have hrun : (Construct.ofProgram y).run b =
      ((y.run b.program).1, { b with program := (y.run b.program).2 }) := rfl
  unfold Build.Ensures at hy
  rcases hresult : y.run b.program with ⟨result, p⟩
  rw [hresult] at hy hrun
  cases result with
  | ok a =>
    refine ⟨by rw [hrun, hresult], ?_, fun fault hfault => by rw [hrun] at hfault; cases hfault⟩
    rw [hrun]
    unfold Builder.types
    rw [show ({ b with program := p } : Builder).program.types = b.program.types from hy]
    exact hb
  | error fault =>
    subst hy
    exact ⟨by rw [hrun, hresult], by rw [hrun]; exact hb, fun _ _ => by rw [hrun]⟩

theorem look {l : Build α} {Q : α → Prop} (hl : l.Finds b.program Q) (hb : b.types.Sound)
    (h : ∀ a, Q a → Follows (f a) (g a) b) :
    Follows (Construct.ofProgram l >>= f) (l >>= g) b := by
  have hrun : (Construct.ofProgram l).run b =
      ((l.run b.program).1, { b with program := (l.run b.program).2 }) := rfl
  unfold Build.Finds Build.Ensures at hl
  rcases hresult : l.run b.program with ⟨result, p⟩
  rw [hresult] at hl hrun
  cases result with
  | ok a =>
    obtain ⟨rfl, ha⟩ := hl
    have hx : (Construct.ofProgram l >>= f).run b = (f a).run b := by rw [Build.run_bind, hrun]
    have hy : (l >>= g).run b.program = (g a).run b.program := by rw [Build.run_bind, hresult]
    refine ⟨?_, ?_, ?_⟩
    · rw [hx, hy]
      exact (h a ha).same
    · rw [hx]
      exact (h a ha).sound
    · rw [hx]
      exact (h a ha).refused
  | error fault =>
    subst hl
    have hx : (Construct.ofProgram l >>= f).run b = (.error fault, b) := by
      rw [Build.run_bind, hrun]
    have hy : (l >>= g).run b.program = (.error fault, b.program) := by
      rw [Build.run_bind, hresult]
    exact ⟨by rw [hx, hy], by rw [hx]; exact hb, fun _ _ => by rw [hx]⟩

theorem setBody (hb : b.types.Sound) (t : TypeId) (fields : List TypeId) :
    Follows (perform (.setBody t fields)) (Request.perform (.setBody t fields)) b := by
  cases hbody : b.program.types.setBody t fields with
  | ok types =>
    have hx : (perform (.setBody t fields)).run b =
        (.ok [], b.withTypes { b.types with table := types }) := by
      rw [perform, Build.run_bind, run_setBody_of_ok hbody]
      rfl
    have hy : (Request.perform (.setBody t fields)).run b.program =
        (.ok [], { b.program with types }) := Build.run_ask_of_ok hbody
    refine ⟨by rw [hx, hy]; rfl, ?_, fun fault hfault => by rw [hx] at hfault; cases hfault⟩
    rw [hx]
    exact hb.setBody hbody
  | error fault =>
    have hx : (perform (.setBody t fields)).run b = (.error fault, b) := by
      rw [perform, Build.run_bind, run_setBody_of_error hbody]
    have hy : (Request.perform (.setBody t fields)).run b.program = (.error fault, b.program) :=
      Build.run_ask_of_error hbody
    exact ⟨by rw [hx, hy], by rw [hx]; exact hb, fun _ _ => by rw [hx]⟩

theorem defineStruct {f : TypeId → Construct α} {g : TypeId × TypeTable → Build α}
    {d : TypeId → Program → α × Program} (hb : b.types.Sound) (name : String)
    (fields : List TypeId) (hf : ∀ t, (f t).Does (d t))
    (hg : ∀ t types, (g (t, types)).run b.program =
      (.ok (d t { b.program with types }).1, (d t { b.program with types }).2)) :
    Follows (Construct.defineStruct name fields >>= f)
      (Build.ask (·.types.defineStruct name fields) >>= g) b := by
  obtain ⟨t, types, hplain, b', hrun, hprogram, hb'⟩ := run_defineStruct hb name fields
  obtain ⟨b'', hrun', hprogram', hb''⟩ := hf t b' hb'
  rw [hprogram] at hrun' hprogram'
  have hx : (Construct.defineStruct name fields >>= f).run b =
      (.ok (d t { b.program with types }).1, b'') := by
    rw [Build.run_bind, hrun]
    exact hrun'
  have hy : (Build.ask (·.types.defineStruct name fields) >>= g).run b.program =
      (g (t, types)).run b.program := Build.run_ask_of_ok hplain
  refine ⟨by rw [hx, hy, hg, hprogram'], by rw [hx]; exact hb'', fun fault hfault => ?_⟩
  rw [hx] at hfault
  cases hfault

theorem declare {f : FunctionId → Construct α} {d : FunctionId → Program → α × Program}
    {g : List TypeId → Build α} (hb : b.types.Sound) (m : ModuleId) (name : String) (type : TypeId)
    (hf : ∀ id, (f id).Does (d id))
    (hg : ∀ params, (g params).run b.program =
      (.ok (d (b.program.addFunction m name type params).1
          (b.program.addFunction m name type params).2).1,
        (d (b.program.addFunction m name type params).1
          (b.program.addFunction m name type params).2).2)) :
    Follows (Construct.declare m name type >>= f)
      (do let params ← Build.paramTypes type
          let _ ← Build.module m
          g params) b := by
  unfold Construct.declare
  rw [bind_assoc]
  refine look (Build.finds_paramTypes type) hb fun params _ => ?_
  rw [bind_assoc]
  refine look (Build.finds_module m) hb fun _ _ => ?_
  rw [bind_assoc]
  have hpush : ∀ t, (Construct.change fun p =>
      ((⟨p.functions.size⟩ : FunctionId), p.pushFunction m name type t params)).Does _ :=
    fun t => Does.change fun _ => rfl
  exact of_does ((Does.addType _).bind fun t => (hpush t).bind hf) hb (hg params)

end Follows

theorem follows_perform (hb : b.types.Sound) (r : Request) : Follows (perform r) r.perform b := by
  -- what changes no types is asked of the program
  have hlift (r : Request) (hr : perform r = ofProgram r.perform)
      (hkept : r.perform.Ensures b.program fun _ p => p.types = b.program.types) :
      Follows (perform r) r.perform b := by
    rw [hr]
    exact .ofProgram hb hkept
  cases r with
  | intern ty => exact .of_does ((Does.addType ty).bind fun t => Does.pure [Entity.type t]) hb rfl
  | bytePointer =>
    exact .of_does ((Does.addType _).bind fun byte =>
      (Does.addType _).bind fun t => Does.pure [Entity.type t]) hb rfl
  | lookup name => exact .of_does (Does.lookup name) hb rfl
  | setBody t fields => exact .setBody hb t fields
  | defineStruct name fields =>
    exact .defineStruct hb name fields (fun t => Does.pure [Entity.type t]) fun _ _ => rfl
  | reindex => exact .of_does Does.reindex hb rfl
  | addStruct m name fields =>
    refine .look (Build.finds_module m) hb fun _ _ => ?_
    exact .defineStruct hb name fields (fun t => Does.change fun _ => rfl) fun _ _ => rfl
  | declare m name type =>
    exact .declare hb m name type (fun f => Does.pure [Entity.function f]) fun _ => rfl
  | define m name type =>
    exact .declare hb m name type (fun f => Does.change fun _ => rfl) fun _ => rfl
  | addGlobal m name type init =>
    refine .look (Build.finds_module m) hb fun _ _ => ?_
    exact .of_does ((Does.addType _).bind fun t => Does.change fun _ => rfl) hb rfl
  | constGep base indices =>
    refine .look (Build.finds_gep base _) hb fun found _ => ?_
    exact .of_does ((Does.addType _).bind fun t =>
      (Does.change fun _ => rfl).bind fun v => Does.pure [Entity.value v]) hb rfl
  | instr site i name =>
    refine .look i.finds_any hb fun found _ => ?_
    refine .look (Build.finds_block site) hb fun _ _ => ?_
    have hname : ∀ v, (change fun p => ([Entity.value v], name.elim p (p.nameValue v))).Does _ :=
      fun v => Does.change fun p => by cases name <;> rfl
    exact .of_does ((Does.addResultType found.1).bind fun t =>
      (Does.change fun _ => rfl).bind hname) hb rfl
  | functionValue f =>
    exact hlift _ rfl ((Build.finds_function f).bind fun _ _ => Build.ensures_pure rfl)
  | param f index =>
    exact hlift _ rfl ((Build.finds_param f index).bind fun _ _ => Build.ensures_pure rfl)
  | globalValue g =>
    exact hlift _ rfl ((Build.finds_global g).bind fun _ _ => Build.ensures_pure rfl)
  | setLinkage f _ | enter f | addBlock f =>
    exact hlift _ rfl ((Build.finds_function f).bind fun _ _ => Build.ensures_update rfl)
  | setInit g _ | setGlobalLinkage g _ =>
    exact hlift _ rfl ((Build.finds_global g).bind fun _ _ => Build.ensures_update rfl)
  | nameValue v name =>
    exact hlift _ rfl ((Build.finds_value v).bind fun _ _ => Build.ensures_update rfl)
  | addModule | null | undef | int | aggregate | constCast =>
    exact hlift _ rfl (Build.ensures_update_map rfl)

end Construct

namespace Builder

/-! ## Builders that requests lead to -/

theorem sound_foldl {b : Builder} (hb : b.types.Sound) (rs : List Request) :
    (rs.foldl apply b).types.Sound ∧
      (rs.foldl apply b).program = rs.foldl Request.apply b.program := by
  induction rs generalizing b with
  | nil => exact ⟨hb, rfl⟩
  | cons r rs ih =>
    have hr := Construct.follows_perform hb r
    have hprogram : (b.apply r).program = r.apply b.program := (congrArg Prod.snd hr.same).symm
    have hsound : (b.apply r).types.Sound := hr.sound
    rw [List.foldl_cons, List.foldl_cons, ← hprogram]
    exact ih hsound

/-- The maps of a builder lead to its types, and its program is the one that the requests
build. -/
theorem sound_serve (rs : List Request) :
    (serve rs).types.Sound ∧ (serve rs).program = rs.foldl Request.apply {} :=
  sound_foldl (b := {}) .empty rs

/-- Whatever was requested before, a refused request leaves the builder as it was: its types,
values, functions, globals and modules, and the maps by which types are found. The program
refuses it with the same fault, and what is requested later comes to the same as without it. -/
theorem refused_unchanged (rs : List Request) (r : Request) {fault : Fault} {after : Builder}
    (h : (Construct.perform r).run (serve rs) = (.error fault, after)) :
    after = serve rs ∧
      r.perform.run (rs.foldl Request.apply {}) = (.error fault, rs.foldl Request.apply {}) ∧
      ∀ later, serve (rs ++ r :: later) = serve (rs ++ later) := by
  obtain ⟨hsound, hprogram⟩ := sound_serve rs
  have hr := Construct.follows_perform hsound r
  have hafter : after = serve rs := by
    have hrefused := hr.refused fault
    rw [h] at hrefused
    exact hrefused rfl
  subst hafter
  refine ⟨rfl, ?_, fun later => ?_⟩
  · rw [← hprogram, hr.same, h]
  · have happly : (serve rs).apply r = serve rs := congrArg Prod.snd h
    unfold serve at happly ⊢
    rw [List.foldl_append, List.foldl_cons, happly, List.foldl_append]

/-- Requests for a struct inside another one, and for a function with a variable of that type. -/
def nestedStruct : List Request :=
  [.addModule "m", .intern (.integer 32), .defineStruct "struct.S" [0],
    .intern (.struct none [1] false), .intern .void, .intern (.function 3 [] false),
    .define 0 "main" 4, .instr { function := 0 } (.alloca 2) none]

/-- The address of a field of an integer. It is refused after the indices led through both
structs. -/
def fieldOfInteger : Request :=
  .instr { function := 0 } (.gep 1 [.const 0, .const 0, .const 0, .const 0]) none

theorem refused_unchanged_fieldOfInteger :
    ((Construct.perform fieldOfInteger).run (serve nestedStruct)).1 =
        .error (.badIndex (some 0) "i32") ∧
      ((Construct.perform fieldOfInteger).run (serve nestedStruct)).2 = serve nestedStruct := by
  have hrefused : ((Construct.perform fieldOfInteger).run (serve nestedStruct)).1 =
      .error (.badIndex (some 0) "i32") := by
    cbv
  exact ⟨hrefused, (refused_unchanged nestedStruct fieldOfInteger (Prod.ext hrefused rfl)).1⟩

end Builder

end CallTargets
