import CallTargets.Proofs.Program.Valid

/-!
# Users of values

The users of all values are found in one pass, which goes through the operands of each value and
adds the value to the list of each operand, unless it is the last one in that list. Values are taken
in order, so a value that is listed before stands last in the list as long as its own operands are
gone through, and no value is listed twice (`row_noteOperands`, `row_noteValues`). What is left out
by this test is therefore exactly a repeated operand.

Main statement: `Program.uses_exact`. What a value refers to is said form by form (`Opcode.Uses`,
`Const.Uses`).
-/

namespace CallTargets

/-! ## What a value refers to -/

section Refer

variable {v : ValueId}

/-- The address is computed from the value, or with the value as an index. -/
def Gep.Uses (v : ValueId) (g : Gep) : Prop := g.base = v ∨ .dynamic v ∈ g.indices

inductive Opcode.Uses (v : ValueId) : Opcode → Prop where
  | loaded : Uses v (.load v)
  | stored (ptr : ValueId) : Uses v (.store v ptr)
  | overwritten (value : ValueId) : Uses v (.store value v)
  | gep {g : Gep} (hg : g.Uses v) : Uses v (.gep g)
  | cast (op : CastOp) : Uses v (.cast op v)
  | incoming {incoming : List ValueId} (hv : v ∈ incoming) : Uses v (.phi incoming)
  | selects (ifTrue ifFalse : ValueId) : Uses v (.select v ifTrue ifFalse)
  | ifTrue (condition ifFalse : ValueId) : Uses v (.select condition v ifFalse)
  | ifFalse (condition ifTrue : ValueId) : Uses v (.select condition ifTrue v)
  | arg {call : Call} (hv : v ∈ call.args) : Uses v (.call call)
  | callee {call : Call} (hv : call.callee = v) : Uses v (.call call)
  | unary : Uses v (.unary v)
  | lhs (rhs : ValueId) : Uses v (.binary v rhs)
  | rhs (lhs : ValueId) : Uses v (.binary lhs v)
  | returned : Uses v (.ret (some v))
  | branches (targets : List BlockId) : Uses v (.branch (some v) targets)

inductive Const.Uses (v : ValueId) : Const → Prop where
  | element {elements : List ValueId} (hv : v ∈ elements) : Uses v (.aggregate elements)
  | cast (op : CastOp) : Uses v (.cast op v)
  | gep {g : Gep} (hg : g.Uses v) : Uses v (.gep g)

inductive Program.Uses (p : Program) (u v : ValueId) : Prop where
  | instr {op : Opcode} (hop : p.opcode? u = some op) (hv : op.Uses v) : Uses p u v
  | const {c : Const} (hc : p.const? u = some c) (hv : c.Uses v) : Uses p u v

theorem Gep.mem_operands {g : Gep} : v ∈ g.operands ↔ g.Uses v := by
  have hindex : v ∈ g.indices.filterMap GepIndex.value? ↔ .dynamic v ∈ g.indices := by
    rw [List.mem_filterMap]
    constructor
    · rintro ⟨index, hmem, hvalue⟩
      cases index with
      | const n => cases hvalue
      | dynamic w =>
        cases hvalue
        exact hmem
    · exact fun hmem => ⟨_, hmem, rfl⟩
  rw [operands, List.mem_cons, hindex, eq_comm]
  rfl

theorem Opcode.mem_operands {op : Opcode} : v ∈ op.operands ↔ op.Uses v := by
  constructor
  · intro h
    cases op with
    | alloca t => cases h
    | unreachable => cases h
    | load ptr =>
      obtain rfl := List.mem_singleton.1 h
      exact .loaded
    | store value ptr =>
      rcases List.mem_pair.1 h with rfl | rfl
      · exact .stored ptr
      · exact .overwritten value
    | gep g => exact .gep (Gep.mem_operands.1 h)
    | cast op operand =>
      obtain rfl := List.mem_singleton.1 h
      exact .cast op
    | phi incoming => exact .incoming h
    | select condition ifTrue ifFalse =>
      rcases List.mem_cons.1 h with rfl | h
      · exact .selects ifTrue ifFalse
      · rcases List.mem_pair.1 h with rfl | rfl
        · exact .ifTrue condition ifFalse
        · exact .ifFalse condition ifTrue
    | call call =>
      rcases List.mem_append.1 h with h | h
      · exact .arg h
      · exact .callee (List.mem_singleton.1 h).symm
    | unary operand =>
      obtain rfl := List.mem_singleton.1 h
      exact .unary
    | binary lhs rhs =>
      rcases List.mem_pair.1 h with rfl | rfl
      · exact .lhs rhs
      · exact .rhs lhs
    | ret value =>
      obtain rfl := Option.mem_toList.1 h
      exact .returned
    | branch condition targets =>
      obtain rfl := Option.mem_toList.1 h
      exact .branches targets
  · intro h
    cases h with
    | gep hg => exact Gep.mem_operands.2 hg
    | callee hv =>
      subst hv
      exact List.mem_append_right _ List.mem_cons_self
    | arg hv => exact List.mem_append_left _ hv
    | incoming hv => exact hv
    | _ => simp [operands]

theorem Const.mem_operands {c : Const} : v ∈ c.operands ↔ c.Uses v := by
  constructor
  · intro h
    cases c with
    | aggregate elements => exact .element h
    | cast op operand =>
      obtain rfl := List.mem_singleton.1 h
      exact .cast op
    | gep g => exact .gep (Gep.mem_operands.1 h)
    | _ => cases h
  · intro h
    cases h with
    | element hv => exact hv
    | cast op => exact List.mem_cons_self
    | gep hg => exact Gep.mem_operands.2 hg

end Refer

namespace Program

variable {p : Program} {u v : ValueId}

theorem mem_operands_iff : v ∈ p.operands u ↔ p.Uses u v := by
  constructor
  · intro h
    obtain ⟨val, hval⟩ := exists_value (hasValue_of_mem_operands h)
    have hkind : (p.value? u).map Value.kind = some val.kind := by rw [hval, Option.map_some]
    cases hcase : val.kind with
    | instr i =>
      rw [hcase] at hkind
      rw [operands_of_instr hkind] at h
      exact .instr (opcode?_eq_some_iff.2 ⟨i, hkind, rfl⟩) (Opcode.mem_operands.1 h)
    | const c =>
      rw [hcase] at hkind
      rw [operands_of_const hkind] at h
      exact .const (const?_eq_some_iff.2 hkind) (Const.mem_operands.1 h)
    | _ => simp [operands, hval, Value.operands, hcase] at h
  · intro h
    cases h with
    | instr hop hv =>
      rw [operands_of_opcode hop]
      exact Opcode.mem_operands.2 hv
    | const hc hv =>
      rw [operands_of_const (const?_eq_some_iff.1 hc)]
      exact Const.mem_operands.2 hv

/-! ## The lists of users, newest first -/

def row (users : Array (List ValueId)) (v : ValueId) : List ValueId := users[v.index]?.getD []

section Rows

variable {users : Array (List ValueId)}

theorem row_modify {f : List ValueId → List ValueId} (w : ValueId) (hv : v.index < users.size) :
    row (users.modify w.index f) v = if w = v then f (row users v) else row users v := by
  unfold row
  rw [Array.getElem?_modify]
  by_cases hw : w = v
  · subst hw
    rw [if_pos rfl, if_pos rfl, Array.getElem?_eq_getElem hv]
    rfl
  · have hindex : w.index ≠ v.index := fun h => hw (congrArg ValueId.mk h)
    rw [if_neg hindex, if_neg hw]

/-- A user is listed once for an operand, however often it refers to it: from the second time on it
stands last in the list. -/
theorem row_noteUsers (hv : v.index < users.size) (operands : List ValueId) :
    row (operands.foldl (fun users operand => noteUser users u operand) users) v =
      if v ∈ operands ∧ (row users v).head? ≠ some u then u :: row users v else row users v := by
  induction operands generalizing users with
  | nil => simp
  | cons operand operands ih =>
    have hsize : v.index < (noteUser users u operand).size := by
      rwa [noteUser, Array.size_modify]
    have hrow : row (noteUser users u operand) v =
        if operand = v ∧ (row users v).head? ≠ some u then u :: row users v else row users v := by
      rw [noteUser, row_modify operand hv]
      by_cases hoperand : operand = v <;> by_cases hhead : (row users v).head? = some u <;>
        simp [hoperand, hhead]
    rw [List.foldl_cons, ih hsize, hrow]
    by_cases hoperand : operand = v
    · by_cases hhead : (row users v).head? = some u <;> simp [hoperand, hhead]
    · have hmem : v ∈ operand :: operands ↔ v ∈ operands := by
        rw [List.mem_cons, or_iff_right (Ne.symm hoperand)]
      simp only [hoperand, false_and, if_false, hmem]

theorem row_noteOperands (hv : v.index < users.size) (hu : (row users v).head? ≠ some u) :
    row (p.noteOperands users u) v =
      if v ∈ p.operands u then u :: row users v else row users v := by
  rw [noteOperands, row_noteUsers hv]
  simp only [hu, ne_eq, not_false_eq_true, and_true]

/-- Values in a row, none of which stands last in the list yet, are listed as far as they refer to
the value. -/
theorem row_noteValues (hv : v.index < users.size) {us : List ValueId} (hus : us.Nodup)
    (hnew : ∀ u ∈ us, (row users v).head? ≠ some u) :
    row (us.foldl p.noteOperands users) v =
      (us.filter fun u => v ∈ p.operands u).reverse ++ row users v := by
  induction us generalizing users with
  | nil => simp
  | cons u us ih =>
    obtain ⟨hu, hus⟩ := List.nodup_cons.1 hus
    have hrow : row (p.noteOperands users u) v = _ :=
      row_noteOperands hv (hnew u List.mem_cons_self)
    -- the list ends in `u` now, which does not come again, or is as before
    have hnext : ∀ w ∈ us, (row (p.noteOperands users u) v).head? ≠ some w := by
      intro w hw
      rw [hrow]
      split
      · rintro ⟨⟩
        exact hu hw
      · exact hnew w (List.mem_cons_of_mem u hw)
    have hsize : v.index < (p.noteOperands users u).size := by
      rwa [(notes_noteOperands p).size]
    rw [List.foldl_cons, ih hsize hus hnext, hrow]
    by_cases hmem : v ∈ p.operands u <;> simp [hmem]

theorem row_noteInit (hv : v.index < users.size) (g : Global) :
    row (noteInit users g) v =
      if g.init = some v then g.value :: row users v else row users v := by
  unfold noteInit
  cases g.init with
  | none => rfl
  | some init =>
    rw [Option.elim_some, row_modify init hv]
    simp only [Option.some.injEq]

theorem row_noteInits (hv : v.index < users.size) (gs : List Global) :
    row (gs.foldl noteInit users) v =
      ((gs.filter fun g => g.init = some v).map Global.value).reverse ++ row users v := by
  induction gs generalizing users with
  | nil => simp
  | cons g gs ih =>
    rw [List.foldl_cons, ih (by rwa [notes_noteInit.size]), row_noteInit hv]
    by_cases hinit : g.init = some v <;> simp [hinit]

end Rows

/-- The users found for a value: the values that refer to it, in order, and then the addresses of
the variables that it initialises. -/
theorem getD_findUsers (hv : p.HasValue v) :
    p.findUsers[v.index]?.getD [] = (p.valueIds.filter fun u => v ∈ p.operands u) ++
      (p.globals.toList.filter fun g => g.init = some v).map Global.value := by
  have hreverse (users : Array (List ValueId)) :
      (users.map List.reverse)[v.index]?.getD [] = (row users v).reverse := by
    rw [row, Array.getElem?_map]
    cases users[v.index]? <;> rfl
  have hempty : row (Array.replicate p.values.size []) v = [] := by
    rw [row, Array.getElem?_replicate]
    split <;> rfl
  have hsize : v.index < (Array.replicate p.values.size ([] : List ValueId)).size := by
    rwa [Array.size_replicate]
  have hvalues : row (p.valueIds.foldl p.noteOperands (Array.replicate p.values.size [])) v =
      (p.valueIds.filter fun u => v ∈ p.operands u).reverse := by
    rw [row_noteValues hsize p.nodup_valueIds, hempty, List.append_nil]
    intro u _ hu
    rw [hempty] at hu
    cases hu
  have hsize' : v.index <
      (p.valueIds.foldl p.noteOperands (Array.replicate p.values.size [])).size :=
    Nat.lt_of_lt_of_eq hsize ((notes_noteOperands p).foldl.size _ p.valueIds).symm
  rw [findUsers, hreverse, row_noteInits hsize', hvalues, List.reverse_append,
    List.reverse_reverse, List.reverse_reverse]

/-! ## Addresses -/

theorem pairwise_valueIds (p : Program) :
    p.valueIds.Pairwise fun u w => u.index < w.index :=
  List.pairwise_map.2 List.pairwise_lt_range

theorem takesAddress_iff {address : ValueId} (h : p.Uses u address) :
    p.takesAddress address u = true ↔
      ∀ call, p.opcode? u = some (.call call) → address ∈ call.args := by
  unfold takesAddress
  split
  · rename_i call hcall
    have huses : address ∈ call.args ∨ call.callee = address := by
      have hmem := mem_operands_iff.2 h
      rw [operands_of_opcode hcall] at hmem
      exact (List.mem_append.1 hmem).imp_right fun hmem => (List.mem_singleton.1 hmem).symm
    simp only [hcall, Option.some.injEq, Opcode.call.injEq, forall_eq', Bool.or_eq_true,
      decide_eq_true_eq, List.contains_iff_mem]
    constructor
    · rintro (hcallee | harg)
      · exact huses.resolve_right hcallee
      · exact harg
    · exact .inr
  · rename_i hcall
    exact iff_of_true rfl fun call hop => absurd hop (hcall call)

/-- The address of a function is taken by a value that uses it other than as a callee, or by a
variable that it initialises. -/
theorem any_takesAddress_iff (h : p.RecordsOk) {address : ValueId} :
    (p.findUsers[address.index]?.getD []).any (p.takesAddress address) = true ↔
      p.HasValue address ∧
        ((∃ u call, p.opcode? u = some (.call call) ∧ address ∈ call.args) ∨
          (∃ u, p.Uses u address ∧ ∀ call, p.opcode? u ≠ some (.call call)) ∨
          ∃ g ∈ p.globals, g.init = some address) := by
  -- the address of a variable is no call
  have hglobal : ∀ g ∈ p.globals, p.takesAddress address g.value = true := by
    intro g hg
    obtain ⟨i, hi, rfl⟩ := Array.mem_iff_getElem.1 hg
    have hvalue := (h.global (i := ⟨i⟩) (Array.getElem?_eq_getElem hi)).value
    have hop : p.opcode? p.globals[i].value = none :=
      opcode?_eq_none (global?_bind_eq_some_iff.1 hvalue) (by rintro j ⟨⟩)
    rw [takesAddress, hop]
  simp only [List.any_eq_true, mem_findUsers, mem_operands_iff]
  constructor
  · rintro ⟨u, ⟨hhas, huses | ⟨g, hg, hinit, -⟩⟩, htakes⟩
    · refine ⟨hhas, ?_⟩
      rw [takesAddress_iff huses] at htakes
      by_cases hcall : ∃ call, p.opcode? u = some (.call call)
      · obtain ⟨call, hcall⟩ := hcall
        exact .inl ⟨u, call, hcall, htakes call hcall⟩
      · exact .inr (.inl ⟨u, huses, fun call hop => hcall ⟨call, hop⟩⟩)
    · exact ⟨hhas, .inr (.inr ⟨g, hg, hinit⟩)⟩
  · rintro ⟨hhas, ⟨u, call, hcall, harg⟩ | ⟨u, huses, hcall⟩ | ⟨g, hg, hinit⟩⟩
    · have huses : p.Uses u address := .instr hcall (.arg harg)
      refine ⟨u, ⟨hhas, .inl huses⟩, (takesAddress_iff huses).2 fun call' hcall' => ?_⟩
      cases hcall.symm.trans hcall'
      exact harg
    · exact ⟨u, ⟨hhas, .inl huses⟩, (takesAddress_iff huses).2 fun call hop =>
        absurd hop (hcall call)⟩
    · exact ⟨g.value, ⟨hhas, .inr ⟨g, hg, hinit, rfl⟩⟩, hglobal g hg⟩

/-- **Users and addresses.** In a program without faults, the users that are found for a value are
the values that refer to it, in increasing order, followed by the addresses of the variables that
it initialises, in their order. The address of a function is taken exactly if it is an argument of
a call, if a value that is no call refers to it, or if it initialises a variable. -/
theorem uses_exact (h : p.validate = .ok ()) :
    (∀ v, p.HasValue v → ∃ users : List ValueId,
      users.Pairwise (fun u w => u.index < w.index) ∧ (∀ u, u ∈ users ↔ p.Uses u v) ∧
        p.withUses.usersOf v =
          users ++ (p.globals.toList.filter fun g => g.init = some v).map Global.value) ∧
      ∀ id f, p.function? id = some f → ∃ taken,
        p.withUses.function? id = some { f with addressTaken := taken } ∧
          (taken = true ↔
            (∃ u call, p.opcode? u = some (.call call) ∧ f.value ∈ call.args) ∨
              (∃ u, p.Uses u f.value ∧ ∀ call, p.opcode? u ≠ some (.call call)) ∨
              ∃ g ∈ p.globals, g.init = some f.value) := by
  have hrecords := validate_eq_ok_iff.1 h
  constructor
  · intro v hv
    refine ⟨p.valueIds.filter fun u => v ∈ p.operands u, p.pairwise_valueIds.filter _, fun u => ?_,
      getD_findUsers hv⟩
    rw [List.mem_filter, decide_eq_true_eq, mem_valueIds, ← mem_operands_iff]
    exact and_iff_right_of_imp hasValue_of_mem_operands
  · intro id f hf
    have hvalue : p.HasValue f.value := (hrecords.function hf).hasValue
    refine ⟨_, by rw [function?_withUses, hf, Option.map_some], ?_⟩
    rw [any_takesAddress_iff hrecords, and_iff_right hvalue]

open Sample in
/-- `main` passes `f` to itself, twice, and calls `g`. `h` is twice in a table, and it initialises
two variables. Of the indices into the second of them, one is the number 1 and one is a value. -/
def selfPassed : Program :=
  let function (name : String) (t address : Nat) (blocks : List Block) : Function :=
    ⟨name, ⟨t⟩, 0, .external, [], blocks, ⟨address⟩, false⟩
  let global (name : String) (t address init : Nat) : Global :=
    ⟨name, 0, ⟨t⟩, ⟨address⟩, some ⟨init⟩, .external, false⟩
  { types := ⟨#[.void, .function 0 [] false, .pointer 1, .pointer 2, .array 2 2,
      .pointer 4, .integer 64]⟩
    values := #[value 2 (.function 0), value 2 (.function 1), value 2 (.function 2),
      value 2 (.function 3), instr 0 3 (.call ⟨0, [0, 0], 1, false⟩),
      instr 0 3 (.call ⟨1, [], 1, false⟩), value 4 (.const (.aggregate [2, 2])),
      value 3 (.global 0), value 3 (.global 1), value 5 (.global 2),
      value 6 (.const (.int 0)),
      instr 3 3 (.gep ⟨2, 8, [.const 1, .dynamic 10]⟩)]
    functions := #[function "f" 1 0 [], function "g" 1 1 [], function "h" 1 2 [],
      function "main" 1 3 [⟨0, [4, 5, 11]⟩]]
    globals := #[global "a" 2 7 2, global "b" 2 8 2, global "table" 4 9 6]
    modules := #[⟨0, "m", [0, 1, 2, 3], [0, 1, 2], []⟩] }

/-- Of `g`, which is only called, the address is not taken. -/
theorem uses_exact_selfPassed :
    selfPassed.validate = .ok () ∧
      (selfPassed.withUses.usersOf 0, selfPassed.withUses.usersOf 1,
        selfPassed.withUses.usersOf 2) = ([4], [5], [6, 7, 8]) ∧
      selfPassed.withUses.functions.toList.map Function.addressTaken =
        [true, false, true, false] ∧
      (∃ users : List ValueId,
        users.Pairwise (fun u w => u.index < w.index) ∧ (∀ u, u ∈ users ↔ selfPassed.Uses u 2) ∧
          selfPassed.withUses.usersOf 2 = users ++
            (selfPassed.globals.toList.filter fun g => g.init = some 2).map Global.value) ∧
      ¬ ∃ u, selfPassed.Uses u 1 ∧ ∀ call, selfPassed.opcode? u ≠ some (.call call) := by
  have hvalid : selfPassed.validate = .ok () := rfl
  have hexact := uses_exact hvalid
  have hvalue : selfPassed.HasValue 2 := show 2 < selfPassed.values.size by decide
  refine ⟨hvalid, by decide +kernel, by decide +kernel, hexact.1 2 hvalue, fun huse => ?_⟩
  obtain ⟨taken, htaken, hiff⟩ := hexact.2 1 _ rfl
  have hfalse : selfPassed.withUses.function? 1 =
      some ⟨"g", 1, 0, .external, [], [], 1, false⟩ := by decide +kernel
  cases hfalse.symm.trans htaken
  cases hiff.2 (.inr (.inl huse))

end Program

end CallTargets
