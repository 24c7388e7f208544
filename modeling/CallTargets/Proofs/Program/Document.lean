import CallTargets.Proofs.Program.Built
import CallTargets.Proofs.Program.Codec
import CallTargets.Proofs.Program.Refused

/-!
# Programs and their documents

A document holds the records of a program, and all else about it is found again when it is read:
the uses of values, the functions whose address is taken, and the maps by which types are found.
So a program without faults is read back with its records. In a program that is built or read, the
uses were found before, so it is read back as it is, and the maps lead to what those of the builder
led to, or are the ones that were made when it was read before.

Main statement: `Program.parse_render`.
-/

namespace CallTargets.Program

open Json

variable {p : Program}

/-- The programs have the same records, up to the flags of functions whose address is taken. -/
structure SameRecords (p q : Program) : Prop where
  types : p.types = q.types
  values : p.values = q.values
  functions : p.functions.map ({ · with addressTaken := false }) =
    q.functions.map ({ · with addressTaken := false })
  globals : p.globals = q.globals
  modules : p.modules = q.modules

theorem sameRecords_withUses (p : Program) : p.SameRecords p.withUses where
  types := rfl
  values := rfl
  functions := by
    rw [withUses, Array.map_map]
    rfl
  globals := rfl
  modules := rfl

theorem fits_withUses (h : p.Fits) : p.withUses.Fits where
  types := h.types
  values := h.values
  functions f hf := by
    rw [withUses, Array.toList_map] at hf
    obtain ⟨fn, hfn, rfl⟩ := List.mem_map.1 hf
    obtain ⟨htype, hmodule, hparams, hblocks, hvalue⟩ := h.functions fn hfn
    exact ⟨htype, hmodule, hparams, hblocks, hvalue⟩
  globals := h.globals
  modules := h.modules

theorem fits_of_users {users : Array (List ValueId)} (h : Fits { p with users }) : p.Fits :=
  ⟨h.types, h.values, h.functions, h.globals, h.modules⟩

theorem program_ofProgram (p : Program) : (Builder.ofProgram p).program = p := by
  rw [Builder.ofProgram, Builder.withTypes, IndexedTable.table_reindex]

theorem finds_ofProgram (p : Program) : (Builder.ofProgram p).types.Finds p.types :=
  IndexedTable.finds_reindex { table := p.types }

theorem ofJson_eq_ok_iff {j : Json} {b : Builder} : Builder.ofJson j = .ok b ↔
    ∃ q, decode? j = some q ∧ q.validate = .ok () ∧ Builder.ofProgram q.withUses = b := by
  unfold Builder.ofJson
  cases decode? j with
  | none => simp [throw, throwThe, MonadExceptOf.throw]
  | some q =>
    constructor
    · intro h
      obtain ⟨_, hvalid, hb⟩ := bind_eq_ok.1 h
      exact ⟨q, rfl, hvalid, Except.ok.inj hb⟩
    · rintro ⟨_, hq, hvalid, hb⟩
      obtain rfl := Option.some.inj hq
      exact bind_eq_ok.2 ⟨(), hvalid, congrArg Except.ok hb⟩

theorem parse_eq_ok_iff {text : String} {b : Builder} :
    Builder.parse text = .ok b ↔ ∃ j, parse? text = some j ∧ Builder.ofJson j = .ok b := by
  unfold Builder.parse
  cases parse? text with
  | none => simp [throw, throwThe, MonadExceptOf.throw]
  | some j => simp

theorem parse_render_eq (hvalid : p.validate = .ok ()) (hfits : p.Fits) :
    Builder.parse p.render = .ok (Builder.ofProgram p.withUses) := by
  have hread : Builder.ofJson p.toJson = .ok (Builder.ofProgram p.withUses) :=
    ofJson_eq_ok_iff.2 ⟨_, decode?_toJson hfits, hvalid, rfl⟩
  exact parse_eq_ok_iff.2 ⟨p.toJson, parse?_render p.plain_toJson, hread⟩

/-- Each program without faults, with numbers of the widths that documents allow, is read back
from its document with the same records, with all that follows from them up to date and with maps
that lead to its types. One that was built is read back as it is, with maps that lead to what those
of its builder led to, and what was read from any document is read back as it is, maps included. -/
theorem parse_render (p : Program) :
    (p.validate = .ok () → p.Fits → ∃ b, Builder.parse p.render = .ok b ∧
      p.SameRecords b.program ∧ b.program.Valid ∧ b.types.Finds b.program.types) ∧
    (∀ rs, p = (Builder.serve rs).program.withUses → p.validate = .ok () → p.Fits →
      p.types.Indexed ∧ ∃ b, Builder.parse p.render = .ok b ∧ b.program = p ∧ ∀ ty name,
        b.types.unnamed.get? ty = (Builder.serve rs).types.unnamed.get? ty ∧
        b.types.lookupStruct? name = (Builder.serve rs).types.lookupStruct? name ∧
        b.types.find? ty = (Builder.serve rs).types.find? ty) ∧
    (∀ text b, Builder.parse text = .ok b → Builder.parse b.program.render = .ok b) := by
  refine ⟨fun hvalid hfits => ?_, fun rs hbuilt hvalid hfits => ?_, fun text b htext => ?_⟩
  · refine ⟨_, parse_render_eq hvalid hfits, ?_⟩
    rw [program_ofProgram]
    exact ⟨p.sameRecords_withUses, valid_withUses hvalid, p.withUses.finds_ofProgram⟩
  · obtain ⟨hsound, hprogram⟩ := Builder.sound_serve rs
    have hderived : p.withUses = p := by
      rw [hbuilt]
      exact withUses_withUses _
    have htypes : p.types = (Builder.serve rs).types.table := by
      rw [hbuilt]
      rfl
    have hindexed := Request.indexed_built rs
    refine ⟨?_, _, parse_render_eq hvalid hfits, ?_, hsound.finds.unique ?_⟩
    · rw [hbuilt, hprogram]
      exact hindexed
    · rw [program_ofProgram, hderived]
    · rw [← htypes]
      exact p.withUses.finds_ofProgram
  · obtain ⟨j, -, hj⟩ := parse_eq_ok_iff.1 htext
    obtain ⟨q, hq, hvalid, rfl⟩ := ofJson_eq_ok_iff.1 hj
    rw [program_ofProgram, parse_render_eq (valid_withUses hvalid).checked
      (fits_withUses (fits_of_decode? hq)), withUses_withUses]

/-- A program with a function marked as one whose address is taken, which it is not. -/
def markedList : Program :=
  (Request.built Request.listRequests).changeFunction 0 ({ · with addressTaken := true })

/-- The list is read back as it was built, and what is read for the marked one is a program with
the mark taken away, which is read back as it is. -/
theorem parse_render_list :
    (∃ b, Builder.parse markedList.render = .ok b ∧ markedList.SameRecords b.program ∧
      b.program.Valid ∧ Builder.parse b.program.render = .ok b) ∧
    ∃ b, Builder.parse (Request.built Request.listRequests).render = .ok b ∧
      b.program = Request.built Request.listRequests ∧ b.types.lookupStruct? "node" = some 0 := by
  have hmarked : decode? markedList.toJson = some { markedList with users := #[] } := by
    decide +kernel
  have hbuilt : decode? (Request.built Request.listRequests).toJson =
      some { Request.built Request.listRequests with users := #[] } := by decide +kernel
  have hserved : Request.built Request.listRequests =
      (Builder.serve Request.listRequests).program.withUses :=
    congrArg withUses (Builder.sound_serve Request.listRequests).2.symm
  have hnode : (Builder.serve Request.listRequests).types.lookupStruct? "node" = some 0 := by
    decide +kernel
  constructor
  · obtain ⟨b, hb, hsame, hvalid, -⟩ :=
      (parse_render _).1 (by decide +kernel) (fits_of_users (fits_of_decode? hmarked))
    exact ⟨b, hb, hsame, hvalid, (parse_render markedList).2.2 _ b hb⟩
  · obtain ⟨-, b, hb, hprogram, hlookup⟩ := (parse_render _).2.1 Request.listRequests hserved
      (by decide +kernel) (fits_of_users (fits_of_decode? hbuilt))
    exact ⟨b, hb, hprogram, (hlookup .void "node").2.1.trans hnode⟩

end CallTargets.Program
