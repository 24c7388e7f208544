import CallTargets.Proofs.Program.Built
import CallTargets.Ty.Index
import Mathlib.Data.List.Induction

/-!
# Look-ups by an index

The maps of an indexed table lead to what going through its types finds
(`IndexedTable.Finds`): an addition is noted in one of them, new fields change no key, and maps
that are made anew note the types one by one as if they were added. So an indexed table does
what the plain one does, request by request, and no two of its types come to have the same key
(`IndexedTable.Sound`). That each type keeps its name for good follows from there.
-/

namespace CallTargets

/-! ## Keys of a plain table -/

namespace TypeTable

variable {types types' : TypeTable} {ty ty' : Ty} {t : TypeId} {fields : List TypeId}

theorem length_keys (types : TypeTable) : types.keys.length = types.size := by
  rw [keys, List.length_map, Array.length_toList, size]

theorem key_of_find? (h : types.find? ty = some t) :
    ∃ ty', types.get? t = some ty' ∧ ty'.key = ty.key := by
  rw [find?_eq_idxOf?] at h
  obtain ⟨i, hi, rfl⟩ := Option.map_eq_some_iff.1 h
  obtain ⟨hlt, hkey, -⟩ := List.idxOf?_eq_some_iff.1 hi
  have hget : (types.get? ⟨i⟩).map Ty.key = some ty.key := by
    rw [← getElem?_keys, List.getElem?_eq_getElem hlt, hkey]
  exact Option.map_eq_some_iff.1 hget

theorem find?_of_keys_eq (h : types'.keys = types.keys) (ty : Ty) :
    types'.find? ty = types.find? ty := by
  rw [find?_eq_idxOf?, h, ← find?_eq_idxOf?]

theorem find?_push (types : TypeTable) (ty ty' : Ty) :
    (TypeTable.mk (types.types.push ty)).find? ty' =
      (types.find? ty').or (if ty.key = ty'.key then some ⟨types.size⟩ else none) := by
  have hkeys : (TypeTable.mk (types.types.push ty)).keys = types.keys ++ [ty.key] := by
    simp [keys]
  rw [find?_eq_idxOf?, find?_eq_idxOf?, hkeys, List.idxOf?, List.findIdx?_append, Option.map_or]
  congr 1
  by_cases hkey : ty.key = ty'.key
  · simp [hkey, length_keys]
  · simp [hkey]

theorem setBody_eq_ok {name : String} (h : types.get? t = some ty)
    (hname : ty.structName? = some name) (fields : List TypeId) :
    types.setBody t fields =
      .ok ⟨types.types.setIfInBounds t.index (.struct (some name) fields false)⟩ := by
  cases ty with
  | struct name' old bodiless =>
    cases hname
    rw [setBody, h]
  | _ => cases hname

theorem get?_setBody (h : types.setBody t fields = .ok types') :
    ∃ name, (types.get? t).bind Ty.structName? = some name ∧
      types'.get? t = some (.struct (some name) fields false) ∧
      ∀ u, u ≠ t → types'.get? u = types.get? u := by
  unfold setBody at h
  split at h
  case h_1 name old bodiless hstruct =>
    cases h
    obtain ⟨hlt, -⟩ := Array.getElem?_eq_some_iff.1 hstruct
    refine ⟨name, by rw [hstruct]; rfl, ?_, fun u hu => ?_⟩
    · exact (Array.getElem?_setIfInBounds_self).trans (if_pos hlt)
    · refine Array.getElem?_setIfInBounds_ne fun heq => hu ?_
      obtain ⟨i⟩ := u
      obtain ⟨j⟩ := t
      exact congrArg TypeId.mk heq.symm
  case h_2 => cases h
  case h_3 => cases h

end TypeTable

namespace IndexedTable

variable {t : IndexedTable} {types : TypeTable} {ty ty' : Ty} {id : TypeId} {name : String}
  {fields : List TypeId}

/-! ## What the maps lead to -/

/-- The maps lead to what going through the types finds. No named struct is found by what it is
made of. -/
structure Finds (t : IndexedTable) (types : TypeTable) : Prop where
  unnamed : ∀ ty, ty.structName? = none → t.unnamed.get? ty = types.find? ty
  named : ∀ ty name, ty.structName? = some name → t.unnamed.get? ty = none
  structs : ∀ name, t.structs.get? name = types.lookupStruct? name

theorem get?_insertIfNew {κ ν : Type} [DecidableEq κ] (m : OrdMap κ ν) (k j : κ) (v : ν) :
    (m.insertIfNew k v).get? j = (m.get? j).or (if k = j then some v else none) := by
  rw [OrdMap.insertIfNew, OrdMap.get?_alter]
  by_cases hkey : k = j
  · subst hkey
    cases hget : m.get? k with
    | none => simp
    | some v => simp
  · simp [hkey]

namespace Finds

theorem empty : ({} : IndexedTable).Finds {} := by
  have hnone (ty : Ty) : TypeTable.find? {} ty = none :=
    TypeTable.find?_eq_none_iff.2 List.not_mem_nil
  exact ⟨fun ty _ => (hnone ty).symm, fun _ _ _ => rfl,
    fun name => (hnone (.struct (some name) [] true)).symm⟩

theorem find? (h : t.Finds types) (ty : Ty) : t.find? ty = types.find? ty := by
  unfold IndexedTable.find?
  cases hname : ty.structName? with
  | none => exact h.unnamed ty hname
  | some name =>
    rw [h.named ty name hname, Option.or_none, TypeTable.find?, hname]
    exact h.structs name

theorem note (h : t.Finds types) (ty : Ty) :
    (t.note ty ⟨types.size⟩).Finds ⟨types.types.push ty⟩ := by
  unfold IndexedTable.note
  cases hname : ty.structName? with
  | some name =>
    refine ⟨fun ty' hty' => ?_, h.named, fun name' => ?_⟩
    · have hkey : ty.key ≠ ty'.key := fun heq => by
        rw [eq_comm, Ty.key_eq_iff hname, hty'] at heq
        cases heq
      rw [TypeTable.find?_push, if_neg hkey, Option.or_none]
      exact h.unnamed ty' hty'
    · have hkey : ty.key = Ty.key (.struct (some name') [] true) ↔ name = name' := by
        rw [eq_comm, Ty.key_eq_iff hname]
        simp [Ty.structName?, eq_comm]
      have hfind := TypeTable.find?_push types ty (.struct (some name') [] true)
      rw [if_congr hkey rfl rfl] at hfind
      exact (get?_insertIfNew _ _ _ _).trans (h.structs name' ▸ hfind.symm)
  | none =>
    refine ⟨fun ty' hty' => ?_, fun ty' name' hty' => ?_, fun name' => ?_⟩
    · have hkey : ty.key = ty'.key ↔ ty = ty' := Ty.key_eq_iff_eq hty'
      rw [TypeTable.find?_push, if_congr hkey rfl rfl, ← h.unnamed ty' hty']
      exact get?_insertIfNew _ _ _ _
    · have hne : ty ≠ ty' := by
        rintro rfl
        rw [hname] at hty'
        cases hty'
      refine (get?_insertIfNew _ _ _ _).trans ?_
      rw [h.named ty' name' hty', if_neg hne]
      rfl
    · have hkey : ty.key ≠ Ty.key (.struct (some name') [] true) := fun heq => by
        have hname' := congrArg Ty.structName? heq
        rw [Ty.structName?_key, hname] at hname'
        cases hname'
      have hfind := TypeTable.find?_push types ty (.struct (some name') [] true)
      rw [if_neg hkey, Option.or_none] at hfind
      exact (h.structs name').trans hfind.symm

theorem of_keys_eq {types' : TypeTable} (h : t.Finds types) (hkeys : types'.keys = types.keys) :
    t.Finds types' where
  unnamed := fun ty hname => (h.unnamed ty hname).trans (TypeTable.find?_of_keys_eq hkeys ty).symm
  named := h.named
  structs := fun name => (h.structs name).trans
    (TypeTable.find?_of_keys_eq hkeys (.struct (some name) [] true)).symm

end Finds

theorem table_note (t : IndexedTable) (ty : Ty) (id : TypeId) : (t.note ty id).table = t.table := by
  unfold note
  split <;> rfl

theorem finds_reindex (t : IndexedTable) : t.reindex.Finds t.table := by
  -- a prefix of the types has been noted as if it were the whole table
  have hprefix : ∀ (start : IndexedTable) (tys : List Ty), start.Finds {} →
      (tys.zipIdx.foldl (fun t entry => t.note entry.1 ⟨entry.2⟩) start).Finds ⟨tys.toArray⟩ := by
    intro start tys hstart
    induction tys using List.reverseRecOn with
    | nil => exact hstart
    | append_singleton tys ty ih =>
      rw [List.zipIdx_append, List.foldl_append]
      have hnote := ih.note ty
      simpa [TypeTable.size] using hnote
  have hstart : ({ table := t.table } : IndexedTable).Finds {} :=
    ⟨Finds.empty.unnamed, Finds.empty.named, Finds.empty.structs⟩
  exact hprefix _ t.table.types.toList hstart

theorem table_reindex (t : IndexedTable) : t.reindex.table = t.table := by
  unfold reindex
  exact List.foldlRecOn (motive := fun u : IndexedTable => u.table = t.table) _ _ rfl
    fun u hu entry _ => (u.table_note _ _).trans hu

theorem declareStruct_eq (t : IndexedTable) (name : String) :
    t.declareStruct name = t.intern (.struct (some name) [] true) := by
  unfold declareStruct intern
  cases hfind : t.lookupStruct? name with
  | some id => simp [find?, Ty.structName?, hfind]
  | none => rfl

/-! ## Tables in line with their maps -/

/-- The maps lead to the types of the table, of which no two have the same key. -/
structure Sound (t : IndexedTable) : Prop where
  finds : t.Finds t.table
  nodup : t.table.keys.Nodup

namespace Sound

theorem empty : ({} : IndexedTable).Sound := ⟨.empty, List.nodup_nil⟩

variable (h : t.Sound)
include h

theorem find?_of_get? (hget : t.get? id = some ty') (hkey : ty'.key = ty.key) :
    t.table.find? ty = some id := by
  rw [TypeTable.find?_eq_idxOf?, ← hkey, ← TypeTable.find?_eq_idxOf?]
  exact TypeTable.indexed_of_nodup h.nodup id ty' hget

theorem intern_eq (ty : Ty) : ((t.intern ty).1, (t.intern ty).2.table) = t.table.intern ty := by
  unfold IndexedTable.intern TypeTable.intern
  rw [h.finds.find?]
  cases t.table.find? ty with
  | some id => rfl
  | none => rfl

theorem table_intern (ty : Ty) : (t.intern ty).2.table = (t.table.intern ty).2 :=
  congrArg Prod.snd (h.intern_eq ty)

theorem intern (ty : Ty) : (t.intern ty).2.Sound := by
  refine ⟨?_, h.table_intern ty ▸ TypeTable.nodup_keys_intern h.nodup ty⟩
  unfold IndexedTable.intern
  cases t.find? ty with
  | some id => exact h.finds
  | none =>
    have hnote := h.finds.note ty
    exact ⟨hnote.unnamed, hnote.named, hnote.structs⟩

theorem key_intern (ty : Ty) :
    ∃ ty', (t.intern ty).2.get? (t.intern ty).1 = some ty' ∧ ty'.key = ty.key := by
  unfold IndexedTable.intern
  cases hfind : t.find? ty with
  | some id => exact TypeTable.key_of_find? (h.finds.find? ty ▸ hfind)
  | none => exact ⟨ty, Program.get?_push_self t.table ty, rfl⟩

theorem setBody (hbody : t.table.setBody id fields = .ok types) :
    { t with table := types }.Sound := by
  have hkeys := TypeTable.keys_setBody hbody
  have hfinds := h.finds.of_keys_eq hkeys
  exact ⟨⟨hfinds.unnamed, hfinds.named, hfinds.structs⟩, hkeys ▸ h.nodup⟩

theorem reindex : t.reindex.Sound :=
  ⟨t.table_reindex ▸ t.finds_reindex, t.table_reindex ▸ h.nodup⟩

theorem defineStruct_eq (name : String) (fields : List TypeId) : ∃ types,
    (t.table.declareStruct name).2.setBody (t.table.declareStruct name).1 fields = .ok types ∧
      t.defineStruct name fields = .ok ((t.declareStruct name).1,
        { (t.declareStruct name).2 with table := types }) := by
  have hplain := h.intern_eq (.struct (some name) [] true)
  obtain ⟨ty', hget, hkey⟩ := h.key_intern (.struct (some name) [] true)
  have hname : ty'.structName? = some name := by
    rw [← Ty.structName?_key, hkey]
    rfl
  have hbody := TypeTable.setBody_eq_ok hget hname fields
  refine ⟨_, by rw [TypeTable.declareStruct, ← hplain]; exact hbody, ?_⟩
  rw [defineStruct, declareStruct_eq]
  simp only [IndexedTable.setBody]
  rw [hbody]
  rfl

end Sound

end IndexedTable

/-! ## Requests -/

namespace TypeRequest

/-- The request to a program for the same types. -/
def toRequest : TypeRequest → Request
  | intern ty => .intern ty
  | bytePointer => .bytePointer
  | declareStruct name => .intern (.struct (some name) [] true)
  | setBody t fields => .setBody t fields
  | defineStruct name fields => .defineStruct name fields
  | reindex => .reindex

/-- The struct that a request gives fields to, and these fields. -/
def fills? (t : IndexedTable) : TypeRequest → Option (TypeId × List TypeId)
  | setBody id fields => some (id, fields)
  | defineStruct name fields => (t.lookupStruct? name).map (·, fields)
  | _ => none

end TypeRequest

section Runs

variable {α β : Type} {p : Program} {what : Program → Except Fault α} {f : α → Build β}

theorem Build.run_ask_of_ok {a : α} (h : what p = .ok a) :
    (ask what >>= f).run p = (f a).run p := by
  rw [run_bind, show (ask what).run p = (what p, p) from rfl, h]

theorem Build.run_ask_of_error {fault : Fault} (h : what p = .error fault) :
    (ask what >>= f).run p = (.error fault, p) := by
  rw [run_bind, show (ask what).run p = (what p, p) from rfl, h]

end Runs

namespace IndexedTable

variable {t : IndexedTable} {ty : Ty} {id : TypeId} {p : Program}

/-- A program whose types are those of the table grants a request as the table does, yields the
same type and has the same types afterwards. -/
theorem Sound.apply (h : t.Sound) (hp : p.types = t.table) (r : TypeRequest) :
    (t.apply r).Sound ∧ (r.toRequest.apply p).types = (t.apply r).table ∧
      r.toRequest.yields p = (t.yields? r).toList.map .type := by
  have hintern (ty : Ty) : (t.intern ty).2.Sound ∧
      (p.types.intern ty).2 = (t.intern ty).2.table ∧
      [Entity.type (p.types.intern ty).1] = [Entity.type (t.intern ty).1] := by
    rw [hp, ← h.intern_eq]
    exact ⟨h.intern ty, rfl, rfl⟩
  cases r with
  | intern ty => exact hintern ty
  | bytePointer =>
    have hbyte := h.intern (.integer 8)
    change _ ∧ ((p.types.intern (.integer 8)).2.intern
        (.pointer (p.types.intern (.integer 8)).1)).2 = _ ∧
      [Entity.type ((p.types.intern (.integer 8)).2.intern
        (.pointer (p.types.intern (.integer 8)).1)).1] = _
    rw [hp, ← h.intern_eq, ← hbyte.intern_eq]
    exact ⟨hbyte.intern _, rfl, rfl⟩
  | declareStruct name =>
    have hperform : TypeRequest.perform t (.declareStruct name) =
        TypeRequest.perform t (.intern (.struct (some name) [] true)) := by
      simp only [TypeRequest.perform, declareStruct_eq]
    rw [IndexedTable.apply, yields?, hperform]
    exact hintern (.struct (some name) [] true)
  | setBody id fields =>
    cases hbody : t.table.setBody id fields with
    | ok types =>
      have hperform : TypeRequest.perform t (.setBody id fields) =
          .ok (none, { t with table := types }) := by
        simp only [TypeRequest.perform, IndexedTable.setBody, hbody]
        rfl
      have hplain : (Request.perform (.setBody id fields)).run p = (.ok [], { p with types }) :=
        Build.run_ask_of_ok (hp ▸ hbody)
      rw [IndexedTable.apply, yields?, Request.apply, Request.yields, TypeRequest.toRequest,
        hperform, hplain]
      exact ⟨h.setBody hbody, rfl, rfl⟩
    | error fault =>
      have hperform : TypeRequest.perform t (.setBody id fields) = .error fault := by
        simp only [TypeRequest.perform, IndexedTable.setBody, hbody]
        rfl
      have hplain : (Request.perform (.setBody id fields)).run p = (.error fault, p) :=
        Build.run_ask_of_error (hp ▸ hbody)
      rw [IndexedTable.apply, yields?, Request.apply, Request.yields, TypeRequest.toRequest,
        hperform, hplain]
      exact ⟨h, hp, rfl⟩
  | defineStruct name fields =>
    obtain ⟨types, hbody, hdefine⟩ := h.defineStruct_eq name fields
    have hperform : TypeRequest.perform t (.defineStruct name fields) =
        .ok (some (t.declareStruct name).1, { (t.declareStruct name).2 with table := types }) := by
      simp only [TypeRequest.perform, hdefine]
      rfl
    have hdeclared : p.types.defineStruct name fields =
        .ok ((t.table.declareStruct name).1, types) := by
      simp only [TypeTable.defineStruct, hp, hbody]
      rfl
    have hplain : (Request.perform (.defineStruct name fields)).run p =
        (.ok [.type (t.table.declareStruct name).1], { p with types }) := by
      rw [Request.perform, Build.run_ask_of_ok hdeclared]
      rfl
    rw [IndexedTable.apply, yields?, Request.apply, Request.yields, TypeRequest.toRequest,
      hperform, hplain, declareStruct_eq, TypeTable.declareStruct, ← h.intern_eq]
    have hbody' : (t.intern (.struct (some name) [] true)).2.table.setBody
        (t.table.declareStruct name).1 fields = .ok types := by
      rw [h.table_intern]
      exact hbody
    exact ⟨(h.intern _).setBody hbody', rfl, rfl⟩
  | reindex => exact ⟨h.reindex, hp.trans t.table_reindex.symm, rfl⟩

theorem Sound.serve (h : t.Sound) (rs : List TypeRequest) : (t.serve rs).Sound :=
  List.foldlRecOn rs IndexedTable.apply h fun t ht r _ =>
    (ht.apply (p := { types := t.table }) rfl r).1

theorem Sound.types_foldl (h : t.Sound) (hp : p.types = t.table) (rs : List TypeRequest) :
    ((rs.map TypeRequest.toRequest).foldl Request.apply p).types = (t.serve rs).table := by
  induction rs generalizing p t with
  | nil => exact hp
  | cons r rs ih =>
    obtain ⟨hsound, htypes, -⟩ := h.apply hp r
    exact ih hsound htypes

/-! ## Names in use -/

theorem get?_intern (hget : t.get? id = some ty) (ty' : Ty) :
    (t.intern ty').2.get? id = some ty := by
  unfold intern
  cases t.find? ty' with
  | some id' => exact hget
  | none => exact Program.get?_push_eq_some_iff.2 (.inl hget)

theorem get?_declareStruct (hget : t.get? id = some ty) (name : String) :
    (t.declareStruct name).2.get? id = some ty := by
  rw [declareStruct_eq]
  exact get?_intern hget _

theorem get?_setBody {t' : IndexedTable} {u : TypeId} {fields : List TypeId}
    (hget : t.get? id = some ty) (hbody : t.setBody u fields = .ok t') :
    t'.get? id = some ty ∨ ∃ name, ty.structName? = some name ∧ u = id ∧
      t'.get? id = some (.struct (some name) fields false) := by
  obtain ⟨types, htypes, heq⟩ := bind_eq_ok.1 hbody
  cases heq
  obtain ⟨name, hname, hset, hrest⟩ := TypeTable.get?_setBody htypes
  by_cases hu : u = id
  · subst hu
    rw [show t.table.get? u = some ty from hget] at hname
    exact .inr ⟨name, hname, rfl, hset⟩
  · exact .inl ((hrest id (Ne.symm hu)).trans hget)

/-- Under a name that is in use, a request changes nothing but the fields of the struct that it
is to fill. -/
theorem Sound.get?_apply (h : t.Sound) (hget : t.get? id = some ty) (r : TypeRequest) :
    (t.apply r).get? id = some ty ∨ ∃ name fields, ty.structName? = some name ∧
      r.fills? t = some (id, fields) ∧
      (t.apply r).get? id = some (.struct (some name) fields false) := by
  cases r with
  | intern ty' => exact .inl (get?_intern hget ty')
  | bytePointer => exact .inl (get?_intern (get?_intern hget _) _)
  | declareStruct name => exact .inl (get?_declareStruct hget name)
  | setBody u fields =>
    cases hbody : t.setBody u fields with
    | ok t' =>
      have happly : t.apply (.setBody u fields) = t' := by
        simp only [IndexedTable.apply, TypeRequest.perform, hbody]
        rfl
      rw [happly]
      refine (get?_setBody hget hbody).imp_right ?_
      rintro ⟨name, hname, rfl, hset⟩
      exact ⟨name, fields, hname, rfl, hset⟩
    | error fault =>
      have happly : t.apply (.setBody u fields) = t := by
        simp only [IndexedTable.apply, TypeRequest.perform, hbody]
        rfl
      exact .inl (happly.symm ▸ hget)
  | defineStruct name fields =>
    obtain ⟨types, hbody, hdefine⟩ := h.defineStruct_eq name fields
    have happly : t.apply (.defineStruct name fields) =
        { (t.declareStruct name).2 with table := types } := by
      simp only [IndexedTable.apply, TypeRequest.perform, hdefine]
      rfl
    have hset : (t.declareStruct name).2.setBody (t.declareStruct name).1 fields =
        .ok { (t.declareStruct name).2 with table := types } := by
      obtain ⟨t', ht', heq⟩ := bind_eq_ok.1 hdefine
      cases heq
      exact ht'
    rw [happly]
    refine (get?_setBody (get?_declareStruct hget name) hset).imp_right ?_
    rintro ⟨name', hname', hid, hset'⟩
    refine ⟨name', fields, hname', ?_, hset'⟩
    -- a name in use is not new, so the struct was there before
    unfold declareStruct at hid
    cases hfind : t.lookupStruct? name with
    | some id' =>
      rw [hfind] at hid
      simp only [TypeRequest.fills?, hfind, Option.map_some, ← hid]
    | none =>
      have hnew : (t.intern (.struct (some name) [] true)).1 = ⟨t.table.size⟩ := by
        simp [IndexedTable.intern, IndexedTable.find?, Ty.structName?, hfind,
          h.finds.named (.struct (some name) [] true) name rfl]
      rw [hfind, hnew] at hid
      have hlt : id.index < t.table.size := (Array.getElem?_eq_some_iff.1 hget).1
      rw [← hid] at hlt
      exact absurd hlt (Nat.lt_irrefl _)
  | reindex =>
    refine .inl ?_
    change t.reindex.table.get? id = some ty
    rw [table_reindex]
    exact hget

theorem Sound.get?_serve (h : t.Sound) (hget : t.get? id = some ty) (hname : ty.structName? = none)
    (rs : List TypeRequest) : (t.serve rs).get? id = some ty := by
  induction rs generalizing t with
  | nil => exact hget
  | cons r rs ih =>
    refine ih (h.apply (p := { types := t.table }) rfl r).1 ?_
    rcases h.get?_apply hget r with hkept | ⟨name, fields, hnamed, -⟩
    · exact hkept
    · rw [hname] at hnamed
      cases hnamed

theorem Sound.get?_intern_self (h : t.Sound) (hname : ty.structName? = none) :
    (t.intern ty).2.get? (t.intern ty).1 = some ty := by
  obtain ⟨ty', hget, hkey⟩ := h.key_intern ty
  rw [hget, (Ty.key_eq_iff_eq hname).1 hkey]

theorem Sound.intern_serve_iff (h : t.Sound) {ty ty' : Ty} (hname : ty.structName? = none)
    (hname' : ty'.structName? = none) (rs : List TypeRequest) :
    (((t.intern ty).2.serve rs).intern ty').1 = (t.intern ty).1 ↔ ty' = ty := by
  have hlater := (h.intern ty).serve rs
  have hkept := (h.intern ty).get?_serve (h.get?_intern_self hname) hname rs
  constructor
  · intro heq
    have hget := hlater.get?_intern_self hname'
    rw [heq, get?_intern hkept ty'] at hget
    exact (Option.some.inj hget).symm
  · rintro rfl
    have hfind := hlater.finds.find? ty'
    rw [hlater.find?_of_get? hkept rfl] at hfind
    rw [IndexedTable.intern, hfind]

/-! ## Faithful tables -/

/-- A table that gives each type one name for good. -/
structure Faithful (t : IndexedTable) : Prop where
  eq_of_unnamed : ∀ {i j : TypeId} {ty : Ty}, ty.structName? = none →
    t.get? i = some ty → t.get? j = some ty → i = j
  eq_of_structName : ∀ {i j : TypeId} {ty ty' : Ty} {name : String}, t.get? i = some ty →
    t.get? j = some ty' → ty.structName? = some name → ty'.structName? = some name → i = j
  get_intern : ∀ {ty : Ty}, ty.structName? = none →
    (t.intern ty).2.get? (t.intern ty).1 = some ty
  /-- The name that a type gets is that of equal types only, at once and after any further
  requests. -/
  intern_eq_iff : ∀ {ty ty' : Ty} (rs : List TypeRequest), ty.structName? = none →
    ty'.structName? = none →
    ((((t.intern ty).2.serve rs).intern ty').1 = (t.intern ty).1 ↔ ty' = ty)
  get_apply : ∀ {id : TypeId} {ty : Ty} (r : TypeRequest), t.get? id = some ty →
    (t.apply r).get? id = some ty ∨ ∃ name fields, ty.structName? = some name ∧
      r.fills? t = some (id, fields) ∧
      (t.apply r).get? id = some (.struct (some name) fields false)
  /-- New maps lead to what the old ones led to. -/
  reindex : ∀ (ty : Ty) (name : String), t.reindex.unnamed.get? ty = t.unnamed.get? ty ∧
    t.reindex.lookupStruct? name = t.lookupStruct? name ∧ t.reindex.find? ty = t.find? ty

theorem Finds.unique {t' : IndexedTable} {types : TypeTable} (h : t.Finds types)
    (h' : t'.Finds types) (ty : Ty) (name : String) :
    t'.unnamed.get? ty = t.unnamed.get? ty ∧ t'.lookupStruct? name = t.lookupStruct? name ∧
      t'.find? ty = t.find? ty := by
  refine ⟨?_, (h'.structs name).trans (h.structs name).symm, (h'.find? ty).trans (h.find? ty).symm⟩
  cases hname : ty.structName? with
  | none => rw [h.unnamed ty hname, h'.unnamed ty hname]
  | some name => rw [h.named ty name hname, h'.named ty name hname]

theorem Sound.faithful (h : t.Sound) : t.Faithful where
  eq_of_unnamed := fun _ hi hj => Option.some.inj
    ((h.find?_of_get? hi rfl).symm.trans (h.find?_of_get? hj rfl))
  eq_of_structName := fun hi hj hname hname' => Option.some.inj
    ((h.find?_of_get? hi rfl).symm.trans
      (h.find?_of_get? hj ((Ty.key_eq_iff hname).2 hname')))
  get_intern := h.get?_intern_self
  intern_eq_iff := fun rs hname hname' => h.intern_serve_iff hname hname' rs
  get_apply := fun r hget => h.get?_apply hget r
  reindex := h.finds.unique t.finds_reindex

/-- Whatever requests are made of an empty table, each type has one name for good; and a program
that is asked for the same types has the same table and grants further requests alike. -/
theorem faithful_serve (rs : List TypeRequest) :
    (({} : IndexedTable).serve rs).Faithful ∧
      ((rs.map TypeRequest.toRequest).foldl Request.apply {}).types =
        (({} : IndexedTable).serve rs).table ∧
      ∀ r : TypeRequest,
        r.toRequest.yields ((rs.map TypeRequest.toRequest).foldl Request.apply {}) =
          ((({} : IndexedTable).serve rs).yields? r).toList.map .type := by
  have hsound : (({} : IndexedTable).serve rs).Sound := Sound.empty.serve rs
  have htypes := Sound.empty.types_foldl (p := {}) rfl rs
  exact ⟨hsound.faithful, htypes, fun r => (hsound.apply htypes r).2.2⟩

end IndexedTable

end CallTargets
