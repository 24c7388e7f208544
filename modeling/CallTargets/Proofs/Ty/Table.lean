import CallTargets.Ty.Table
import Mathlib.Data.List.Nodup

/-!
# Types under their names

A type is looked up by its key: a struct with a name by the name alone, and any other type by all
that it is made of. Only types with new keys are added, and the fields of a named struct are no
part of its key, so no two types of a table come to have the same key. Then each type is found
under its own name (`TypeTable.Indexed`).
-/

namespace CallTargets

namespace Ty

variable {ty ty' : Ty} {name : String}

/-- What a type is looked up by. A named struct stands for its declaration. -/
def key (ty : Ty) : Ty :=
  match ty.structName? with
  | some name => .struct (some name) [] true
  | none => ty

theorem key_of_structName? (h : ty.structName? = some name) :
    ty.key = .struct (some name) [] true := by
  rw [key, h]

theorem key_of_structName?_eq_none (h : ty.structName? = none) : ty.key = ty := by
  rw [key, h]

theorem structName?_key (ty : Ty) : ty.key.structName? = ty.structName? := by
  cases h : ty.structName? with
  | some name => rw [key_of_structName? h, structName?]
  | none => rw [key_of_structName?_eq_none h, h]

theorem key_eq_iff (h : ty.structName? = some name) :
    ty'.key = ty.key ↔ ty'.structName? = some name := by
  constructor
  · intro hkey
    rw [← structName?_key, hkey, structName?_key, h]
  · intro h'
    rw [key_of_structName? h, key_of_structName? h']

theorem key_eq_iff_eq (h : ty.structName? = none) : ty'.key = ty.key ↔ ty' = ty := by
  constructor
  · intro hkey
    have h' : ty'.structName? = none := by rw [← structName?_key, hkey, structName?_key, h]
    rwa [key_of_structName?_eq_none h, key_of_structName?_eq_none h'] at hkey
  · rintro rfl
    rfl

end Ty

namespace TypeTable

variable {types types' : TypeTable} {ty : Ty} {t : TypeId} {fields : List TypeId}

/-- Each type is found under its own name when it is looked up. -/
def Indexed (types : TypeTable) : Prop := ∀ t ty, types.get? t = some ty → types.find? ty = some t

def keys (types : TypeTable) : List Ty := types.types.toList.map Ty.key

theorem getElem?_keys (types : TypeTable) (t : TypeId) :
    types.keys[t.index]? = (types.get? t).map Ty.key := by
  rw [keys, List.getElem?_map, Array.getElem?_toList, get?]

theorem find?_eq_idxOf? (types : TypeTable) (ty : Ty) :
    types.find? ty = (types.keys.idxOf? ty.key).map TypeId.mk := by
  have hfind (holds : Ty → Bool) (hholds : ∀ ty', holds ty' = (ty'.key == ty.key)) :
      (types.types.findIdx? holds).map TypeId.mk = (types.keys.idxOf? ty.key).map TypeId.mk := by
    have hcomp : holds = (· == ty.key) ∘ Ty.key := funext hholds
    rw [keys, List.idxOf?, List.findIdx?_map, hcomp, ← List.findIdx?_toArray, Array.toArray_toList]
  unfold find?
  cases hname : ty.structName? with
  | some name => exact hfind _ fun ty' => by simp [Ty.key_eq_iff hname, Bool.beq_eq_decide_eq]
  | none => exact hfind _ fun ty' => by simp [Ty.key_eq_iff_eq hname, Bool.beq_eq_decide_eq]

theorem find?_eq_none_iff : types.find? ty = none ↔ ty.key ∉ types.keys := by
  rw [find?_eq_idxOf?, Option.map_eq_none_iff, List.idxOf?_eq_none_iff]

theorem indexed_of_nodup (h : types.keys.Nodup) : types.Indexed := by
  intro t ty hty
  have hkey : types.keys[t.index]? = some ty.key := by rw [getElem?_keys, hty, Option.map_some]
  obtain ⟨hlt, hget⟩ := List.getElem?_eq_some_iff.1 hkey
  have hidx : types.keys.idxOf? ty.key = some t.index := by
    refine List.idxOf?_eq_some_iff.2 ⟨hlt, hget, fun j hj heq => ?_⟩
    have := (h.getElem_inj_iff).1 (heq.trans hget.symm)
    omega
  rw [find?_eq_idxOf?, hidx, Option.map_some]

/-! ## Keys stay distinct -/

theorem nodup_keys_intern (h : types.keys.Nodup) (ty : Ty) : (types.intern ty).2.keys.Nodup := by
  unfold intern
  cases hfind : types.find? ty with
  | some t => exact h
  | none =>
    have hkeys : (TypeTable.mk (types.types.push ty)).keys = types.keys ++ [ty.key] := by
      simp [keys]
    change (TypeTable.mk (types.types.push ty)).keys.Nodup
    rw [hkeys]
    exact List.nodup_append.2 ⟨h, List.nodup_singleton _, fun a ha b hb heq =>
      find?_eq_none_iff.1 hfind (List.eq_of_mem_singleton hb ▸ heq ▸ ha)⟩

theorem keys_setBody (h : types.setBody t fields = .ok types') : types'.keys = types.keys := by
  unfold setBody at h
  split at h
  case h_1 name old bodiless hstruct =>
    cases h
    have hkey : types.keys[t.index]? = some (.struct (some name) [] true) := by
      rw [getElem?_keys, hstruct]
      rfl
    obtain ⟨hlt, hget⟩ := List.getElem?_eq_some_iff.1 hkey
    rw [keys, Array.toList_setIfInBounds, List.map_set]
    change types.keys.set t.index (.struct (some name) [] true) = types.keys
    rw [← hget, List.set_getElem_self]
  case h_2 => cases h
  case h_3 => cases h

end TypeTable

end CallTargets
