import CallTargets.Proofs.Json.Codec
import CallTargets.Ty.Document

/-!
# Codecs of types

In a document, names and widths are natural numbers of 32 bits, and lengths are natural numbers
of 64 bits. A type `Fits` if its numbers have these widths, and has a codec then.
-/

namespace CallTargets

open Json

def TypeId.Fits (t : TypeId) : Prop := t.index < 2 ^ 32

theorem TypeId.codec : Codec toJson ofJson? Fits := .ofIndex (fun _ => rfl) fun _ => rfl

namespace Ty

def Fits : Ty → Prop
  | void | label => True
  | integer bits | float bits => bits < 2 ^ 32
  | pointer t => t.Fits
  | function ret params _ => ret.Fits ∧ ∀ t ∈ params, t.Fits
  | struct _ fields _ => ∀ t ∈ fields, t.Fits
  | array t length | vector t length => t.Fits ∧ length < 2 ^ 64

theorem codec_single {α : Type} {write : α → Json} {read? : Json → Option α} {F : α → Prop}
    (h : Codec write read? F) (name : String) :
    Codec (fun a => .record [(name, write a)]) (single? name read?) F where
  plain a := plain_record (h.plain a)
  read ha := read_record (List.pairwise_singleton _ name) rfl (h.read ha)
  fits {j a} ha := by
    obtain ⟨fields, -, ha⟩ := part_iff.1 ha
    split at ha
    · exact h.fits ha
    · cases ha

theorem codec_sequence :
    Codec (fun s : TypeId × Nat => .record [("element", s.1.toJson), ("len", .nat s.2)]) sequence?
      fun s => s.1.Fits ∧ s.2 < 2 ^ 64 where
  plain s := plain_record ⟨TypeId.codec.plain s.1, plain_nat s.2⟩
  read h := read_record (by decide) rfl
    (read_part (TypeId.codec.read h.1) (read_part (codec_nat64.read h.2) rfl))
  fits {j s} h := by
    obtain ⟨fields, -, h⟩ := part_iff.1 h
    split at h
    · simp only [part_iff] at h
      obtain ⟨_, ht, _, hn, ⟨⟩⟩ := h
      exact ⟨TypeId.codec.fits ht, codec_nat64.fits hn⟩
    · cases h

theorem fits_of_function? {j : Json} {ty : Ty} (h : function? j = some ty) : ty.Fits := by
  obtain ⟨fields, -, h⟩ := part_iff.1 h
  split at h
  · simp only [part_iff] at h
    obtain ⟨_, ht, _, hts, _, _, ⟨⟩⟩ := h
    exact ⟨TypeId.codec.fits ht, TypeId.codec.list.fits hts⟩
  · cases h

theorem fits_of_struct? {j : Json} {ty : Ty} (h : struct? j = some ty) : ty.Fits := by
  obtain ⟨fields, -, h⟩ := part_iff.1 h
  split at h
  · simp only [part_iff] at h
    obtain ⟨_, _, _, hts, _, _, ⟨⟩⟩ := h
    exact TypeId.codec.list.fits hts
  · cases h

theorem codec : Codec toJson ofJson? Fits where
  plain ty := by
    cases ty with
    | void => exact plain_text _
    | label => exact plain_text _
    | integer bits => exact plain_tagged _ (plain_record (plain_nat bits))
    | float bits => exact plain_tagged _ (plain_record (plain_nat bits))
    | pointer t => exact plain_tagged _ (plain_record (TypeId.codec.plain t))
    | function ret params variadic =>
      exact plain_tagged _ (plain_record
        ⟨TypeId.codec.plain ret, TypeId.codec.list.plain params, .bool variadic⟩)
    | struct name fields bodiless =>
      exact plain_tagged _ (plain_record
        ⟨plain_ofOption plain_text name, TypeId.codec.list.plain fields, .bool bodiless⟩)
    | array t length => exact plain_tagged _ (codec_sequence.plain (t, length))
    | vector t length => exact plain_tagged _ (codec_sequence.plain (t, length))
  read {ty} h := by
    cases ty with
    | void => rfl
    | label => rfl
    | integer bits => exact read_tagged ((codec_single codec_nat32 "bits").read h) fun _ => rfl
    | float bits => exact read_tagged ((codec_single codec_nat32 "bits").read h) fun _ => rfl
    | pointer t => exact read_tagged ((codec_single TypeId.codec "pointee").read h) fun _ => rfl
    | function ret params variadic =>
      exact read_part rfl (read_record (by decide) rfl (read_part (TypeId.codec.read h.1)
        (read_part (TypeId.codec.list.read h.2) rfl)))
    | struct name fields bodiless =>
      exact read_part rfl (read_record (by decide) rfl
        (read_part (codec_string.read_optional nofun fun _ _ => trivial)
          (read_part (TypeId.codec.list.read h) rfl)))
    | array t length =>
      exact read_tagged_pair (codec_sequence.read (a := (t, length)) h) fun _ => rfl
    | vector t length =>
      exact read_tagged_pair (codec_sequence.read (a := (t, length)) h) fun _ => rfl
  fits {j ty} h := by
    obtain ⟨⟨name, data⟩, -, h⟩ := part_iff.1 h
    split at h
    · cases h
      trivial
    · cases h
      trivial
    · cases h
      trivial
    · cases h
      trivial
    · exact (codec_single codec_nat32 "bits").fits_of_bind h fun _ h => h
    · exact (codec_single codec_nat32 "bits").fits_of_bind h fun _ h => h
    · exact (codec_single TypeId.codec "pointee").fits_of_bind h fun _ h => h
    · exact fits_of_function? h
    · exact fits_of_struct? h
    · exact codec_sequence.fits_of_bind h fun _ h => h
    · exact codec_sequence.fits_of_bind h fun _ h => h
    · cases h

end Ty

theorem TypeTable.codec : Codec toJson ofJson? fun types => ∀ ty ∈ types.types.toList, ty.Fits where
  plain types := (Ty.codec_single Ty.codec.list "types").plain types.types.toList
  read h := read_part ((Ty.codec_single Ty.codec.list "types").read h) rfl
  fits {j types} h := by
    obtain ⟨tys, htys, heq⟩ := part_iff.1 h
    cases heq
    exact (Ty.codec_single Ty.codec.list "types").fits htys

end CallTargets
