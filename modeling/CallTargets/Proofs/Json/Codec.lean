import CallTargets.Json.Decode
import CallTargets.Proofs.Json.Reader
import Mathlib.Data.List.Forall2

/-!
# Codecs

Data is written as a JSON value and decoded from one. What is written can be decoded if its
numbers have the widths of documents, and what was decoded has numbers of these widths
(`Codec`).
-/

namespace CallTargets.Json

variable {fields : List (String × Json)} {data j : Json}

variable {α : Type}

/-- A way to write data and to decode it, with the condition that decoding asks for. -/
structure Codec (write : α → Json) (read? : Json → Option α) (Fits : α → Prop) : Prop where
  plain : ∀ a, (write a).Plain
  read : ∀ {a}, Fits a → read? (write a) = some a
  fits : ∀ {j a}, read? j = some a → Fits a

/-! ## What is written -/

theorem plain_text (s : String) : (text s).Plain := .str (some s)

theorem plain_nat (n : Nat) : (nat n).Plain := .int n

theorem plain_record (h : fields.Forall (·.2.Plain)) : (record fields).Plain := by
  refine .obj fun f hf => ?_
  obtain ⟨f', hf', rfl⟩ := List.mem_map.1 hf
  exact List.forall_iff_forall_mem.1 h f' hf'

theorem plain_tagged (name : String) (h : data.Plain) : (tagged name data).Plain :=
  plain_record h

theorem plain_ofOption {write : α → Json} (h : ∀ a, (write a).Plain) (a : Option α) :
    (ofOption write a).Plain := by
  cases a with
  | none => exact .null
  | some a => exact h a

theorem plain_ofList {write : α → Json} (h : ∀ a, (write a).Plain) (as : List α) :
    (ofList write as).Plain := by
  refine .arr fun j hj => ?_
  obtain ⟨a, -, rfl⟩ := List.mem_map.1 hj
  exact h a

/-! ## Records and variants -/

theorem mapM_eq_some_iff {β : Type} {f : α → Option β} {as : List α} {bs : List β} :
    as.mapM f = some bs ↔ List.Forall₂ (fun a b => f a = some b) as bs := by
  induction as generalizing bs with
  | nil =>
    rw [List.mapM_nil, List.forall₂_nil_left_iff]
    exact ⟨fun h => (Option.some.inj h).symm, fun h => h ▸ rfl⟩
  | cons a as ih =>
    simp only [List.mapM_cons, List.forall₂_cons_left_iff, ← ih, Option.bind_eq_bind,
      Option.bind_eq_some_iff, Option.pure_def, Option.some.injEq]
    constructor
    · rintro ⟨b, hb, bs, hbs, rfl⟩
      exact ⟨b, bs, hb, hbs, rfl⟩
    · rintro ⟨b, bs, hb, hbs, rfl⟩
      exact ⟨b, hb, bs, hbs, rfl⟩

theorem filter_of_mem (hnames : (fields.map Prod.fst).Nodup) {f : String × Json} (h : f ∈ fields) :
    fields.filter (some ·.1 = some f.1) = [f] := by
  induction fields with
  | nil => cases h
  | cons first fields ih =>
    obtain ⟨hfirst, hnames⟩ := List.nodup_cons.1 hnames
    rcases List.mem_cons.1 h with rfl | hrest
    · rw [List.filter_cons_of_pos (by simp), List.filter_eq_nil_iff.2]
      intro g hg heq
      exact hfirst (List.mem_map.2 ⟨g, hg, by simpa using heq⟩)
    · have hne : first.1 ≠ f.1 := fun heq => hfirst (heq ▸ List.mem_map_of_mem hrest)
      rw [List.filter_cons_of_neg (by simpa using hne), ih hnames hrest]

theorem fields?_record (hnames : (fields.map Prod.fst).Nodup) :
    (record fields).fields? (fields.map Prod.fst) = some (fields.map (some ·.2)) := by
  change pick? _ (List.map _ fields) = _
  generalize hentries : (List.map _ fields : List (Option String × Json)) = entries
  have hall : entries.all (·.1.isSome) = true := by simp [← hentries]
  rw [pick?, if_pos hall, mapM_eq_some_iff, List.forall₂_map_left_iff, List.forall₂_map_right_iff,
    List.forall₂_same]
  intro f hf
  have hfilter : entries.filter (·.1 = some f.1) = [(some f.1, f.2)] := by
    rw [← hentries, List.filter_map]
    exact congrArg _ (filter_of_mem hnames hf)
  rw [hfilter]

section Reading

variable {β : Type}

theorem part_iff {o : Option α} {k : α → Option β} {b : β} :
    o >>= k = some b ↔ ∃ a, o = some a ∧ k a = some b := Option.bind_eq_some_iff

theorem read_part {o : Option α} {k : α → Option β} {a : α} {b : β} (ha : o = some a)
    (hk : k a = some b) : o >>= k = some b := part_iff.2 ⟨a, ha, hk⟩

theorem read_record {names : List String} {k : List (Option Json) → Option β} {b : β}
    (hnodup : names.Nodup) (hnames : fields.map Prod.fst = names)
    (hk : k (fields.map (some ·.2)) = some b) : (record fields).fields? names >>= k = some b := by
  subst hnames
  exact read_part (fields?_record hnodup) hk

theorem read_tagged {name : String} {k : String × Option Json → Option β} {read? : Json → Option α}
    {a : α} {mk : α → β} (hdata : read? data = some a)
    (hk : ∀ data, k (name, some data) = read? data >>= fun a => some (mk a)) :
    (tagged name data).variant? >>= k = some (mk a) := by
  change k (name, some data) = some (mk a)
  rw [hk, hdata]
  rfl

theorem read_tagged_pair {γ : Type} {name : String} {k : String × Option Json → Option γ}
    {read? : Json → Option (α × β)} {a : α} {b : β} {mk : α → β → γ}
    (hdata : read? data = some (a, b))
    (hk : ∀ data, k (name, some data) = read? data >>= fun a => some (mk a.1 a.2)) :
    (tagged name data).variant? >>= k = some (mk a b) := by
  change k (name, some data) = some (mk a b)
  rw [hk, hdata]
  rfl

end Reading

/-! ## Numbers, texts and lists -/

theorem intIn?_eq_some_iff {first past n : Int} :
    j.intIn? first past = some n ↔ j = .int n ∧ first ≤ n ∧ n < past := by
  cases j with
  | int m =>
    rw [intIn?, Option.ite_none_right_eq_some, Bool.and_eq_true, decide_eq_true_eq,
      decide_eq_true_eq, Option.some.injEq, Json.int.injEq]
    constructor
    · rintro ⟨hm, rfl⟩
      exact ⟨rfl, hm⟩
    · rintro ⟨rfl, hm⟩
      exact ⟨hm, rfl⟩
  | _ => exact ⟨nofun, nofun⟩

theorem natIn?_eq_some_iff {past n : Nat} :
    (j.intIn? 0 past).map Int.toNat = some n ↔ j = nat n ∧ n < past := by
  rw [Option.map_eq_some_iff]
  constructor
  · rintro ⟨m, hm, rfl⟩
    obtain ⟨rfl, hfirst, hpast⟩ := intIn?_eq_some_iff.1 hm
    rw [nat, Int.toNat_of_nonneg hfirst]
    exact ⟨rfl, by omega⟩
  · rintro ⟨rfl, hn⟩
    exact ⟨n, intIn?_eq_some_iff.2 ⟨rfl, by omega, by omega⟩, Int.toNat_natCast n⟩

theorem codec_string : Codec text string? fun _ => True where
  plain := plain_text
  read _ := rfl
  fits _ := trivial

theorem codec_nat32 : Codec nat nat32? (· < 2 ^ 32) where
  plain := plain_nat
  read h := natIn?_eq_some_iff.2 ⟨rfl, h⟩
  fits h := (natIn?_eq_some_iff.1 h).2

theorem codec_nat64 : Codec nat nat64? (· < 2 ^ 64) where
  plain := plain_nat
  read h := natIn?_eq_some_iff.2 ⟨rfl, h⟩
  fits h := (natIn?_eq_some_iff.1 h).2

theorem codec_int64 : Codec .int int64? fun n => -2 ^ 63 ≤ n ∧ n < 2 ^ 63 where
  plain := .int
  read h := intIn?_eq_some_iff.2 ⟨rfl, h⟩
  fits h := (intIn?_eq_some_iff.1 h).2

namespace Codec

variable {write : α → Json} {read? : Json → Option α} {Fits : α → Prop}

theorem ofIndex {index : α → Nat} {mk : Nat → α} (hmk : ∀ a, mk (index a) = a)
    (hindex : ∀ n, index (mk n) = n) :
    Codec (fun a => nat (index a)) (fun j => j.nat32?.map mk) (index · < 2 ^ 32) where
  plain a := plain_nat (index a)
  read h := by rw [codec_nat32.read h, Option.map_some, hmk]
  fits h := by
    obtain ⟨n, hn, rfl⟩ := Option.map_eq_some_iff.1 h
    rw [hindex]
    exact codec_nat32.fits hn

variable (h : Codec write read? Fits)
include h

theorem fits_of_bind {β : Type} {mk : α → β} {b : β} {P : β → Prop}
    (hb : (read? j >>= fun a => some (mk a)) = some b) (hP : ∀ a, Fits a → P (mk a)) : P b := by
  obtain ⟨a, ha, ⟨⟩⟩ := part_iff.1 hb
  exact hP a (h.fits ha)

theorem list : Codec (ofList write) (list? read?) fun as => ∀ a ∈ as, Fits a where
  plain := plain_ofList h.plain
  read {as} has := by
    change (as.map write).mapM read? = some as
    rw [mapM_eq_some_iff, List.forall₂_map_left_iff, List.forall₂_same]
    exact fun a ha => h.read (has a ha)
  fits {j as} has := by
    obtain ⟨items, -, hitems⟩ := part_iff.1 has
    clear has
    induction mapM_eq_some_iff.1 hitems with
    | nil => exact List.forall_mem_nil _
    | cons hitem hrest ih =>
      exact List.forall_mem_cons.2 ⟨h.fits hitem, ih (mapM_eq_some_iff.2 hrest)⟩

theorem read_optional (hnull : ∀ a, write a ≠ .null) {a : Option α} (ha : ∀ b ∈ a, Fits b) :
    optional? read? (some (ofOption write a)) = some a := by
  cases a with
  | none => rfl
  | some a =>
    rw [ofOption, optional?, h.read (ha a rfl), Option.map_some]
    exact hnull a

theorem fits_optional {field : Option Json} {a : Option α}
    (ha : optional? read? field = some a) : ∀ b ∈ a, Fits b := by
  unfold optional? at ha
  split at ha
  · cases ha
    nofun
  · cases ha
    nofun
  · obtain ⟨b, hb, rfl⟩ := Option.map_eq_some_iff.1 ha
    exact fun b' hb' => Option.some.inj hb' ▸ h.fits hb

end Codec

end CallTargets.Json
