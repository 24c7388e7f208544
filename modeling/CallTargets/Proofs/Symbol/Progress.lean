import CallTargets.Proofs.Symbol.Opened

/-!
# Readers make progress

Every construct is read by reading something, and a loop goes on only behind a round that has read
something, so its rounds suffice. `Measured` is a reading of which it can be said how much is left
in a state, and what a reader ensures of the state behind it. `Gains` says how much a reader reads
at least, with a lemma for each way of putting readers together. The proofs follow the readers.

Over cursors, where a reader that fails is nowhere, these are the readers that are run. Over the
bytes of a text (`Tape`) a reader that fails keeps its place, and one whose loop has no rounds left
or that leaves the text has no result. `Level.progresses` says that both make progress.
-/

namespace CallTargets.Symbol

/-- Readings of which can be said what is left in a state, and what a reader ensures of its result
and of the state behind it if it succeeds. Nothing is ensured of a reader that is stuck. -/
class Measured (m : Type → Type) extends Reading m, LawfulMonad m where
  State : Type
  left : State → Nat
  Ensures {α : Type} : m α → State → (α → State → Prop) → Prop
  ensures_pure {α : Type} {a : α} {s : State} {Q : α → State → Prop} :
    Q a s → Ensures (pure a) s Q
  ensures_bind {α β : Type} {x : m α} {f : α → m β} {s : State} {P : α → State → Prop}
    {Q : β → State → Prop} : Ensures x s P → (∀ a s', P a s' → Ensures (f a) s' Q) →
      Ensures (x >>= f) s Q
  mono {α : Type} {x : m α} {s : State} {P Q : α → State → Prop} :
    Ensures x s P → (∀ a s', P a s' → Q a s') → Ensures x s Q
  ensures_fail {α : Type} (s : State) (Q : α → State → Prop) : Ensures Reading.fail s Q
  ensures_overflow {α : Type} (s : State) (Q : α → State → Prop) : Ensures Reading.overflow s Q
  ensures_rest {s : State} {Q : List Char → State → Prop} :
    (∀ text, text.length = left s → Q text s) → Ensures Reading.rest s Q
  ensures_skip {s : State} {count : Nat} {Q : Unit → State → Prop} : count ≤ left s →
    (∀ s', left s' + count = left s → Q () s') → Ensures (Reading.skip count) s Q
  ensures_take {s : State} (bytes : Nat) {Q : List Char → State → Prop} :
    (∀ name s', left s' ≤ left s → Q name s') → Ensures (Reading.take bytes) s Q
  ensures_note {α : Type} {s : State} (n : Note α) {Q : α → State → Prop} :
    (∀ a s', left s' = left s → Q a s') → Ensures (Reading.note n) s Q

theorem length_of_builtinAt? {rest : List Char} {name : String} {length : Nat}
    (h : builtinAt? rest = some (name, length)) : 1 ≤ length ∧ length ≤ rest.length := by
  unfold builtinAt? at h
  split at h
  · obtain ⟨_, -, heq⟩ := Option.map_eq_some_iff.1 h
    cases heq
    simp
  · obtain ⟨_, -, heq⟩ := Option.map_eq_some_iff.1 h
    cases heq
    simp
  · cases h

namespace Measured

variable {m : Type → Type} [Measured m] {α β σ : Type} {a b n : Nat} {x : m α} {f : α → m β}
  {s : State m}

theorem ensures_fail_bind (s : State m) (Q : β → State m → Prop) :
    Ensures (Reading.fail >>= f) s Q :=
  ensures_bind (ensures_fail s fun _ _ => False) fun _ _ h => h.elim

/-- From a state, a reader that succeeds reads so much at least. -/
def GainsAt (n : Nat) (x : m α) (s : State m) : Prop :=
  Ensures x s fun _ s' => left s' + n ≤ left s

def Gains (n : Nat) (x : m α) : Prop := ∀ s, GainsAt n x s

/-- As much is read as in both parts. -/
theorem GainsAt.bind (hx : GainsAt a x s) (hf : ∀ v, Gains b (f v)) (h : n ≤ a + b) :
    GainsAt n (x >>= f) s :=
  ensures_bind hx fun v s' hs' => mono (hf v s') fun _ s'' hs'' => by omega

namespace Gains

theorem bind (hx : Gains a x) (hf : ∀ v, Gains b (f v)) (h : n ≤ a + b) : Gains n (x >>= f) :=
  fun s => (hx s).bind hf h

/-- Enough is read in the first part. -/
theorem first (hx : Gains n x) (hf : ∀ v, Gains 0 (f v)) : Gains n (x >>= f) := hx.bind hf n.le_refl

/-- Enough is read behind the first part. -/
theorem andThen (hx : Gains a x) (hf : ∀ v, Gains n (f v)) : Gains n (x >>= f) :=
  hx.bind hf (Nat.le_add_left n a)

theorem steady (hx : Gains n x) : Gains 0 x := fun s => mono (hx s) fun _ s' hs' => by omega

theorem pure (v : α) : Gains 0 (pure v : m α) := fun s => ensures_pure (left s).le_refl

theorem done {g : α → β} (hx : Gains n x) : Gains n (x >>= fun v => Pure.pure (g v)) :=
  hx.first fun _ => pure _

theorem map {g : α → β} (hx : Gains n x) : Gains n (g <$> x) :=
  map_eq_pure_bind g x ▸ hx.done

theorem fail : Gains n (Reading.fail : m α) := fun s => ensures_fail s _

theorem fail_bind : Gains n (Reading.fail >>= f) := fun s => ensures_fail_bind s _

theorem overflow_bind : Gains n (Reading.overflow >>= f) := fun s =>
  ensures_bind (ensures_overflow s fun _ _ => False) fun _ _ h => h.elim

theorem note (k : Note α) : Gains 0 (Reading.note k : m α) := fun _ =>
  ensures_note k fun _ _ h => Nat.le_of_eq h

theorem take (bytes : Nat) : Gains 0 (Reading.take bytes : m (List Char)) := fun _ =>
  ensures_take bytes fun _ _ h => h

end Gains

theorem ensures_rest_bind {f : List Char → m β} {Q : β → State m → Prop}
    (h : ∀ text, text.length = left s → Ensures (f text) s Q) :
    Ensures (Reading.rest >>= f) s Q := by
  refine ensures_bind (P := fun text s' => s' = s ∧ text.length = left s)
    (ensures_rest fun _ htext => ⟨rfl, htext⟩) ?_
  rintro text s' ⟨rfl, htext⟩
  exact h text htext

theorem ensures_peek_bind {f : Option Char → m β} {Q : β → State m → Prop}
    (h : ∀ text : List Char, text.length = left s → Ensures (f text.head?) s Q) :
    Ensures (Scan.peek >>= f) s Q := by
  refine ensures_bind (P := fun next s' => s' = s ∧ ∃ text : List Char,
    text.length = left s ∧ text.head? = next)
    (ensures_rest_bind fun text htext => ensures_pure ⟨rfl, text, htext, rfl⟩) ?_
  rintro _ s' ⟨rfl, text, htext, rfl⟩
  exact h text htext

theorem rest_bind {f : List Char → m β}
    (h : ∀ text s, text.length = left s → GainsAt n (f text) s) : Gains n (Reading.rest >>= f) :=
  fun s => ensures_rest_bind fun text => h text s

theorem peek_bind {f : Option Char → m β} (h : ∀ next, Gains n (f next)) :
    Gains n (Scan.peek >>= f) :=
  fun s => ensures_peek_bind fun _ _ => h _ s

theorem GainsAt.skip_bind {text : List Char} {count : Nat} {f : Unit → m β}
    (hlen : text.length = left s) (hcount : count ≤ text.length) (hf : Gains b (f ()))
    (h : n ≤ count + b) : GainsAt n (Reading.skip count >>= f) s :=
  GainsAt.bind (ensures_skip (hlen ▸ hcount) fun _ hs' => Nat.le_of_eq hs') (fun _ => hf) h

theorem GainsAt.skip_one {c : Char} {text : List Char} {f : Unit → m β}
    (hlen : (c :: text).length = left s) (hf : Gains 0 (f ())) :
    GainsAt 1 (Reading.skip 1 >>= f) s :=
  .skip_bind hlen (Nat.le_add_left 1 _) hf (Nat.le_refl 1)

theorem GainsAt.skip_two {c d : Char} {text : List Char} {f : Unit → m β}
    (hlen : (c :: d :: text).length = left s) (hf : Gains 0 (f ())) :
    GainsAt 1 (Reading.skip 2 >>= f) s :=
  .skip_bind hlen (Nat.le_add_left 2 _) hf (Nat.le_succ 1)

/-! ## Loops -/

/-- A round that another one follows reads something. -/
def RoundAt (x : m (Scan.Round σ β)) (s : State m) : Prop :=
  Ensures x s fun r s' => left s' ≤ left s ∧ ∀ y, r = .again y → left s' < left s

theorem GainsAt.round {x : m (Scan.Round σ β)} (h : GainsAt 1 x s) : RoundAt x s :=
  mono h fun _ _ hs' => ⟨by omega, fun _ _ => hs'⟩

/-- There are rounds enough. -/
theorem GainsAt.loop {round : σ → m (Scan.Round σ β)} {room : Nat}
    (h : ∀ y s, left s ≤ room → RoundAt (round y) s) (y : σ) (hs : left s ≤ room) :
    GainsAt 0 (Scan.loop round y) s := by
  have hrepeat : ∀ count y s, left s ≤ room → left s < count →
      GainsAt 0 (Scan.repeatUpTo round count y) s := by
    intro count
    induction count with
    | zero => exact fun y s _ hs => absurd hs (Nat.not_lt_zero _)
    | succ count ih =>
      intro y s hroom hs
      refine ensures_bind (h y s hroom) fun r s' hr => ?_
      cases r with
      | again y' =>
        have hlt := hr.2 y' rfl
        exact mono (ih y' s' (by omega) (by omega)) fun _ s'' hs'' => by omega
      | finish result => exact ensures_pure hr.1
  exact ensures_rest_bind fun text hlen => hrepeat _ y s hs (by omega)

theorem Gains.loop {round : σ → m (Scan.Round σ β)} (h : ∀ y s, RoundAt (round y) s) (y : σ) :
    Gains 0 (Scan.loop round y) := fun s =>
  GainsAt.loop (fun y s _ => h y s) y (left s).le_refl

/-! ## Parts of constructs -/

theorem ensures_accept (c : Char) (s : State m) : Ensures (Scan.accept c : m Bool) s fun r s' =>
    left s' + r.toNat ≤ left s := by
  refine ensures_peek_bind fun text hlen => ?_
  split
  · rename_i hnext
    have hleft : 1 ≤ left s := by
      cases text with
      | nil => cases hnext
      | cons c text => exact hlen ▸ Nat.le_add_left 1 text.length
    exact ensures_bind (ensures_skip hleft fun _ h => h) fun _ _ h => ensures_pure (Nat.le_of_eq h)
  · exact ensures_pure (Nat.le_refl _)

theorem ensures_span (p : Char → Bool) (s : State m) :
    Ensures (Scan.span p : m (List Char)) s fun taken s' => left s' + taken.length ≤ left s :=
  ensures_rest_bind fun _ hlen => ensures_bind
    (ensures_skip (hlen ▸ (List.takeWhile_sublist _).length_le) fun _ h => h)
    fun _ _ h => ensures_pure (Nat.le_of_eq h)

namespace Gains

theorem accept (c : Char) : Gains 0 (Scan.accept c : m Bool) := fun s =>
  mono (ensures_accept c s) fun _ _ h => by omega

theorem accept_bind {c : Char} {f : Bool → m β} (htrue : Gains (n - 1) (f true))
    (hfalse : Gains n (f false)) : Gains n (Scan.accept c >>= f) := by
  refine fun s => ensures_bind (ensures_accept c s) fun r s' hs' => ?_
  cases r with
  | true => exact mono (htrue s') fun _ s'' hs'' => by rw [Bool.toNat_true] at hs'; omega
  | false => exact mono (hfalse s') fun _ s'' hs'' => by rw [Bool.toNat_false] at hs'; omega

theorem expect (c : Char) : Gains 1 (Scan.expect c : m Unit) :=
  accept_bind (pure ()) fail

theorem span (p : Char → Bool) : Gains 0 (Scan.span p : m (List Char)) := fun s =>
  mono (ensures_span p s) fun _ _ h => by omega

theorem number : Gains 1 (Scan.number : m Int) := by
  refine (accept 'n').andThen fun _ s => ensures_bind (ensures_span _ s) fun digits s' hs' => ?_
  cases digits with
  | nil => exact ensures_fail_bind s' _
  | cons d digits =>
    rw [List.length_cons] at hs'
    dsimp only
    split
    · exact ensures_fail_bind s' _
    · exact ensures_pure (by omega)

theorem skipNumber : Gains 0 (Scan.skipNumber : m Unit) :=
  (accept 'n').first fun _ => (span _).done

theorem identifier : Gains 1 (Scan.identifier : m String) := by
  refine number.first fun length => ?_
  dsimp only
  split
  · exact fail_bind
  · exact (take _).done

theorem seqPlace (digits : List Char) : Gains 1 (Scan.seqPlace digits : m Nat) := by
  unfold Scan.seqPlace
  dsimp only
  split
  · exact fail_bind
  refine peek_bind fun next => ?_
  split
  · exact fail_bind
  split
  · exact overflow_bind
  · exact (expect '_').done

theorem seqId : Gains 1 (Scan.seqId : m Nat) :=
  accept_bind (pure 0) ((span _).andThen seqPlace)

theorem backReference : Gains 1 (Scan.backReference : m Shape) := by
  refine (expect 'S').first fun _ s => ensures_peek_bind fun text hlen => ?_
  cases text with
  | nil => exact fail s
  | cons c text =>
    dsimp only [List.head?_cons]
    split
    · exact GainsAt.skip_bind hlen (by simp) (pure _) (Nat.zero_le _)
    · exact seqId.andThen (fun _ => note _) s

theorem templateParam : Gains 1 (Scan.templateParam : m Shape) := by
  refine (expect 'T').first fun _ => accept_bind (note _) ?_
  refine number.andThen fun k => ?_
  dsimp only
  split
  · exact fail_bind
  · exact (expect '_').andThen fun _ => note _

theorem qualifiers : Gains 0 (Scan.qualifiers : m (List Qualifier)) :=
  (accept 'r').first fun _ => (accept 'V').first fun _ => (accept 'K').done

theorem ordinal : Gains 1 (Scan.ordinal : m Int) := by
  refine accept_bind (pure 1) (number.first fun _ => ?_)
  dsimp only
  split
  · exact overflow_bind
  · exact (expect '_').steady.done

theorem discriminator : Gains 0 (Scan.discriminator : m Unit) :=
  accept_bind (accept_bind (skipNumber.first fun _ => (accept '_').done)
    skipNumber) (pure ())

theorem callOffset : Gains 0 (Scan.callOffset : m Unit) :=
  accept_bind (number.andThen fun _ => (expect '_').steady)
    ((expect 'v').andThen fun _ => number.andThen fun _ => (expect '_').andThen
      fun _ => number.andThen fun _ => (expect '_').steady)

end Gains

theorem GainsAt.untilEnd {item : m α} {room : Nat} (h : ∀ s, left s ≤ room → GainsAt 1 item s)
    (hs : left s ≤ room) : GainsAt 0 (Scan.untilEnd item) s := by
  refine .loop (fun items s hs => ?_) [] hs
  refine ensures_bind (ensures_accept 'E' s) fun r s' hs' => ?_
  cases r with
  | true => exact ensures_pure ⟨Nat.le_of_add_right_le hs', nofun⟩
  | false =>
    refine ensures_peek_bind fun text hlen => ?_
    split
    · exact ensures_fail_bind s' _
    · exact ensures_bind (h s' (Nat.le_trans hs' hs)) fun v s'' hs'' =>
        ensures_pure ⟨by simp at hs'; omega, fun _ _ => by simp at hs'; omega⟩

/-! ## Constructs -/

/-- The readers of all constructs read something. -/
structure Advancing (l : Level m) : Prop where
  type : Gains 1 l.type
  name : Gains 1 l.name
  encoding : Gains 1 l.encoding
  templateArgs : Gains 1 l.templateArgs

namespace Advancing

open Gains

variable {l : Level m} (hl : Advancing l)
include hl

theorem paramRound (params : List Shape) : Gains 1 (Symbol.paramRound l params) := by
  refine rest_bind fun text s hlen => ?_
  split
  · exact .skip_one hlen (pure _)
  · exact .skip_two hlen (pure _)
  · exact .skip_two hlen (pure _)
  · exact hl.type.done s

theorem functionType : Gains 1 (Symbol.functionType l) :=
  (expect 'F').first fun _ => (accept 'Y').first fun _ => hl.type.andThen fun _ =>
    (Gains.loop (fun params s => (hl.paramRound params s).round) []).done

theorem compoundType : Gains 1 (Symbol.compoundType l) := by
  refine rest_bind fun text s hlen => ?_
  split
  · exact .skip_one hlen (hl.type.steady.done)
  · exact .skip_one hlen (hl.type.steady.done)
  · exact .skip_one hlen (hl.type.steady.done)
  · exact hl.functionType.done s
  · refine .skip_one hlen (peek_bind fun next => ?_)
    dsimp only
    split
    · exact (Gains.pure _).first fun _ => (expect '_').andThen fun _ => hl.type.steady.done
    · exact (map number).andThen fun _ => (expect '_').andThen fun _ => hl.type.steady.done
  · exact .skip_one hlen (hl.type.andThen fun _ => hl.type.steady.done)
  · exact templateParam.done s
  · exact .skip_two hlen (hl.type.steady.done)
  · exact hl.name.done s
  · refine backReference.first (fun shape => peek_bind fun next => ?_) s
    split
    · exact hl.templateArgs.steady.done
    · exact pure _
  · exact .skip_one hlen (identifier.steady.done)
  · split
    · exact qualifiers.andThen (fun _ => hl.type.done) s
    · split
      · exact hl.name.done s
      · exact fail s
  · exact fail s

theorem readType : Gains 1 (Symbol.readType l) := by
  refine rest_bind fun text s hlen => ?_
  split
  · rename_i name length hcode
    obtain ⟨hpos, hle⟩ := length_of_builtinAt? hcode
    exact .skip_bind hlen hle (pure _) hpos
  · refine hl.compoundType.first (fun read => ?_) s
    dsimp only
    split
    · exact (note _).done
    · exact pure _

theorem literal : Gains 1 (Symbol.literal l) := by
  refine (expect 'L').first fun _ => rest_bind fun text s hlen => ?_
  split
  · exact .skip_bind hlen (by simp) (hl.encoding.andThen fun _ =>
      (expect 'E').steady.done) (Nat.zero_le _)
  · exact hl.type.andThen (fun _ => number.andThen fun _ =>
      (expect 'E').steady.done) s

/-- Packs are not nested more deeply than there are characters. -/
theorem templateArgAt {packs : Nat} {s : State m} (h : left s ≤ packs) :
    GainsAt 1 (Symbol.templateArg l packs) s := by
  induction packs generalizing s with
  | zero =>
    refine ensures_peek_bind fun text hlen => ?_
    cases text with
    | nil => exact fail s
    | cons c text => simp at hlen; omega
  | succ packs ih =>
    refine ensures_peek_bind fun text hlen => ?_
    cases text with
    | nil => exact fail s
    | cons c text =>
      dsimp only [List.head?_cons]
      split
      · exact hl.literal s
      · refine ensures_bind (P := fun _ s' => left s' + 1 = left s)
          (ensures_skip (hlen ▸ Nat.le_add_left 1 _) fun _ h => h) fun _ s' hs' => ?_
        exact mono (GainsAt.bind (.untilEnd (fun s => ih) (by omega)) (fun _ => pure _)
          (Nat.zero_le _)) fun _ _ h => by omega
      · exact fail s
      · exact hl.type s
      · exact fail s

/-- A template argument where there may be one. -/
theorem templateArg : Gains 1 (do Symbol.templateArg l (← Reading.rest).length) :=
  rest_bind fun _ _ hlen => hl.templateArgAt (Nat.le_of_eq hlen.symm)

theorem readTemplateArgs : Gains 1 (Symbol.readTemplateArgs l) :=
  (expect 'I').first fun _ => (note _).first fun _ => (note _).first fun _ =>
    Gains.first (fun s => .untilEnd (fun s _ => hl.templateArg s) (left s).le_refl) fun _ =>
      (note _).done

theorem operatorName : Gains 1 (Symbol.operatorName l) := by
  refine rest_bind fun text s hlen => ?_
  split
  · exact .skip_two hlen (hl.type.steady.done)
  · exact .skip_two hlen (identifier.steady.done)
  · split
    · exact .skip_two hlen (pure _)
    · exact fail s
  · exact fail s

theorem component (last : String) : Gains 1 (Symbol.component l last) := by
  refine (span _).andThen fun _ => rest_bind fun text s hlen => ?_
  split
  · have hend (inherits : Bool) : Gains 0 (do
        if inherits then
          let _ ← l.type
        return (withoutArgs last, true) : m (String × Bool)) := by
      cases inherits with
      | true => exact hl.type.steady.done
      | false => exact pure _
    refine .skip_one hlen ((accept 'I').first fun inherits s => ?_)
    refine ensures_peek_bind fun text hlen => ?_
    cases text with
    | nil => exact fail_bind s
    | cons c text =>
      dsimp only [List.head?_cons]
      split
      · exact GainsAt.skip_bind hlen (Nat.le_add_left 1 _) (hend inherits) (Nat.zero_le _)
      · exact fail_bind s
  · split
    · exact .skip_two hlen (pure _)
    · exact fail s
  · exact .skip_two hlen (ordinal.steady.done)
  · exact .skip_two hlen (Gains.first (fun s => .untilEnd (fun s _ => hl.type s)
      (left s).le_refl) fun _ => ordinal.steady.done)
  · split
    · exact identifier.done s
    · exact hl.operatorName s
  · exact fail s

theorem pathStep (path : Path) : Gains 1 (Symbol.pathStep l path) := by
  refine peek_bind fun next => ?_
  split
  · dsimp only
    split
    · exact fail_bind
    · exact hl.templateArgs.done
  · exact templateParam.done
  · exact (hl.component _).done

theorem nestedRound (path : Path) : Gains 1 (Symbol.nestedRound l path) := by
  refine accept_bind (pure _) (rest_bind fun text s hlen => ?_)
  split
  · exact .skip_two hlen (pure _)
  · exact backReference.done s
  · refine (hl.pathStep path).first (fun path => peek_bind fun next => ?_) s
    dsimp only
    split
    · exact (note _).done
    · exact pure _

theorem nestedName : Gains 1 (Symbol.nestedName l) := by
  have hpath := Gains.loop (fun path s => (hl.nestedRound path s).round) {}
  refine (expect 'N').first fun _ => qualifiers.first fun _ => (accept 'R').first fun isLvalue =>
    ?_
  cases isLvalue with
  | true => exact (Gains.pure false).first fun _ => hpath.done
  | false => exact (accept 'O').first fun _ => hpath.done

theorem localName : Gains 1 (Symbol.localName l) :=
  (expect 'Z').first fun _ => hl.encoding.andThen fun _ => (expect 'E').andThen fun _ =>
    accept_bind (discriminator.done)
      (hl.name.andThen fun _ => discriminator.done)

theorem unscopedName (scope : String) : Gains 1 (Symbol.unscopedName l scope) := by
  refine (hl.component "").first fun read => peek_bind fun next => ?_
  split
  · exact (note _).first fun _ => hl.templateArgs.steady.done
  · exact pure _

theorem readName : Gains 1 (Symbol.readName l) := by
  refine rest_bind fun text s hlen => ?_
  split
  · exact hl.nestedName s
  · exact hl.localName s
  · exact .skip_two hlen (hl.unscopedName "std::").steady
  · exact backReference.first (fun _ => hl.templateArgs.steady.done) s
  · exact hl.unscopedName "" s

theorem specialEntity : Gains 1 (Symbol.specialEntity l) := by
  refine rest_bind fun text s hlen => ?_
  split
  · exact .skip_one hlen (callOffset.first fun _ => hl.encoding.steady.done)
  · exact .skip_one hlen (callOffset.first fun _ => hl.encoding.steady.done)
  · exact .skip_two hlen (callOffset.first fun _ => callOffset.first fun _ =>
      hl.encoding.steady.done)
  · split
    · exact .skip_two hlen (hl.type.steady.done)
    · exact .skip_two hlen (hl.name.steady.done)
    · exact fail s
  · exact fail s

theorem argumentRound (params : List Shape) (s : State m) :
    RoundAt (Symbol.argumentRound l params) s := by
  refine ensures_rest_bind fun _ _ => ?_
  split
  · exact ensures_pure ⟨Nat.le_refl _, nofun⟩
  · exact (hl.type.done s).round

theorem readEncoding : Gains 1 (Symbol.readEncoding l) := by
  refine peek_bind fun next => ?_
  split
  · exact fail
  · split
    · exact hl.specialEntity
    · refine hl.name.first fun name => rest_bind fun _ s _ => ?_
      have hparams := Gains.loop hl.argumentRound []
      split
      · exact pure _ s
      · dsimp only
        split
        · exact (map hl.type).andThen (fun _ => hparams.done) s
        · exact (Gains.pure _).first (fun _ => hparams.done) s

end Advancing

theorem advancing_of (n : Nat) : Advancing (Level.of n : Level m) := by
  induction n with
  | zero => exact ⟨.fail, .fail, .fail, .fail⟩
  | succ n ih => exact ⟨ih.readType, ih.readName, ih.readEncoding, ih.readTemplateArgs⟩

end Measured

/-- All readers of constructs have a property. -/
structure Level.All {m : Type → Type} [Reading m] (l : Level m) (P : ∀ {α : Type}, m α → Prop) :
    Prop where
  read (k : Construct) : P (l.read k)
  templateArg : P (do Symbol.templateArg l (← Reading.rest).length)
  component (last : String) : P (Symbol.component l last)

theorem Measured.all_gains {m : Type → Type} [Measured m] (n : Nat) :
    (Level.of n : Level m).All (Gains 1) := by
  have hl := advancing_of (m := m) n
  refine ⟨fun k => ?_, hl.templateArg, hl.component⟩
  cases k with
  | type => exact hl.type
  | name => exact hl.name
  | encoding => exact hl.encoding
  | templateArgs => exact hl.templateArgs

/-! ## Cursors -/

instance : Measured Scan where
  State := Cursor
  left c := c.rest.length
  Ensures x c Q := ∀ a c', x.run c = some (a, c') → c'.rest <:+ c.rest ∧ Q a c'
  ensures_pure hQ a c' h := by
    cases h
    exact ⟨List.suffix_refl _, hQ⟩
  ensures_bind hx hf b c'' h := by
    rw [Scan.run_bind] at h
    obtain ⟨⟨a, c'⟩, ha, hb⟩ := Option.bind_eq_some_iff.1 h
    obtain ⟨hsuffix, hP⟩ := hx a c' ha
    obtain ⟨hsuffix', hQ⟩ := hf a c' hP b c'' hb
    exact ⟨hsuffix'.trans hsuffix, hQ⟩
  mono hx hPQ a c' h := (hx a c' h).imp_right (hPQ a c')
  ensures_fail _ _ _ _ h := by cases h
  ensures_overflow _ _ _ _ h := by cases h
  ensures_rest hQ a c' h := by
    cases h
    exact ⟨List.suffix_refl _, hQ _ rfl⟩
  ensures_skip {c count Q} hcount hQ a c' h := by
    cases h
    exact ⟨List.drop_suffix _ _, hQ _ (by simp; omega)⟩
  ensures_take {c} bytes Q hQ name c' h := by
    rw [Scan.run_take] at h
    obtain ⟨⟨taken, rest⟩, htake, h⟩ := Option.map_eq_some_iff.1 h
    cases h
    have hsuffix := (Text.takeBytes_append htake []).2
    exact ⟨hsuffix, hQ _ _ hsuffix.length_le⟩
  ensures_note {α c} k Q hQ a c' h := by
    have hkept : c'.rest = c.rest := by
      cases k with
      | named place =>
        rw [Scan.run_named] at h
        obtain ⟨_, -, h⟩ := Option.map_eq_some_iff.1 h
        cases h
        rfl
      | arg place =>
        rw [Scan.run_arg] at h
        obtain ⟨_, -, h⟩ := Option.map_eq_some_iff.1 h
        cases h
        rfl
      | _ =>
        cases h
        rfl
    exact ⟨hkept ▸ List.suffix_refl _, hQ _ _ (by rw [hkept])⟩

/-! ## Bytes -/

/-- A place in a text of bytes, and what has been named before it. -/
structure Place where
  input : List UInt8
  pos : Nat
  named : Array Shape
  args : List Shape
  inArgs : Bool

/-- A reader of bytes. One that fails or overflows keeps its place, and one that is stuck or leaves
the text has no result. -/
abbrev Tape := OptionT (StateT Place Option)

namespace Tape

variable {α : Type}

instance : Reading Tape where
  fail := failure
  overflow := failure
  stuck := .mk failure
  rest := .mk fun s =>
    if s.pos ≤ s.input.length then
      some (some ((s.input.drop s.pos).map fun byte => Char.ofNat byte.toNat), s)
    else none
  skip count := .mk fun s =>
    if s.pos + count ≤ s.input.length then some (some (), { s with pos := s.pos + count }) else none
  take bytes := .mk fun s =>
    if s.pos + bytes ≤ s.input.length then
      match String.fromUTF8? ⟨((s.input.drop s.pos).take bytes).toArray⟩ with
      | some name => some (some name.toList, { s with pos := s.pos + bytes })
      | none => some (none, s)
    else some (none, s)
  note
    | .named place => .mk fun s => some (s.named[place]?, s)
    | .arg place => .mk fun s => some (s.args[place]?, s)
    | .remember shape => modify fun s => { s with named := s.named.push shape }
    | .inArgs => return (← get).inArgs
    | .openArgs => modify fun s => { s with inArgs := true }
    | .closeArgs outer args => modify fun s =>
      { s with inArgs := outer, args := if outer then s.args else args }

/-- From a place in the text a reader ends at one, and if it succeeds, the property holds there. -/
def Ends (x : Tape α) (s : Place) (Q : α → Place → Prop) : Prop :=
  s.pos ≤ s.input.length → ∃ r s', x.run.run s = some (r, s') ∧ s'.input = s.input ∧
    s'.pos ≤ s'.input.length ∧ ∀ a, r = some a → Q a s'

instance : Measured Tape where
  State := Place
  left s := s.input.length - s.pos
  Ensures := Ends
  ensures_pure {α a s Q} hQ hs := ⟨some a, s, rfl, rfl, hs, fun _ h => by cases h; exact hQ⟩
  ensures_bind {α β x f s P Q} hx hf hs := by
    obtain ⟨r, s', hr, hinput, hs', hP⟩ := hx hs
    cases r with
    | none => exact ⟨none, s', by simp [OptionT.run_bind, Option.elimM, hr], hinput, hs', nofun⟩
    | some a =>
      obtain ⟨r', s'', hr', hinput', hs'', hQ⟩ := hf a s' (hP a rfl) hs'
      exact ⟨r', s'', by simp [OptionT.run_bind, Option.elimM, hr, hr'], hinput'.trans hinput,
        hs'', hQ⟩
  mono hx hPQ hs := by
    obtain ⟨r, s', hr, hinput, hs', hP⟩ := hx hs
    exact ⟨r, s', hr, hinput, hs', fun a ha => hPQ a s' (hP a ha)⟩
  ensures_fail s _ hs := ⟨none, s, rfl, rfl, hs, nofun⟩
  ensures_overflow s _ hs := ⟨none, s, rfl, rfl, hs, nofun⟩
  ensures_rest {s Q} hQ hs := by
    refine ⟨_, s, if_pos hs, rfl, hs, fun text htext => ?_⟩
    cases htext
    exact hQ _ (by simp)
  ensures_skip {s count Q} hcount hQ hs := by
    have hle : s.pos + count ≤ s.input.length := by omega
    exact ⟨_, _, if_pos hle, rfl, hle, fun _ _ => hQ _ (by dsimp only; omega)⟩
  ensures_take {s} bytes Q hQ hs := by
    by_cases hle : s.pos + bytes ≤ s.input.length
    · cases hname : String.fromUTF8? ⟨((s.input.drop s.pos).take bytes).toArray⟩ with
      | none => exact ⟨none, s, (if_pos hle).trans (by rw [hname]), rfl, hs, nofun⟩
      | some name =>
        exact ⟨some name.toList, { s with pos := s.pos + bytes },
          (if_pos hle).trans (by rw [hname]), rfl, hle, fun a _ => hQ a _ (by dsimp only; omega)⟩
    · exact ⟨none, s, if_neg hle, rfl, hs, nofun⟩
  ensures_note {α s} k Q hQ hs := by
    cases k with
    | _ => exact ⟨_, _, rfl, rfl, hs, fun a _ => hQ a _ rfl⟩

/-- From every place in the text a reader ends at a place in the text, which is further on if the
reader succeeds. -/
def Progresses (x : Tape α) : Prop :=
  ∀ s : Place, s.pos ≤ s.input.length → ∃ r s', x.run.run s = some (r, s') ∧
    s'.input = s.input ∧ s'.pos ≤ s.input.length ∧ (r.isSome → s.pos < s'.pos)

theorem progresses_of_gains {x : Tape α} (h : Measured.Gains 1 x) : Progresses x := by
  intro s hs
  obtain ⟨r, s', hr, hinput, hs', hgains⟩ := h s hs
  refine ⟨r, s', hr, hinput, hinput ▸ hs', fun hsome => ?_⟩
  obtain ⟨a, rfl⟩ := Option.isSome_iff_exists.1 hsome
  have hlt : s'.input.length - s'.pos + 1 ≤ s.input.length - s.pos := hgains a rfl
  rw [hinput] at hlt
  omega

end Tape

/-- A reader that succeeds leaves a part of what was ahead, and not all of it. -/
def Scan.Progresses {α : Type} (x : Scan α) : Prop :=
  ∀ c a c', x.run c = some (a, c') → c'.rest <:+ c.rest ∧ c'.rest.length < c.rest.length

theorem Scan.progresses_of_gains {α : Type} {x : Scan α} (h : Measured.Gains 1 x) :
    Progresses x := h

theorem Level.all_progresses (n : Nat) : (Level.of n : Level).All Scan.Progresses := by
  have h := Measured.all_gains (m := Scan) n
  exact ⟨h.read, h.templateArg, h.component⟩

/-- The readers of all constructs make progress, over bytes as over cursors. -/
theorem Level.progresses (n : Nat) :
    (Level.of n : Level Tape).All Tape.Progresses ∧ (Level.of n : Level).All Scan.Progresses := by
  have h := Measured.all_gains (m := Tape) n
  exact ⟨⟨fun k => Tape.progresses_of_gains (h.read k), Tape.progresses_of_gains h.templateArg,
    fun last => Tape.progresses_of_gains (h.component last)⟩, Level.all_progresses n⟩

end CallTargets.Symbol
