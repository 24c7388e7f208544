import CallTargets.Proofs.Symbol.Spelling

/-!
# What a reading opens

The readers of one level call those of the level below for the constructs inside (`Level.read`).
None of them goes on when a construct inside cannot be read, so a reading depends on the constructs
it opens, one after another, and on nothing else. `Traced` says so of one reading: whoever reads
these constructs alike reads the same, also in front of a longer text if that is set off by a dot,
and who cannot read one of them reads nothing. `Traceable` says it of all readings of a reader, and
has a lemma for each way of putting readers together.
-/

namespace CallTargets.Symbol

open Scan

variable {α β σ : Type}

inductive Construct where
  | type
  | name
  | encoding
  | templateArgs

abbrev Construct.Result : Construct → Type
  | type => Shape
  | name => Name
  | encoding => String
  | templateArgs => List Shape

def Level.read {m : Type → Type} (l : Level m) : (k : Construct) → m k.Result
  | .type => l.type
  | .name => l.name
  | .encoding => l.encoding
  | .templateArgs => l.templateArgs

structure Opening where
  construct : Construct
  cursor : Cursor

def Level.run (l : Level) (o : Opening) : Option (o.construct.Result × Cursor) :=
  (l.read o.construct).run o.cursor

instance : LE Level where
  le l l' := ∀ o r, l.run o = some r → l'.run o = some r

/-! ## More text behind a symbol -/

/-- A text that can be put behind a symbol without becoming a part of it: nothing, or a suffix
behind a dot. -/
def IsAppendix (text : List Char) : Prop := ∀ c, text.head? = some c → c = '.'

def Cursor.extend (c : Cursor) (text : List Char) : Cursor := c.facing (c.rest ++ text)

namespace Cursor

variable (c : Cursor) (text : List Char)

@[simp]
theorem rest_extend : (c.extend text).rest = c.rest ++ text := rfl

@[simp]
theorem extend_nil : c.extend [] = c := facing_eq (List.append_nil _).symm

@[simp]
theorem extend_facing (rest : List Char) :
    (c.facing rest).extend text = c.facing (rest ++ text) := rfl

@[simp]
theorem facing_extend (rest : List Char) : (c.extend text).facing rest = c.facing rest := rfl

end Cursor

/-- What `l` reads where a construct is opened, `l'` reads there with more text behind. -/
def Level.Carries (l l' : Level) (text : List Char) (o : Opening) : Prop :=
  ∀ a c, l.run o = some (a, c) →
    (l'.read o.construct).run (o.cursor.extend text) = some (a, c.extend text)

/-! ## Readings and what they open -/

/-- From the place `c`, a reader that has the readers of a level for the constructs inside yields
`a` and stops at `c'`, and the constructs it opens on the way are `opened`. -/
structure Traced (read : Level → Scan α) (l : Level) (c : Cursor) (a : α) (c' : Cursor)
    (opened : List Opening) : Prop where
  carry : ∀ {l' : Level} {text : List Char}, IsAppendix text →
    (∀ o ∈ opened, l.Carries l' text o) → (read l').run (c.extend text) = some (a, c'.extend text)
  need : ∀ {l' : Level}, l' ≤ l → ∀ o ∈ opened, l'.run o = none → (read l').run c = none

/-- Whatever is read from a place opens some constructs, and depends on these. -/
def TraceableAt (read : Level → Scan α) (c : Cursor) : Prop :=
  ∀ l a c', (read l).run c = some (a, c') → ∃ opened, Traced read l c a c' opened

/-- Whatever is read opens some constructs, and depends on these. -/
def Traceable (read : Level → Scan α) : Prop := ∀ c, TraceableAt read c

theorem IsAppendix.nil : IsAppendix [] := by
  intro c hc
  cases hc

theorem IsAppendix.eq_nil_or {text : List Char} (h : IsAppendix text) :
    text = [] ∨ ∃ suffix, text = '.' :: suffix := by
  cases text with
  | nil => exact .inl rfl
  | cons c suffix => exact .inr ⟨suffix, by rw [h c rfl]⟩

theorem Level.carries_nil {l l' : Level} (hle : l ≤ l') (o : Opening) : l.Carries l' [] o := by
  intro a c hrun
  rw [Cursor.extend_nil, Cursor.extend_nil]
  exact hle o _ hrun

namespace TraceableAt

variable {read read' : Level → Scan α} {next : Level → α → Scan β} {c c' : Cursor}

theorem mono (h : TraceableAt read c) {l l' : Level} (hle : l ≤ l') {r : α × Cursor}
    (hrun : (read l).run c = some r) : (read l').run c = some r := by
  obtain ⟨opened, htraced⟩ := h l r.1 r.2 hrun
  have hcarry := htraced.carry IsAppendix.nil fun o _ => Level.carries_nil hle o
  rwa [Cursor.extend_nil, Cursor.extend_nil] at hcarry

theorem reject (h : ∀ l, (read l).run c = none) : TraceableAt read c := by
  intro l a c' hrun
  rw [h] at hrun
  cases hrun

theorem branch (h : TraceableAt read' c')
    (hrun : ∀ l text, IsAppendix text →
      (read l).run (c.extend text) = (read' l).run (c'.extend text)) : TraceableAt read c := by
  have hstart (l : Level) : (read l).run c = (read' l).run c' := by
    simpa using hrun l [] IsAppendix.nil
  intro l a c'' hread
  obtain ⟨opened, htraced⟩ := h l a c'' (by rwa [← hstart])
  refine ⟨opened, fun htext hcarries => ?_, fun hle o ho hnone => ?_⟩
  · rw [hrun _ _ htext]
    exact htraced.carry htext hcarries
  · rw [hstart]
    exact htraced.need hle o ho hnone

theorem bind (hread : TraceableAt read c) (hnext : ∀ a, Traceable fun l => next l a) :
    TraceableAt (fun l => read l >>= next l) c := by
  intro l b c' hrun
  rw [Scan.run_bind] at hrun
  obtain ⟨⟨a, c₁⟩, hfirst, hsecond⟩ := Option.bind_eq_some_iff.1 hrun
  obtain ⟨opened, htraced⟩ := hread l a c₁ hfirst
  obtain ⟨opened', htraced'⟩ := hnext a c₁ l b c' hsecond
  refine ⟨opened ++ opened', fun htext hcarries => ?_, fun {l'} hle o ho hnone => ?_⟩
  · have hone := htraced.carry htext fun o ho => hcarries o (List.mem_append_left _ ho)
    have htwo := htraced'.carry htext fun o ho => hcarries o (List.mem_append_right _ ho)
    rw [Scan.run_bind, hone]
    exact htwo
  · rw [Scan.run_bind]
    rcases List.mem_append.1 ho with ho | ho
    · rw [htraced.need hle o ho hnone]
      rfl
    · -- a first step that is still possible leads to the same place
      cases hone : (read l').run c with
      | none => rfl
      | some r =>
        have hsame := hread.mono hle hone
        rw [hfirst] at hsame
        cases hsame
        exact htraced'.need hle o ho hnone

end TraceableAt

namespace Traceable

variable {read read' : Level → Scan α} {next : Level → α → Scan β}

theorem pure (a : α) : Traceable fun _ => Pure.pure a := by
  intro c l b c' hrun
  cases hrun
  exact ⟨[], fun _ _ => rfl, fun _ o ho => absurd ho List.not_mem_nil⟩

theorem failure : Traceable fun _ => (fail : Scan α) := fun _ => TraceableAt.reject fun _ => rfl

theorem ofOption (o : Option α) : Traceable fun _ => (liftM o : Scan α) := by
  cases o with
  | none => exact failure
  | some a => exact pure a

theorem bind (hread : Traceable read) (hnext : ∀ a, Traceable fun l => next l a) :
    Traceable fun l => read l >>= next l := fun c => (hread c).bind hnext

theorem map (hread : Traceable read) (f : α → β) : Traceable fun l => f <$> read l := by
  have heq : (fun l => f <$> read l) = fun l => read l >>= fun a => Pure.pure (f a) := by
    funext l
    exact map_eq_pure_bind f (read l)
  rw [heq]
  exact hread.bind fun a => pure (f a)

theorem opens (k : Construct) : Traceable fun l => l.read k := by
  intro c l a c' hrun
  refine ⟨[⟨k, c⟩], fun _ hcarries => ?_, fun _ o ho hnone => ?_⟩
  · exact hcarries _ (List.mem_singleton_self _) a c' hrun
  · rw [List.mem_singleton] at ho
    subst ho
    exact hnone

theorem note (n : Note α) : Traceable fun _ => Scan.note n := by
  intro c l a c' hrun
  refine ⟨[], fun {_ text} _ _ => ?_, fun _ o ho => absurd ho List.not_mem_nil⟩
  have hextend : (c.extend text).answer? n =
      (c.answer? n).map fun r => (r.1, r.2.extend text) := by
    cases n <;> simp [Cursor.answer?, Cursor.extend, Cursor.facing, Function.comp_def]
  exact hextend.trans (congrArg (Option.map _) hrun)

end Traceable

/-! ## Letters -/

namespace TraceableAt

variable {read : Level → Scan α} {c : Cursor}

theorem rest_bind {body : Level → List Char → Scan α}
    (hsame : ∀ l suffix, body l (c.rest ++ '.' :: suffix) = body l c.rest)
    (h : TraceableAt (fun l => body l c.rest) c) :
    TraceableAt (fun l => Scan.rest >>= body l) c := by
  refine h.branch fun l text htext => ?_
  have hbody : body l (c.rest ++ text) = body l c.rest := by
    rcases htext.eq_nil_or with rfl | ⟨suffix, rfl⟩
    · rw [List.append_nil]
    · exact hsame l suffix
  rw [Scan.run_bind, run_rest, Cursor.rest_extend]
  exact congrArg (Scan.run · (c.extend text)) hbody

theorem peek_bind {body : Level → Option Char → Scan α}
    (hsame : c.rest = [] → ∀ l, body l (some '.') = body l none)
    (h : TraceableAt (fun l => body l c.rest.head?) c) :
    TraceableAt (fun l => Scan.peek >>= body l) c := by
  refine h.branch fun l text htext => ?_
  have hbody : body l (c.rest ++ text).head? = body l c.rest.head? := by
    rcases htext.eq_nil_or with rfl | ⟨suffix, rfl⟩
    · rw [List.append_nil]
    · cases hrest : c.rest with
      | nil => exact hsame hrest l
      | cons x rest => rfl
  rw [Scan.run_bind, run_peek, Cursor.rest_extend]
  exact congrArg (Scan.run · (c.extend text)) hbody

theorem skip_bind {n : Nat} (hn : n ≤ c.rest.length) (h : Traceable read) :
    TraceableAt (fun l => skip n >>= fun _ => read l) c := by
  refine (h (c.facing (c.rest.drop n))).branch fun l text _ => ?_
  rw [Scan.run_bind, run_skip, Cursor.rest_extend, List.drop_append_of_le_length hn]
  rfl

end TraceableAt

section

variable {c : Char} {rest text : List Char}

theorem IsAppendix.head?_append (h : IsAppendix text) (hc : c ≠ '.') (rest : List Char) :
    (rest ++ text).head? = some c ↔ rest.head? = some c := by
  cases rest with
  | nil =>
    refine ⟨fun hhead => absurd (h c hhead) hc, fun hhead => ?_⟩
    cases hhead
  | cons d rest => rfl

theorem IsAppendix.takeWhile_append (h : IsAppendix text) {p : Char → Bool} (hp : p '.' = false)
    (rest : List Char) : (rest ++ text).takeWhile p = rest.takeWhile p := by
  induction rest with
  | nil =>
    cases text with
    | nil => rfl
    | cons d text =>
      rw [h d rfl]
      simp [hp]
  | cons d rest ih =>
    rw [List.cons_append, List.takeWhile_cons, List.takeWhile_cons, ih]

theorem IsAppendix.dropWhile_append (h : IsAppendix text) {p : Char → Bool} (hp : p '.' = false)
    (rest : List Char) : (rest ++ text).dropWhile p = rest.dropWhile p ++ text := by
  have hsplit := List.takeWhile_append_dropWhile (p := p) (l := rest ++ text)
  rw [h.takeWhile_append hp] at hsplit
  refine List.append_cancel_left (hsplit.trans ?_)
  rw [← List.append_assoc, List.takeWhile_append_dropWhile]

namespace Traceable

theorem peek_bind {body : Level → Option Char → Scan α}
    (hsame : ∀ l, body l (some '.') = body l none) (h : ∀ next, Traceable fun l => body l next) :
    Traceable fun l => Scan.peek >>= body l :=
  fun c => TraceableAt.peek_bind (fun _ => hsame) (h c.rest.head? c)

theorem rest_bind {body : Level → List Char → Scan α}
    (hsame : ∀ l rest suffix, body l (rest ++ '.' :: suffix) = body l rest)
    (h : ∀ c rest, c.rest = rest → TraceableAt (fun l => body l rest) c) :
    Traceable fun l => Scan.rest >>= body l :=
  fun c => TraceableAt.rest_bind (fun l => hsame l c.rest) (h c c.rest rfl)

theorem accept (hc : c ≠ '.') : Traceable fun _ => Scan.accept c := by
  intro cursor
  by_cases hhead : cursor.rest.head? = some c
  · obtain ⟨tail, hrest⟩ := List.head?_eq_some_iff.1 hhead
    refine (pure true (cursor.facing tail)).branch fun _ text _ => ?_
    have hnext : (cursor.extend text).rest = c :: (tail ++ text) := by
      rw [Cursor.rest_extend, hrest, List.cons_append]
    exact run_accept_eq hnext
  · refine (pure false cursor).branch fun _ text htext => ?_
    exact run_accept_of_head?_ne ((htext.head?_append hc _).not.2 hhead)

theorem expect (hc : c ≠ '.') : Traceable fun _ => Scan.expect c := by
  refine (accept hc).bind fun b => ?_
  cases b with
  | true => exact pure ()
  | false => exact failure

theorem span {p : Char → Bool} (hp : p '.' = false) : Traceable fun _ => Scan.span p := by
  intro cursor
  refine (pure (cursor.rest.takeWhile p) (cursor.facing (cursor.rest.dropWhile p))).branch
    fun _ text htext => ?_
  rw [run_span, Cursor.rest_extend, htext.takeWhile_append hp, htext.dropWhile_append hp]
  rfl

end Traceable

end

/-! ## Loops -/

section

variable {round : σ → Scan (Round σ β)} {n m : Nat}

theorem Scan.repeatUpTo_of_le (hle : n ≤ m) {s : σ} {c : Cursor} {r : β × Cursor}
    (hrun : (repeatUpTo round n s).run c = some r) : (repeatUpTo round m s).run c = some r := by
  induction n generalizing m s c with
  | zero => cases hrun
  | succ n ih =>
    obtain ⟨m, rfl⟩ : ∃ k, m = k + 1 := ⟨m - 1, by omega⟩
    rw [repeatUpTo, Scan.run_bind] at hrun ⊢
    obtain ⟨⟨next, c'⟩, hround, hrest⟩ := Option.bind_eq_some_iff.1 hrun
    rw [hround]
    cases next with
    | again s => exact ih (Nat.le_of_succ_le_succ hle) hrest
    | finish b => exact hrest

namespace Traceable

variable {round : Level → σ → Scan (Round σ β)}

theorem repeatUpTo (hround : ∀ s, Traceable fun l => round l s) (n : Nat) (s : σ) :
    Traceable fun l => Scan.repeatUpTo (round l) n s := by
  induction n generalizing s with
  | zero => exact failure
  | succ n ih =>
    refine (hround s).bind fun next => ?_
    cases next with
    | again s => exact ih s
    | finish b => exact pure b

theorem loop (hround : ∀ s, Traceable fun l => round l s) (s : σ) :
    Traceable fun l => Scan.loop (round l) s := by
  intro c l b c' hrun
  obtain ⟨opened, htraced⟩ := repeatUpTo hround (c.rest.length + 1) s c l b c' hrun
  refine ⟨opened, fun {l' text} htext hcarries => ?_, htraced.need⟩
  have hlength : c.rest.length + 1 ≤ (c.extend text).rest.length + 1 := by simp
  exact repeatUpTo_of_le hlength (htraced.carry htext hcarries)

theorem untilEnd {item : Level → Scan α} (hitem : Traceable item) :
    Traceable fun l => Scan.untilEnd (item l) := by
  refine loop (fun items => (accept (by decide)).bind fun atEnd => ?_) []
  cases atEnd with
  | true => exact pure _
  | false =>
    intro c
    cases hrest : c.rest with
    | nil => exact TraceableAt.reject fun _ => by simp [hrest]
    | cons d rest =>
      refine ((hitem.map fun a => Round.again (a :: items)) c).branch fun _ text _ => ?_
      simp [hrest]

end Traceable

end

/-! ## Numerals, identifiers and references -/

def numberOf (negative : Bool) (digits : List Char) : Option Int :=
  if digits = [] ∨ 2 ^ 63 ≤ Text.decimal digits then none
  else some (if negative then -(Text.decimal digits : Int) else Text.decimal digits)

theorem number_eq : (number : Scan Int) = (do
    let negative ← accept 'n'
    let digits ← span Char.isDigit
    numberOf negative digits) := by
  have hcond (digits : List Char) : (digits.isEmpty || Text.decimal digits ≥ Nat.pow 2 63) = true ↔
      digits = [] ∨ 2 ^ 63 ≤ Text.decimal digits := by
    rw [Bool.or_eq_true, List.isEmpty_iff, decide_eq_true_eq]
    rfl
  refine bind_congr fun negative => bind_congr fun digits => ?_
  simp only [numberOf, hcond]
  split <;> rfl

theorem Text.takeBytes_append {n : Nat} {cs taken rest : List Char}
    (h : Text.takeBytes n cs = some (taken, rest)) (text : List Char) :
    Text.takeBytes n (cs ++ text) = some (taken, rest ++ text) ∧ rest <:+ cs := by
  fun_induction Text.takeBytes n cs generalizing taken with
  | case1 cs =>
    cases h
    simp [Text.takeBytes]
  | case2 => cases h
  | case3 n c cs hsize ih =>
    obtain ⟨⟨taken', rest'⟩, htaken, heq⟩ := Option.map_eq_some_iff.1 h
    cases heq
    obtain ⟨hread, hsuffix⟩ := ih htaken
    exact ⟨by simp [Text.takeBytes, hsize, hread], hsuffix.trans (List.suffix_cons _ _)⟩
  | case4 => cases h

namespace Traceable

theorem number : Traceable fun _ => Scan.number := by
  rw [number_eq]
  exact (accept (by decide)).bind fun _ => (span (by decide)).bind fun _ => ofOption _

theorem skipNumber : Traceable fun _ => Scan.skipNumber :=
  (accept (by decide)).bind fun _ => (span (by decide)).bind fun _ => pure ()

theorem identifier : Traceable fun _ => Scan.identifier := by
  refine number.bind fun length c => ?_
  by_cases hneg : length < 0
  · exact TraceableAt.reject fun _ => by rw [if_pos hneg]; rfl
  cases htake : Text.takeBytes length.toNat c.rest with
  | none =>
    refine TraceableAt.reject fun _ => ?_
    rw [if_neg hneg]
    change ((take length.toNat).run c).bind _ = _
    rw [run_take, htake]
    rfl
  | some split =>
    obtain ⟨name, rest⟩ := split
    have hsplit := Text.takeBytes_append htake
    refine (pure (if (Text.afterLead "_GLOBAL__N".toList name).isSome
        then "(anonymous namespace)" else String.ofList name) (c.facing rest)).branch
      fun _ text _ => ?_
    rw [if_neg hneg]
    change ((take length.toNat).run (c.extend text)).bind _ = _
    rw [run_take, Cursor.rest_extend, (hsplit text).1]
    rfl

theorem seqId : Traceable fun _ => Scan.seqId := by
  refine (accept (by decide)).bind fun first => ?_
  cases first with
  | true => exact pure 0
  | false =>
    refine (span (by decide)).bind fun digits c => ?_
    have hplace : Traceable fun _ => (do
        let place ← placeOf digits
        Scan.expect '_'
        return place) :=
      (ofOption _).bind fun _ => (expect (by decide)).bind fun _ => pure _
    exact (hplace c).branch fun _ text _ => run_seqPlace digits (c.extend text)

theorem remember (shape : Shape) : Traceable fun _ => Scan.remember shape := note _

theorem backReference : Traceable fun _ => Scan.backReference := by
  refine (expect (by decide)).bind fun _ c => ?_
  cases hrest : c.rest with
  | nil => exact TraceableAt.reject fun _ => by simp [hrest]
  | cons d tail =>
    cases hclass : libraryClass? d with
    | some name =>
      refine (pure (.name name) (c.facing tail)).branch fun _ text _ => ?_
      simp [hrest, hclass]
    | none =>
      have hplace : Traceable fun _ => (do Scan.note (.named (← Scan.seqId))) :=
        seqId.bind fun _ => note _
      refine (hplace c).branch fun _ text _ => ?_
      simp [hrest, hclass]

theorem templateParam : Traceable fun _ => Scan.templateParam := by
  refine (expect (by decide)).bind fun _ => (accept (by decide)).bind fun first => ?_
  cases first with
  | true => exact note _
  | false =>
    refine number.bind fun n c => ?_
    by_cases hneg : n < 0
    · exact TraceableAt.reject fun _ => by rw [if_pos hneg]; rfl
    · have hplace : Traceable fun _ => (do
          Scan.expect '_'
          Scan.note (.arg (n.toNat + 1))) := (expect (by decide)).bind fun _ => note _
      exact (hplace c).branch fun _ text _ => by rw [if_neg hneg]

theorem qualifiers : Traceable fun _ => Scan.qualifiers :=
  (accept (by decide)).bind fun _ => (accept (by decide)).bind fun _ =>
    (accept (by decide)).bind fun _ => pure _

theorem ordinal : Traceable fun _ => Scan.ordinal := by
  refine (accept (by decide)).bind fun first => ?_
  cases first with
  | true => exact pure 1
  | false =>
    refine number.bind fun n => ?_
    split
    · exact fun _ => TraceableAt.reject fun _ => rfl
    · exact (expect (by decide)).bind fun _ => pure _

theorem discriminator : Traceable fun _ => Scan.discriminator := by
  refine (accept (by decide)).bind fun first => ?_
  cases first with
  | false => exact pure ()
  | true =>
    refine (accept (by decide)).bind fun second => ?_
    cases second with
    | false => exact skipNumber
    | true => exact skipNumber.bind fun _ => (accept (by decide)).bind fun _ => pure ()

theorem callOffset : Traceable fun _ => Scan.callOffset := by
  have hnumber : Traceable fun _ => (do let _ ← Scan.number; Scan.expect '_') :=
    number.bind fun _ => expect (by decide)
  refine (accept (by decide)).bind fun isFixed => ?_
  cases isFixed with
  | true => exact hnumber
  | false =>
    exact (expect (by decide)).bind fun _ => number.bind fun _ =>
      (expect (by decide)).bind fun _ => hnumber

end Traceable

end CallTargets.Symbol
