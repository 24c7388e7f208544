import CallTargets.Proofs.Symbol.Progress
import CallTargets.Proofs.Symbol.RoundTrip

/-!
# What the constructs open

Every construct of the grammar is `Traceable`: its reading depends on the constructs it opens. The
proofs follow the readers. Where a reader chooses by the letters ahead, a dot has to be as good as
the end of the symbol, or nothing can be read there anyway. For the levels this means that a level
reads what a lower one reads (`Level.of_mono`), and that a text behind a dot does not disturb them
(`Level.of_carries`).
-/

namespace CallTargets.Symbol

open Scan

/-! ## Codes and dots -/

theorem builtinAt?_append_dot (rest suffix : List Char) :
    builtinAt? (rest ++ '.' :: suffix) = builtinAt? rest := by
  have hone : builtin? '.' = none := rfl
  have htwo : builtinD? '.' = none ∧ builtin? 'D' = none := ⟨rfl, rfl⟩
  unfold builtinAt?
  rcases rest with _ | ⟨x, _ | ⟨y, rest⟩⟩ <;> grind

theorem operator?_of_mem {code : List Char} (h : '.' ∈ code) : operator? code = none := by
  have hcodes : operators.all (fun e => !e.1.toList.contains '.') = true := rfl
  rw [operator?, Option.map_eq_none_iff, List.find?_eq_none]
  intro e he heq
  have hdot := List.all_eq_true.1 hcodes e he
  rw [of_decide_eq_true heq] at hdot
  simp [h] at hdot

theorem atEnd_append_dot (rest suffix : List Char) :
    atEnd (rest ++ '.' :: suffix) = atEnd rest := by
  cases rest <;> rfl

namespace Traceable

theorem type : Traceable fun l => l.type := opens .type

theorem name : Traceable fun l => l.name := opens .name

theorem encoding : Traceable fun l => l.encoding := opens .encoding

theorem templateArgs : Traceable fun l => l.templateArgs := opens .templateArgs

/-! ## Types -/

theorem paramRound (params : List Shape) : Traceable fun l => Symbol.paramRound l params := by
  refine rest_bind (fun l rest suffix => ?_) fun c rest hrest => ?_
  · rcases rest with _ | ⟨x, _ | ⟨y, rest⟩⟩ <;> grind
  split
  · exact .skip_bind (by simp [hrest]) (pure _)
  · exact .skip_bind (by simp [hrest]) (pure _)
  · exact .skip_bind (by simp [hrest]) (pure _)
  · exact (type.bind fun _ => pure _) c

theorem functionType : Traceable fun l => Symbol.functionType l := by
  refine (expect (by decide)).bind fun _ => (accept (by decide)).bind fun _ => type.bind fun _ => ?_
  exact (loop paramRound []).bind fun _ => pure _

theorem compoundType : Traceable fun l => Symbol.compoundType l := by
  refine rest_bind (fun l rest suffix => ?_) fun c rest hrest => ?_
  · rcases rest with _ | ⟨x, _ | ⟨y, rest⟩⟩ <;> grind
  split
  · exact .skip_bind (by simp [hrest]) (type.bind fun _ => pure _)
  · exact .skip_bind (by simp [hrest]) (type.bind fun _ => pure _)
  · exact .skip_bind (by simp [hrest]) (type.bind fun _ => pure _)
  · exact (functionType.bind fun _ => pure _) c
  · have helement (length : String) : Traceable fun l => (do
        Scan.expect '_'
        let element ← l.type
        return (Shape.array length element, true)) :=
      (expect (by decide)).bind fun _ => type.bind fun _ => pure _
    refine .skip_bind (by simp [hrest]) (peek_bind (fun _ => rfl) fun next => ?_)
    dsimp only
    split
    · exact (pure _).bind helement
    · exact (number.map _).bind helement
  · exact .skip_bind (by simp [hrest]) (type.bind fun _ => type.bind fun _ => pure _)
  · exact (templateParam.bind fun _ => pure _) c
  · exact .skip_bind (by simp [hrest]) (type.bind fun _ => pure _)
  · exact (name.bind fun _ => pure _) c
  · refine (backReference.bind fun shape => peek_bind (fun _ => rfl) fun next => ?_) c
    split
    · exact templateArgs.bind fun _ => pure _
    · exact pure _
  · exact .skip_bind (by simp [hrest]) (identifier.bind fun _ => pure _)
  · split
    · exact (qualifiers.bind fun _ => type.bind fun _ => pure _) c
    · split
      · exact (name.bind fun _ => pure _) c
      · exact failure c
  · exact failure c

theorem readType : Traceable fun l => Symbol.readType l := by
  refine rest_bind (fun l rest suffix => by rw [builtinAt?_append_dot]) fun c rest hrest => ?_
  split
  · rename_i hcode
    exact .skip_bind (hrest ▸ (length_of_builtinAt? hcode).2) (pure _)
  · refine (compoundType.bind fun read => ?_) c
    dsimp only
    split
    · exact (remember _).bind fun _ => pure _
    · exact pure _

/-! ## Template arguments -/

theorem literal : Traceable fun l => Symbol.literal l := by
  refine (expect (by decide)).bind fun _ => ?_
  refine rest_bind (fun l rest suffix => ?_) fun c rest hrest => ?_
  · rcases rest with _ | ⟨x, _ | ⟨y, rest⟩⟩ <;> grind
  split
  · exact .skip_bind (by simp [hrest])
      (encoding.bind fun _ => (expect (by decide)).bind fun _ => pure _)
  · exact (type.bind fun _ => number.bind fun _ => (expect (by decide)).bind fun _ => pure _) c

theorem run_templateArg_zero (l : Level) (c : Cursor) : (Symbol.templateArg l 0).run c = none := by
  obtain ⟨_ | _, _⟩ := c <;> rfl

theorem templateArg (packs : Nat) : Traceable fun l => Symbol.templateArg l packs := by
  induction packs with
  | zero => exact fun c => TraceableAt.reject fun l => run_templateArg_zero l c
  | succ packs ih =>
    intro c
    cases hrest : c.rest with
    | nil => exact TraceableAt.reject fun l => by simp [Symbol.templateArg, hrest]
    | cons x rest =>
      refine TraceableAt.peek_bind (fun hnil => absurd (hnil.symm.trans hrest) (by simp)) ?_
      generalize hnext : c.rest.head? = next
      split
      · exact literal c
      · exact .skip_bind (by simp [hrest]) ((untilEnd ih).bind fun _ => pure _)
      · exact failure c
      · exact type c
      · exact failure c

theorem untilEnd_mono {item item' : Scan Shape}
    (hitem : ∀ c r, item.run c = some r → item'.run c = some r) {c : Cursor}
    {r : List Shape × Cursor} (hrun : (Scan.untilEnd item).run c = some r) :
    (Scan.untilEnd item').run c = some r := by
  -- as if the items were the types of a level
  have hle : { Level.ground with type := item } ≤ { Level.ground with type := item' } := by
    rintro ⟨k, c⟩ r hread
    cases k with
    | type => exact hitem c r hread
    | name => cases hread
    | encoding => cases hread
    | templateArgs => cases hread
  exact (untilEnd type c).mono hle hrun

theorem templateArg_of_le {l : Level} {packs packs' : Nat} (hle : packs ≤ packs') {c : Cursor}
    {r : Shape × Cursor} (hrun : (Symbol.templateArg l packs).run c = some r) :
    (Symbol.templateArg l packs').run c = some r := by
  induction packs generalizing packs' c r with
  | zero =>
    rw [run_templateArg_zero] at hrun
    cases hrun
  | succ packs ih =>
    obtain ⟨packs', rfl⟩ : ∃ n, packs' = n + 1 := ⟨packs' - 1, by omega⟩
    rw [Symbol.templateArg, Scan.run_bind, run_peek] at hrun ⊢
    generalize c.rest.head? = next at hrun ⊢
    dsimp only [Option.bind_eq_bind, Option.bind_some] at hrun ⊢
    split at hrun
    · exact hrun
    · rw [Scan.run_bind, run_skip, Option.bind_eq_bind, Option.bind_some,
        Scan.run_bind] at hrun ⊢
      obtain ⟨read, hpack, hrest⟩ := Option.bind_eq_some_iff.1 hrun
      have hmore := untilEnd_mono (fun c r => ih (Nat.le_of_succ_le_succ hle)) hpack
      rw [hmore]
      exact hrest
    · exact hrun
    · exact hrun
    · exact hrun

theorem readTemplateArgs : Traceable fun l => Symbol.readTemplateArgs l := by
  have hitem : Traceable fun l => (do Symbol.templateArg l (← Scan.rest).length) := by
    intro c l a c' hrun
    obtain ⟨opened, htraced⟩ := templateArg c.rest.length c l a c' hrun
    refine ⟨opened, fun {_ text} htext hcarries => ?_, htraced.need⟩
    have hlength : c.rest.length ≤ (c.extend text).rest.length := by simp
    exact templateArg_of_le hlength (htraced.carry htext hcarries)
  refine (expect (by decide)).bind fun _ c => ?_
  have hlist (outer : Bool) : Traceable fun l => (do
      Scan.note .openArgs
      let args ← Scan.untilEnd (do Symbol.templateArg l (← Scan.rest).length)
      Scan.note (.closeArgs outer args)
      return args) :=
    (note _).bind fun _ => (untilEnd hitem).bind fun _ =>
      (note _).bind fun _ => pure _
  exact (hlist c.inArgs c).branch fun l text _ => rfl

/-! ## Names -/

theorem operatorName : Traceable fun l => Symbol.operatorName l := by
  have hfirst (y : Char) : operator? ['.', y] = none := operator?_of_mem (by simp)
  have hsecond (x : Char) : operator? [x, '.'] = none := operator?_of_mem (by simp)
  refine rest_bind (fun l rest suffix => ?_) fun c rest hrest => ?_
  · rcases rest with _ | ⟨x, _ | ⟨y, rest⟩⟩ <;> grind
  split
  · exact .skip_bind (by simp [hrest]) (type.bind fun _ => pure _)
  · exact .skip_bind (by simp [hrest]) (identifier.bind fun _ => pure _)
  · split
    · exact .skip_bind (by simp [hrest]) (pure _)
    · exact failure c
  · exact failure c

theorem component (last : String) : Traceable fun l => Symbol.component l last := by
  refine (span (by decide)).bind fun _ c => ?_
  -- in front of a dot a lone `D` is taken for a destructor, and nothing is read in either case
  by_cases hone : c.rest = [] ∨ c.rest = ['D']
  · refine TraceableAt.reject fun l => ?_
    rcases hone with hrest | hrest <;> simp [Symbol.operatorName, hrest]
  refine TraceableAt.rest_bind (fun l suffix => ?_) ?_
  · rcases hrest : c.rest with _ | ⟨x, _ | ⟨y, rest⟩⟩
    · exact absurd (.inl hrest) hone
    · have hx : x ≠ 'D' := fun hx => hone (.inr (hx ▸ hrest))
      grind
    · grind
  · generalize hrest : c.rest = rest
    split
    · have hend (inherits : Bool) : Traceable fun l => (do
          if inherits then
            let _ ← l.type
          return (withoutArgs last, true)) := by
        cases inherits with
        | true => exact type.bind fun _ => pure _
        | false => exact pure _
      refine .skip_bind (by simp [hrest]) ((accept (by decide)).bind fun inherits c => ?_)
      cases hrest : c.rest with
      | nil => exact TraceableAt.reject fun l => by simp [hrest]
      | cons x rest =>
        refine TraceableAt.peek_bind (fun hnil => absurd (hnil.symm.trans hrest) (by simp)) ?_
        rw [hrest]
        dsimp only [List.head?_cons]
        split
        · exact .skip_bind (by simp [hrest]) (hend inherits)
        · exact failure.bind (fun _ => hend inherits) c
    · split
      · exact .skip_bind (by simp [hrest]) (pure _)
      · exact failure c
    · exact .skip_bind (by simp [hrest]) (ordinal.bind fun _ => pure _)
    · exact .skip_bind (by simp [hrest])
        ((untilEnd type).bind fun _ => ordinal.bind fun _ => pure _)
    · split
      · exact (identifier.bind fun _ => pure _) c
      · exact operatorName c
    · exact failure c

theorem pathStep (path : Path) : Traceable fun l => Symbol.pathStep l path := by
  refine peek_bind (fun _ => rfl) fun next => ?_
  split
  · split
    · exact failure.bind fun _ => templateArgs.bind fun _ => pure _
    · exact templateArgs.bind fun _ => pure _
  · exact templateParam.bind fun _ => pure _
  · exact (component _).bind fun _ => pure _

theorem nestedRound (path : Path) : Traceable fun l => Symbol.nestedRound l path := by
  refine (accept (by decide)).bind fun atEnd => ?_
  cases atEnd with
  | true => exact pure _
  | false =>
    refine rest_bind (fun l rest suffix => ?_) fun c rest hrest => ?_
    · rcases rest with _ | ⟨x, _ | ⟨y, rest⟩⟩
      · rfl
      · grind
      · by_cases hx : x = 'S'
        · subst hx
          by_cases hy : y = 't' <;> simp [hy]
        · simp [hx]
    split
    · exact .skip_bind (by simp [hrest]) (pure _)
    · exact (backReference.bind fun _ => pure _) c
    · refine ((pathStep path).bind fun path => peek_bind (fun _ => rfl) fun next => ?_) c
      split
      · exact (remember _).bind fun _ => pure _
      · exact pure _

theorem nestedName : Traceable fun l => Symbol.nestedName l := by
  refine (expect (by decide)).bind fun _ => qualifiers.bind fun quals =>
    (accept (by decide)).bind fun isLvalue => ?_
  have hpath (refs : List Qualifier) : Traceable fun l => (do
      let path ← Scan.loop (Symbol.nestedRound l) {}
      return { text := path.text, isTemplate := path.isTemplate, isSpecial := path.isSpecial,
               quals := quals ++ refs : Name }) := (loop nestedRound {}).bind fun _ => pure _
  cases isLvalue with
  | true => exact (pure false).bind fun _ => hpath _
  | false => exact (accept (by decide)).bind fun _ => hpath _

theorem localName : Traceable fun l => Symbol.localName l := by
  refine (expect (by decide)).bind fun _ => encoding.bind fun outer =>
    (expect (by decide)).bind fun _ => (accept (by decide)).bind fun isLiteral => ?_
  cases isLiteral with
  | true => exact discriminator.bind fun _ => pure _
  | false => exact name.bind fun _ => discriminator.bind fun _ => pure _

theorem unscopedName (scope : String) : Traceable fun l => Symbol.unscopedName l scope := by
  refine (component "").bind fun _ => peek_bind (fun _ => rfl) fun next => ?_
  split
  · exact (remember _).bind fun _ => templateArgs.bind fun _ => pure _
  · exact pure _

theorem readName : Traceable fun l => Symbol.readName l := by
  refine rest_bind (fun l rest suffix => ?_) fun c rest hrest => ?_
  · rcases rest with _ | ⟨x, _ | ⟨y, rest⟩⟩
    · rfl
    · grind
    · by_cases hx : x = 'S'
      · subst hx
        by_cases hy : y = 't' <;> simp [hy]
      · grind
  split
  · exact nestedName c
  · exact localName c
  · exact .skip_bind (by simp [hrest]) (unscopedName _)
  · exact (backReference.bind fun _ => templateArgs.bind fun _ => pure _) c
  · exact unscopedName _ c

/-! ## Encodings -/

theorem specialEntity : Traceable fun l => Symbol.specialEntity l := by
  have hfirst (y : Char) : typeEntity? ['.', y] = none ∧ nameEntity? ['.', y] = none := by
    simp [typeEntity?, nameEntity?]
  have hsecond (x : Char) : typeEntity? [x, '.'] = none ∧ nameEntity? [x, '.'] = none := by
    simp [typeEntity?, nameEntity?]
  refine rest_bind (fun l rest suffix => ?_) fun c rest hrest => ?_
  · rcases rest with _ | ⟨x, _ | ⟨y, rest⟩⟩ <;> grind
  split
  · exact .skip_bind (by simp [hrest]) (callOffset.bind fun _ => encoding.bind fun _ => pure _)
  · exact .skip_bind (by simp [hrest]) (callOffset.bind fun _ => encoding.bind fun _ => pure _)
  · exact .skip_bind (by simp [hrest])
      (callOffset.bind fun _ => callOffset.bind fun _ => encoding.bind fun _ => pure _)
  · split
    · exact .skip_bind (by simp [hrest]) (type.bind fun _ => pure _)
    · exact .skip_bind (by simp [hrest]) (name.bind fun _ => pure _)
    · exact failure c
  · exact failure c

theorem argumentRound (params : List Shape) : Traceable fun l => Symbol.argumentRound l params := by
  refine rest_bind (fun l rest suffix => by rw [atEnd_append_dot]) fun c rest _ => ?_
  split
  · exact pure _ c
  · exact (type.bind fun _ => pure _) c

theorem readEncoding : Traceable fun l => Symbol.readEncoding l := by
  intro c
  cases hrest : c.rest with
  | nil => exact TraceableAt.reject fun l => by simp [Symbol.readEncoding, hrest]
  | cons x rest =>
    refine TraceableAt.peek_bind (fun hnil => absurd (hnil.symm.trans hrest) (by simp)) ?_
    rw [hrest]
    dsimp only [List.head?_cons]
    split
    · exact specialEntity c
    · refine (name.bind fun name c => ?_) c
      refine TraceableAt.rest_bind (fun l suffix => by rw [atEnd_append_dot]) ?_
      split
      · exact pure _ c
      · have hparams (ret : String) : Traceable fun l => (do
            let params ← Scan.loop (Symbol.argumentRound l) []
            return ret ++ name.text ++ "(" ++ Shape.renderParams params ++ ")" ++
              qualifierText name.quals) := (loop argumentRound []).bind fun _ => pure _
        split
        · exact ((type.map _).bind hparams) c
        · exact ((pure "").bind hparams) c

end Traceable

/-! ## Levels -/

namespace Level

variable {l l' : Level} {n m : Nat} {text : List Char}

theorem traceable_next (k : Construct) : Traceable fun l => l.next.read k := by
  cases k with
  | type => exact Traceable.readType
  | name => exact Traceable.readName
  | encoding => exact Traceable.readEncoding
  | templateArgs => exact Traceable.readTemplateArgs

theorem next_carries (htext : IsAppendix text) (h : ∀ o, l.Carries l' text o) (o : Opening) :
    l.next.Carries l'.next text o := by
  intro a c hrun
  obtain ⟨opened, htraced⟩ := traceable_next o.construct o.cursor l a c hrun
  exact htraced.carry htext fun inner _ => h inner

theorem run_ground (o : Opening) : ground.run o = none := by
  obtain ⟨k, c⟩ := o
  cases k <;> rfl

/-- What a level reads, the levels above it read as well, and a text behind a dot does not
disturb them. -/
theorem of_carries (hle : n ≤ m) (htext : IsAppendix text) (o : Opening) :
    (Level.of n).Carries (Level.of m) text o := by
  induction n generalizing m o with
  | zero =>
    intro a c hrun
    rw [Level.of, run_ground] at hrun
    cases hrun
  | succ n ih =>
    obtain ⟨m, rfl⟩ : ∃ k, m = k + 1 := ⟨m - 1, by omega⟩
    exact next_carries htext (ih (Nat.le_of_succ_le_succ hle)) o

theorem of_mono (hle : n ≤ m) : Level.of n ≤ Level.of m := by
  rintro o ⟨a, c⟩ hrun
  have hcarry := of_carries hle IsAppendix.nil o a c hrun
  rwa [Cursor.extend_nil, Cursor.extend_nil] at hcarry

end Level

end CallTargets.Symbol
