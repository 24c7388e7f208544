import CallTargets.Proofs.Symbol.Affixes

/-!
# How deep symbols nest

Types, names, encodings and template argument lists are counted while they are open, and a symbol
that opens too many of them at a time is rejected. `Opens` says that a construct is opened directly
inside another one, so constructs that are open at the same time form a chain. The chains from the
encoding of a symbol are as long as the level that is needed to read it, so the bound rejects
exactly the symbols with a longer chain (`demangle_eq_none_iff`). Argument packs and marks of
internal linkage nest as well, but they are not counted, and any number of them is read
(`demangle_packed`, `demangle_marked`).
-/

namespace CallTargets.Symbol

open Scan

variable {n m : Nat} {o outer inner : Opening}

/-! ## Open constructs -/

/-- The outer construct can be read, but not without the inner one, whatever else is read: the
inner one is opened directly inside it. -/
def Opens (outer inner : Opening) : Prop :=
  ∃ n, ((Level.of (n + 1)).run outer).isSome = true ∧
    ∀ l ≤ Level.of n, l.run inner = none → l.next.run outer = none

/-- Constructs of a symbol that are open at the same time, from the outside in. -/
def OpenTogether (symbol : String) (stack : List Opening) : Prop :=
  ∃ mangled, symbol.toList = '_' :: 'Z' :: mangled ∧
    stack.head? = some ⟨.encoding, { rest := mangled }⟩ ∧ stack.IsChain Opens

/-- The symbol can be read if it may nest deep enough. -/
def IsGrammatical (symbol : String) : Prop :=
  ∃ n mangled printed c, symbol.toList = '_' :: 'Z' :: mangled ∧
    (Level.of n).encoding.run { rest := mangled } = some (printed, c) ∧
    (appendixNote c.rest).isSome = true

namespace Level

theorem run_of_unique {r r' : o.construct.Result × Cursor} (h : (Level.of n).run o = some r)
    (h' : (Level.of m).run o = some r') : r = r' := by
  rcases Nat.le_total n m with hle | hle
  · exact Option.some.inj ((of_mono hle o r h).symm.trans h')
  · exact Option.some.inj (h.symm.trans (of_mono hle o r' h'))

theorem run_of_eq_none (hle : n ≤ m) (h : (Level.of m).run o = none) :
    (Level.of n).run o = none := by
  cases hrun : (Level.of n).run o with
  | none => rfl
  | some r => exact absurd (h.symm.trans (of_mono hle o r hrun)) (by simp)

end Level

theorem Opens.isSome_run (h : Opens outer inner)
    (hread : ((Level.of (n + 1)).run outer).isSome = true) :
    ((Level.of n).run inner).isSome = true := by
  obtain ⟨m, hm, hneed⟩ := h
  by_contra hnone
  rw [Option.not_isSome_iff_eq_none] at hnone
  rcases Nat.le_total n m with hle | hle
  · have hstuck : (Level.of (n + 1)).run outer = none := hneed _ (Level.of_mono hle) hnone
    simp [hstuck] at hread
  · have hstuck : (Level.of (m + 1)).run outer = none :=
      hneed _ (fun _ _ h => h) (Level.run_of_eq_none hle hnone)
    simp [hstuck] at hm

theorem exists_opens (hread : ((Level.of (m + 1)).run o).isSome = true)
    (hnone : (Level.of (n + 1)).run o = none) :
    ∃ inner, Opens o inner ∧ ((Level.of m).run inner).isSome = true ∧
      (Level.of n).run inner = none := by
  obtain ⟨⟨a, c⟩, hrun⟩ := Option.isSome_iff_exists.1 hread
  obtain ⟨opened, htraced⟩ := Level.traceable_next o.construct o.cursor (Level.of m) a c hrun
  have hopens : ∀ inner ∈ opened, Opens o inner := fun inner hinner =>
    ⟨m, hread, fun l hle => htraced.need hle inner hinner⟩
  by_contra hall
  push Not at hall
  -- a level that reads all that is opened reads the whole construct
  have hcarry : ∀ inner ∈ opened, (Level.of m).Carries (Level.of n) [] inner := by
    intro inner hinner a c hinnerRun
    have hsome := hall inner (hopens inner hinner) (by rw [hinnerRun]; rfl)
    obtain ⟨r, hr⟩ := Option.ne_none_iff_exists'.1 hsome
    rw [Cursor.extend_nil, Cursor.extend_nil, Level.run_of_unique hinnerRun hr]
    exact hr
  have hsame := htraced.carry IsAppendix.nil hcarry
  rw [Cursor.extend_nil, Cursor.extend_nil] at hsame
  exact absurd (hnone.symm.trans hsame) (by simp)

theorem length_lt_of_isChain {stack : List Opening} (hread : ((Level.of n).run o).isSome = true)
    (hchain : (o :: stack).IsChain Opens) : stack.length < n := by
  induction n generalizing o stack with
  | zero =>
    rw [Level.of, Level.run_ground] at hread
    cases hread
  | succ n ih =>
    cases stack with
    | nil => exact Nat.succ_pos n
    | cons inner stack =>
      obtain ⟨hopens, hrest⟩ := List.isChain_cons_cons.1 hchain
      exact Nat.succ_lt_succ (ih (hopens.isSome_run hread) hrest)

theorem exists_isChain (hread : ((Level.of m).run o).isSome = true)
    (hnone : (Level.of n).run o = none) :
    ∃ stack, (o :: stack).IsChain Opens ∧ stack.length = n := by
  induction n generalizing o m with
  | zero => exact ⟨[], List.IsChain.singleton o, rfl⟩
  | succ n ih =>
    cases m with
    | zero =>
      rw [Level.of, Level.run_ground] at hread
      cases hread
    | succ m =>
      obtain ⟨inner, hopens, hinner, hstuck⟩ := exists_opens hread hnone
      obtain ⟨stack, hchain, hlength⟩ := ih hinner hstuck
      exact ⟨inner :: stack, List.isChain_cons_cons.2 ⟨hopens, hchain⟩, congrArg (· + 1) hlength⟩

/-- A level rejects a construct if and only if it has no room for all that is open in it at the same
time. -/
theorem run_of_eq_none_iff (hread : ((Level.of m).run o).isSome = true) :
    (Level.of n).run o = none ↔ ∃ stack, (o :: stack).IsChain Opens ∧ n ≤ stack.length := by
  constructor
  · intro hnone
    obtain ⟨stack, hchain, hlength⟩ := exists_isChain hread hnone
    exact ⟨stack, hchain, hlength.ge⟩
  · rintro ⟨stack, hchain, hlength⟩
    by_contra hsome
    have hroom := length_lt_of_isChain (Option.isSome_iff_ne_none.2 hsome) hchain
    omega

namespace IsGrammatical

variable {symbol text : String}

theorem of_demangle (h : demangle symbol = some text) : IsGrammatical symbol := by
  obtain ⟨mangled, printed, c, note, hsymbol, hread, hnote, -⟩ := demangle_eq_some_iff.1 h
  exact ⟨maxNesting, mangled, printed, c, hsymbol, hread, Option.isSome_of_eq_some hnote⟩

theorem demangle_eq_none_iff_run (h : IsGrammatical symbol) : ∃ n mangled,
    symbol.toList = '_' :: 'Z' :: mangled ∧
    ((Level.of n).run ⟨.encoding, { rest := mangled }⟩).isSome = true ∧
    (demangle symbol = none ↔
      (Level.of maxNesting).run ⟨.encoding, { rest := mangled }⟩ = none) := by
  obtain ⟨n, mangled, printed, c, hsymbol, hread, hnote⟩ := h
  obtain ⟨note, hnote⟩ := Option.isSome_iff_exists.1 hnote
  refine ⟨n, mangled, hsymbol, Option.isSome_of_eq_some hread, fun hnone => ?_, fun hnone => ?_⟩
  · cases hrun : (Level.of maxNesting).run ⟨.encoding, { rest := mangled }⟩ with
    | none => rfl
    | some r =>
      have hr : r = (printed, c) := Level.run_of_unique hrun hread
      subst hr
      have hsome : demangle symbol = some (printed ++ note) :=
        demangle_eq_some_iff.2 ⟨mangled, printed, c, note, hsymbol, hrun, hnote, rfl⟩
      exact absurd (hnone.symm.trans hsome) (by simp)
  · cases hsome : demangle symbol with
    | none => rfl
    | some text =>
      obtain ⟨mangled', printed, c, note, hsymbol', hrun, -⟩ := demangle_eq_some_iff.1 hsome
      rw [hsymbol] at hsymbol'
      cases hsymbol'
      exact absurd (hnone.symm.trans hrun) (by simp)

theorem demangle_eq_none_iff (h : IsGrammatical symbol) :
    demangle symbol = none ↔
      ∃ stack, OpenTogether symbol stack ∧ maxNesting < stack.length := by
  obtain ⟨n, mangled, hsymbol, hread, hiff⟩ := h.demangle_eq_none_iff_run
  rw [hiff, run_of_eq_none_iff hread]
  constructor
  · rintro ⟨stack, hchain, hlength⟩
    exact ⟨_ :: stack, ⟨mangled, hsymbol, rfl, hchain⟩, Nat.lt_succ_of_le hlength⟩
  · rintro ⟨stack, ⟨mangled', hsymbol', hhead, hchain⟩, hlength⟩
    obtain ⟨inner, rfl⟩ := List.head?_eq_some_iff.1 hhead
    rw [hsymbol] at hsymbol'
    cases hsymbol'
    exact ⟨inner, hchain, Nat.le_of_lt_succ hlength⟩

end IsGrammatical

/-- The symbols that are rejected are those outside the grammar and those with more than
`maxNesting` constructs open at the same time. -/
theorem demangle_eq_none_iff (symbol : String) :
    demangle symbol = none ↔
      ¬ IsGrammatical symbol ∨ ∃ stack, OpenTogether symbol stack ∧ maxNesting < stack.length := by
  by_cases hgrammar : IsGrammatical symbol
  · simp [hgrammar, hgrammar.demangle_eq_none_iff]
  · have hnone : demangle symbol = none :=
      Option.eq_none_iff_forall_ne_some.2 fun text h => hgrammar (.of_demangle h)
    simp [hgrammar, hnone]

/-! ## Packs and marks -/

section

variable {item : Scan Shape} {cursor : Cursor} {tail : List Char}

theorem run_endRound_end (item : Scan Shape) (items : List Shape)
    (hrest : cursor.rest = 'E' :: tail) :
    (endRound item items).run cursor = some (.finish items.reverse, cursor.facing tail) := by
  rw [endRound, Scan.run_bind, run_accept_eq hrest]
  rfl

theorem run_untilEnd_nil (item : Scan Shape) (hrest : cursor.rest = 'E' :: tail) :
    (untilEnd item).run cursor = some ([], cursor.facing tail) :=
  run_loop .refl (run_endRound_end item [] hrest)

theorem run_untilEnd_single {c : Char} {rest : List Char} {shape : Shape}
    (hrest : cursor.rest = c :: rest) (hc : c ≠ 'E') (hlength : tail.length < rest.length)
    (hitem : item.run cursor = some (shape, cursor.facing ('E' :: tail))) :
    (untilEnd item).run cursor = some ([shape], cursor.facing tail) := by
  have hhead : cursor.rest.head? ≠ some 'E' := by simp [hrest, hc]
  have hround : Goes (endRound item) ([], cursor) ([shape], cursor.facing ('E' :: tail)) := by
    refine ⟨?_, by simp [hrest, hlength]⟩
    rw [endRound, Scan.run_bind, run_accept_of_head?_ne hhead]
    simp [hrest, hitem]
  exact run_loop (.single hround) (run_endRound_end item [shape] rfl)

theorem run_templateArg_pack {l : Level} {packs : Nat} {rest : List Char} {args : List Shape}
    (hrest : cursor.rest = 'J' :: rest)
    (hargs : (untilEnd (templateArg l packs)).run (cursor.facing rest) =
      some (args, cursor.facing tail)) :
    (templateArg l (packs + 1)).run cursor =
      some (.name (Shape.renderAll args), cursor.facing tail) := by
  simp [templateArg, hrest, hargs]

def packs : (depth : Nat) → List Char
  | 0 => []
  | depth + 1 => 'J' :: (packs depth ++ ['E'])

theorem packs_succ_append (depth : Nat) (tail : List Char) :
    packs (depth + 1) ++ tail = 'J' :: (packs depth ++ 'E' :: tail) := by
  rw [packs, List.cons_append, List.append_assoc, List.singleton_append]

theorem length_packs (depth : Nat) : (packs depth).length = 2 * depth := by
  induction depth with
  | zero => rfl
  | succ depth ih =>
    simp only [packs, List.length_cons, List.length_append, List.length_nil, ih]
    omega

theorem run_templateArg_packs (l : Level) {depth room : Nat} (hroom : depth < room)
    (hrest : cursor.rest = packs (depth + 1) ++ tail) :
    (templateArg l room).run cursor = some (.name "", cursor.facing tail) := by
  induction depth generalizing room cursor tail with
  | zero =>
    obtain ⟨room, rfl⟩ : ∃ k, room = k + 1 := ⟨room - 1, by omega⟩
    exact run_templateArg_pack hrest (run_untilEnd_nil _ rfl)
  | succ depth ih =>
    obtain ⟨room, rfl⟩ : ∃ k, room = k + 1 := ⟨room - 1, by omega⟩
    have hinner : (untilEnd (templateArg l room)).run
        (cursor.facing (packs (depth + 1) ++ 'E' :: tail)) =
        some ([.name ""], cursor.facing tail) := by
      refine run_untilEnd_single (packs_succ_append depth _) (by decide) ?_ (ih (by omega) rfl)
      simp only [List.length_append, List.length_cons]
      omega
    rw [packs_succ_append] at hrest
    exact run_templateArg_pack hrest hinner

theorem run_readTemplateArgs_packs (l : Level) (depth : Nat)
    (hrest : cursor.rest = 'I' :: (packs depth ++ 'E' :: tail)) :
    ∃ args c, (readTemplateArgs l).run cursor = some (args, c) ∧ c.rest = tail ∧
      Shape.renderArgs args = "<>" := by
  obtain ⟨args, hargs, htext⟩ : ∃ args,
      (untilEnd (do templateArg l (← Scan.rest).length)).run
        { cursor with rest := packs depth ++ 'E' :: tail, inArgs := true } =
        some (args, { cursor with rest := tail, inArgs := true }) ∧
      Shape.renderArgs args = "<>" := by
    cases depth with
    | zero => exact ⟨[], run_untilEnd_nil _ rfl, rfl⟩
    | succ depth =>
      refine ⟨[.name ""], run_untilEnd_single (packs_succ_append depth _) (by decide) ?_ ?_, rfl⟩
      · simp only [List.length_append, List.length_cons]
        omega
      · rw [Scan.run_bind, run_rest, Option.bind_eq_bind, Option.bind_some]
        refine run_templateArg_packs l ?_ rfl
        rw [List.length_append, length_packs]
        omega
  refine ⟨args, { cursor with rest := tail, args := if cursor.inArgs then cursor.args else args },
    ?_, rfl, htext⟩
  rw [readTemplateArgs, Scan.run_bind, run_expect_eq hrest]
  change ((untilEnd _).run
    { cursor with rest := packs depth ++ 'E' :: tail, inArgs := true }).bind _ = _
  rw [hargs]
  rfl

end

/-- The symbol of a function template whose argument is packs one inside another. -/
def packed (depth : Nat) : String :=
  String.ofList ('_' :: 'Z' :: '1' :: 'f' :: 'I' :: (packs depth ++ ['E', 'v']))

/-- The symbol of a variable behind marks of internal linkage. -/
def marked (depth : Nat) : String :=
  String.ofList ('_' :: 'Z' :: (List.replicate depth 'L' ++ ['1', 'f']))

theorem run_component_f (l : Level) (rest : List Char) :
    (component l "").run { rest := '1' :: 'f' :: rest } = some (("f", false), { rest }) := by
  cases rest <;> rfl

theorem run_readName_template {l : Level} {rest : List Char} {args : List Shape} {c : Cursor}
    (hargs : l.templateArgs.run { rest := 'I' :: rest, named := #[.name "f"] } = some (args, c)) :
    (readName l).run { rest := '1' :: 'f' :: 'I' :: rest } =
      some ({ text := "f" ++ Shape.renderArgs args, isTemplate := true }, c) := by
  simp [readName, unscopedName, run_component_f, remember, hargs]

theorem run_readEncoding_void {l : Level} {cursor c : Cursor} {name : Name}
    (hhead : cursor.rest.head? = some '1') (hname : l.name.run cursor = some (name, c))
    (htype : l.type.run c = some (.name "void", c.facing [])) (hrest : c.rest = ['v'])
    (hkind : name.isTemplate = true ∧ name.isSpecial = false ∧ name.quals = []) :
    (readEncoding l).run cursor = some ("void " ++ name.text ++ "(" ++ ")", c.facing []) := by
  have hparams : (loop (argumentRound l) []).run (c.facing []) = some ([], c.facing []) :=
    run_loop .refl rfl
  simp [readEncoding, hhead, hname, hrest, atEnd, hkind, htype, hparams, Shape.render,
    Shape.renderParams, Shape.renderAll, Shape.isVoidList, qualifierText]

theorem run_readEncoding_variable {l : Level} {cursor c : Cursor} {name : Name}
    (hhead : cursor.rest.head? = some '1' ∨ cursor.rest.head? = some 'L')
    (hname : l.name.run cursor = some (name, c)) (hrest : c.rest = []) :
    (readEncoding l).run cursor = some (name.text, c) := by
  rcases hhead with hhead | hhead <;> simp [readEncoding, hhead, hname, hrest, atEnd]

theorem demangle_packed (depth : Nat) : demangle (packed depth) = some "void f<>()" := by
  -- the name is read on the level below the encoding, and its arguments below that
  obtain ⟨args, c, hargs, hrest, htext⟩ :
      ∃ args c, (Level.of 254).templateArgs.run
        { rest := 'I' :: (packs depth ++ ['E', 'v']), named := #[.name "f"] } = some (args, c) ∧
        c.rest = ['v'] ∧ Shape.renderArgs args = "<>" :=
    run_readTemplateArgs_packs (Level.of 253) depth rfl
  have hname : (Level.of 255).name.run _ = _ := run_readName_template hargs
  have htype : (readType (Level.of 254)).run c = some (.name "void", c.facing []) := by
    simp [readType, hrest, builtinAt?, builtin?]
  have hread : (Level.of maxNesting).encoding.run _ = _ :=
    run_readEncoding_void rfl hname htype hrest ⟨rfl, rfl, rfl⟩
  rw [htext] at hread
  exact demangle_eq_some_iff.2 ⟨_, _, _, "", String.toList_ofList, hread, rfl, rfl⟩

theorem run_component_mark (l : Level) (last : String) (cursor : Cursor) (rest : List Char) :
    (component l last).run (cursor.facing ('L' :: rest)) =
      (component l last).run (cursor.facing rest) := by
  simp [component, span]

theorem run_component_marks (l : Level) (last : String) (cursor : Cursor) (rest : List Char)
    (depth : Nat) :
    (component l last).run (cursor.facing (List.replicate depth 'L' ++ rest)) =
      (component l last).run (cursor.facing rest) := by
  induction depth with
  | zero => rfl
  | succ depth ih => rw [List.replicate_succ, List.cons_append, run_component_mark, ih]

theorem demangle_marked (depth : Nat) : demangle (marked depth) = some "f" := by
  have hcomponent : (component (Level.of 254) "").run
      { rest := List.replicate depth 'L' ++ ['1', 'f'] } = some (("f", false), { rest := [] }) :=
    (run_component_marks _ _ { rest := [] } _ _).trans (run_component_f _ _)
  have hname : (Level.of 255).name.run { rest := List.replicate depth 'L' ++ ['1', 'f'] } =
      some ({ text := "f" }, { rest := [] }) := by
    have hunscoped : (unscopedName (Level.of 254) "").run
        { rest := List.replicate depth 'L' ++ ['1', 'f'] } =
        some ({ text := "f" }, { rest := [] }) := by simp [unscopedName, hcomponent]
    rw [← hunscoped]
    cases depth <;> rfl
  have hhead : (List.replicate depth 'L' ++ ['1', 'f']).head? = some '1' ∨
      (List.replicate depth 'L' ++ ['1', 'f']).head? = some 'L' := by
    cases depth with
    | zero => exact .inl rfl
    | succ depth => exact .inr rfl
  have hread : (Level.of maxNesting).encoding.run _ = _ :=
    run_readEncoding_variable hhead hname rfl
  exact demangle_eq_some_iff.2 ⟨_, _, _, "", String.toList_ofList, hread, rfl, rfl⟩

/-- The bound on nesting rejects the symbols with more than `maxNesting` types, names, encodings and
template argument lists open at the same time, and no other symbol of the grammar. Argument packs
and marks of internal linkage do not count, so no bound holds for them. -/
theorem nesting_bound (symbol : String) (depth : Nat) :
    (demangle symbol = none ↔
      ¬ IsGrammatical symbol ∨ ∃ stack, OpenTogether symbol stack ∧ maxNesting < stack.length) ∧
    demangle (packed depth) = some "void f<>()" ∧ demangle (marked depth) = some "f" :=
  ⟨demangle_eq_none_iff symbol, demangle_packed depth, demangle_marked depth⟩

/-- Symbols with 300 packs or marks open at the same time are read. -/
theorem nesting_bound_exceeded :
    maxNesting < 300 ∧ demangle (packed 300) = some "void f<>()" ∧
      demangle (marked 300) = some "f" :=
  ⟨by decide, demangle_packed 300, demangle_marked 300⟩

end CallTargets.Symbol
