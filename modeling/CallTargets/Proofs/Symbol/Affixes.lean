import CallTargets.Proofs.Symbol.Constructs
import CallTargets.Proofs.Symbol.Yields

/-!
# Thunks and clones

Compilers derive symbols from others. The symbol of a thunk has the adjustment that the thunk makes
in front of its target, and is printed as a label and the target (`demangle_thunk`): reading the
target behind the adjustment is reading it as a symbol of its own with one construct more open. The
symbol of a clone has a suffix behind a dot, which is printed in brackets (`demangle_clone`).
-/

namespace CallTargets.Symbol

open Scan

/-- The printed form of what stands behind a symbol. -/
def appendixNote : List Char → Option String
  | [] => some ""
  | '.' :: suffix => some (" [clone ." ++ String.ofList suffix ++ "]")
  | _ => none

theorem demangle_eq (symbol : String) :
    demangle symbol = (Text.afterLead "_Z".toList symbol.toList).bind fun mangled =>
      ((Level.of maxNesting).encoding.run { rest := mangled }).bind fun read =>
        (appendixNote read.2.rest).map (read.1 ++ ·) := by
  refine bind_congr fun mangled => bind_congr fun read => ?_
  obtain ⟨printed, c⟩ := read
  dsimp only
  generalize c.rest = rest
  rcases rest with _ | ⟨x, suffix⟩
  · simp [appendixNote]
  · by_cases hx : x = '.'
    · subst hx
      simp [appendixNote, String.append_assoc]
    · simp [appendixNote, hx]

theorem demangle_eq_some_iff {symbol text : String} :
    demangle symbol = some text ↔ ∃ mangled printed c note,
      symbol.toList = '_' :: 'Z' :: mangled ∧
      (Level.of maxNesting).encoding.run { rest := mangled } = some (printed, c) ∧
      appendixNote c.rest = some note ∧ text = printed ++ note := by
  rw [demangle_eq]
  constructor
  · intro h
    obtain ⟨mangled, hlead, h⟩ := Option.bind_eq_some_iff.1 h
    obtain ⟨⟨printed, c⟩, hread, h⟩ := Option.bind_eq_some_iff.1 h
    obtain ⟨note, hnote, htext⟩ := Option.map_eq_some_iff.1 h
    exact ⟨mangled, printed, c, note, Text.afterLead_eq_some_iff.1 hlead, hread, hnote, htext.symm⟩
  · rintro ⟨mangled, printed, c, note, hsymbol, hread, hnote, rfl⟩
    have hlead : Text.afterLead "_Z".toList symbol.toList = some mangled :=
      Text.afterLead_eq_some_iff.2 hsymbol
    rw [hlead, Option.bind_some, hread, Option.bind_some, hnote]
    rfl

/-! ## Clones -/

/-- A symbol with a suffix behind a dot is printed as the symbol with the suffix in brackets. -/
theorem demangle_clone {symbol text : String} (hdot : '.' ∉ symbol.toList)
    (h : demangle symbol = some text) (suffix : String) :
    demangle (symbol ++ "." ++ suffix) = some (text ++ " [clone ." ++ suffix ++ "]") := by
  obtain ⟨mangled, printed, c, note, hsymbol, hread, hnote, rfl⟩ := demangle_eq_some_iff.1 h
  have hmoved : c.rest <:+ mangled := ((Level.all_progresses _).read .encoding _ printed c hread).1
  have hend : c.rest = [] ∧ note = "" := by
    unfold appendixNote at hnote
    split at hnote
    · rename_i hrest
      cases hnote
      exact ⟨hrest, rfl⟩
    · rename_i hrest
      have hmem : '.' ∈ mangled := hmoved.subset (hrest ▸ List.mem_cons_self)
      exact absurd (hsymbol ▸ List.mem_cons_of_mem _ (List.mem_cons_of_mem _ hmem)) hdot
    · cases hnote
  have hsuffix : IsAppendix ('.' :: suffix.toList) := by
    intro c hc
    cases hc
    rfl
  have hlonger := Level.of_carries (le_refl maxNesting) hsuffix ⟨.encoding, _⟩ printed c hread
  refine demangle_eq_some_iff.2 ⟨mangled ++ '.' :: suffix.toList, printed, _,
    " [clone ." ++ suffix ++ "]", ?_, hlonger, ?_, ?_⟩
  · simp [hsymbol]
  · rw [Cursor.rest_extend, hend.1, List.nil_append, appendixNote, String.ofList_toList]
  · rw [hend.2]
    simp [String.append_assoc]

/-- The last thing read is a number that may be missing. -/
theorem demangle_clone_local :
    ('.' ∉ "_ZZ4mainvE5count_1".toList ∧ demangle "_ZZ4mainvE5count_1" = some "main()::count") ∧
      demangle "_ZZ4mainvE5count_1.llvm.7" = some "main()::count [clone .llvm.7]" := by
  have hdot : '.' ∉ "_ZZ4mainvE5count_1".toList := by decide
  have hread : demangle "_ZZ4mainvE5count_1" = some "main()::count" := by decide +kernel
  exact ⟨⟨hdot, hread⟩, demangle_clone hdot hread "llvm.7"⟩

/-! ## Thunks -/

/-- A number in a symbol: decimal digits, and a letter before them if it is negative. -/
structure Numeral where
  negative : Bool
  digits : List Char
  ne_nil : digits ≠ []
  isDigit : ∀ c ∈ digits, c.isDigit = true

def Numeral.code (n : Numeral) : List Char := (if n.negative then ['n'] else []) ++ n.digits

/-- The adjustment that a thunk makes: a fixed offset, or one from a slot of the vtable on top of a
fixed one. -/
inductive CallOffset where
  | fixed (offset : Numeral)
  | virtual (offset slot : Numeral)

namespace CallOffset

/-- The spelling of an adjustment. -/
def code : CallOffset → List Char
  | fixed offset => 'h' :: (offset.code ++ ['_'])
  | virtual offset slot => 'v' :: (offset.code ++ '_' :: (slot.code ++ ['_']))

def kind : CallOffset → ThunkKind
  | fixed _ => .nonVirtual
  | virtual _ _ => .virtual

end CallOffset

/-- What is printed before the target of a thunk. -/
def ThunkKind.label : ThunkKind → String
  | virtual => "virtual thunk to "
  | nonVirtual => "non-virtual thunk to "

section

variable {cursor : Cursor} {tail : List Char}

theorem Numeral.yields_number (n : Numeral) (hrest : cursor.rest = n.code ++ '_' :: tail) :
    Yields number cursor fun _ cursor' => cursor' = cursor.facing ('_' :: tail) := by
  have hdigits (negative : Bool) : Yields (do
      let digits ← span Char.isDigit
      numberOf negative digits) (cursor.facing (n.digits ++ '_' :: tail))
      fun _ cursor' => cursor' = cursor.facing ('_' :: tail) := by
    exact Yields.step (run_span_append n.isDigit (by decide) rfl) (Yields.lift fun _ _ => rfl)
  rw [Numeral.code] at hrest
  rw [number_eq]
  cases hsign : n.negative with
  | true =>
    rw [hsign] at hrest
    exact Yields.step (run_accept_eq hrest) (hdigits true)
  | false =>
    rw [hsign] at hrest
    obtain ⟨d, ds, hds⟩ := List.exists_cons_of_ne_nil n.ne_nil
    have hfirst : cursor.rest.head? ≠ some 'n' := by
      have hd := n.isDigit d (hds ▸ List.mem_cons_self)
      rw [hrest, hds]
      rintro heq
      cases heq
      exact absurd hd (by decide)
    refine Yields.step (run_accept_of_head?_ne hfirst) ?_
    rw [← Cursor.facing_eq hrest]
    exact hdigits false

theorem Numeral.yields_offset (n : Numeral) (hrest : cursor.rest = n.code ++ '_' :: tail) :
    Yields (do let _ ← number; expect '_') cursor
      fun _ cursor' => cursor' = cursor.facing tail := by
  refine Yields.bind ((n.yields_number hrest).mono fun _ cursor' hcursor => ?_)
  subst hcursor
  exact Yields.of_run (run_expect_eq rfl) rfl

theorem CallOffset.yields_callOffset (o : CallOffset) (hrest : cursor.rest = o.code ++ tail) :
    Yields callOffset cursor fun _ cursor' => cursor' = cursor.facing tail := by
  cases o with
  | fixed offset =>
    have hnext : cursor.rest = 'h' :: (offset.code ++ '_' :: tail) := by simpa [code] using hrest
    refine Yields.step (run_accept_eq hnext) ?_
    exact offset.yields_offset rfl
  | virtual offset slot =>
    have hnext : cursor.rest = 'v' :: (offset.code ++ '_' :: (slot.code ++ '_' :: tail)) := by
      simpa [code] using hrest
    have hfixed : cursor.rest.head? ≠ some 'h' := by simp [hnext]
    refine Yields.step (run_accept_of_head?_ne hfixed) (Yields.step (run_expect_eq hnext) ?_)
    refine Yields.bind ((offset.yields_number rfl).mono fun _ cursor' hcursor => ?_)
    subst hcursor
    exact Yields.step (run_expect_eq rfl) (slot.yields_offset rfl)

end

theorem CallOffset.readEncoding_eq_some (o : CallOffset) {l : Level} {target : List Char}
    {printed : String} {c : Cursor}
    (h : (readEncoding l).run { rest := 'T' :: (o.code ++ target) } = some (printed, c)) :
    ∃ inner, l.encoding.run { rest := target } = some (inner, c) ∧
      printed = o.kind.label ++ inner := by
  have hspecial : (readEncoding l).run { rest := 'T' :: (o.code ++ target) } = (do
      callOffset
      return o.kind.label ++ (← l.encoding)).run { rest := o.code ++ target } := by
    cases o <;> rfl
  rw [hspecial] at h
  have hyields : Yields (do callOffset; return o.kind.label ++ (← l.encoding))
      { rest := o.code ++ target } fun printed c =>
        ∃ inner, l.encoding.run { rest := target } = some (inner, c) ∧
          printed = o.kind.label ++ inner := by
    refine Yields.bind ((o.yields_callOffset rfl).mono fun _ cursor hcursor => ?_)
    subst hcursor
    refine Yields.bind fun inner c hinner => Yields.pure ?_
    exact ⟨inner, hinner, rfl⟩
  exact hyields printed c h

namespace Method

variable {text : String}

theorem parts_eq (thunk : Option ThunkKind) (text : String) :
    parts thunk text = { parts none text with thunk } := by
  unfold parts
  dsimp only
  generalize scopeParts _ = found
  cases found <;> rfl

theorem labelled_label (kind : ThunkKind) (text : String) :
    labelled (kind.label ++ text) = (some kind, text) := by
  have hdrop : Text.dropLead? (kind.label ++ text) kind.label = some text := by
    rw [Text.dropLead?, String.toList_append, Text.afterLead_self, Option.map_some,
      String.ofList_toList]
  cases kind with
  | nonVirtual =>
    rw [ThunkKind.label] at hdrop ⊢
    rw [labelled, hdrop]
  | virtual =>
    have hfixed :
        Text.dropLead? (ThunkKind.virtual.label ++ text) "non-virtual thunk to " = none := by
      rw [Text.dropLead?, String.toList_append]
      rfl
    rw [ThunkKind.label] at hdrop hfixed ⊢
    rw [labelled, hdrop, hfixed]

theorem ofPrinted_label (kind : ThunkKind) (h : (ofPrinted text).thunk = none) :
    ofPrinted (kind.label ++ text) = { ofPrinted text with thunk := some kind } := by
  have hlabel : (labelled text).1 = none := by
    rwa [ofPrinted, parts_eq] at h
  have hplain : labelled text = (none, text) := by
    unfold labelled at hlabel ⊢
    split at hlabel
    · cases hlabel
    · cases hlabel
    · rfl
  rw [ofPrinted, labelled_label, ofPrinted, hplain, parts_eq]

end Method

/-- The symbol of a thunk is printed as its label and its target, and if the target is no thunk
itself, the thunk is taken apart as its target. -/
theorem demangle_thunk (o : CallOffset) (target : String) {text : String}
    (h : demangle (String.ofList ('_' :: 'Z' :: 'T' :: o.code) ++ target) = some text) :
    ∃ inner, demangle ("_Z" ++ target) = some inner ∧ text = o.kind.label ++ inner ∧
      ∀ m, Method.ofSymbol? ("_Z" ++ target) = some m → m.thunk = none →
        Method.ofSymbol? (String.ofList ('_' :: 'Z' :: 'T' :: o.code) ++ target) =
          some { m with thunk := some o.kind } := by
  obtain ⟨mangled, printed, c, note, hsymbol, hread, hnote, rfl⟩ := demangle_eq_some_iff.1 h
  have hmangled : mangled = 'T' :: (o.code ++ target.toList) := by simpa using hsymbol.symm
  subst hmangled
  obtain ⟨inner, hinner, rfl⟩ := o.readEncoding_eq_some (l := Level.of 255) hread
  have htarget : demangle ("_Z" ++ target) = some (inner ++ note) := by
    have hmore := Level.of_mono (Nat.le_succ 255) ⟨.encoding, _⟩ _ hinner
    exact demangle_eq_some_iff.2 ⟨target.toList, inner, c, note, by simp, hmore, hnote, rfl⟩
  refine ⟨inner ++ note, htarget, String.append_assoc, fun m hm hthunk => ?_⟩
  rw [Method.ofSymbol?, htarget, Option.map_some, Option.some.injEq] at hm
  subst hm
  rw [Method.ofSymbol?, h, Option.map_some, String.append_assoc, Method.ofPrinted_label _ hthunk]

def closeOffset : CallOffset :=
  .virtual ⟨true, ['2', '4'], by decide, List.all_eq_true.1 rfl⟩
    ⟨true, ['3', '2'], by decide, List.all_eq_true.1 rfl⟩

/-- A thunk whose target refers back to a part of its own. -/
theorem demangle_thunk_close :
    demangle "_ZTvn24_n32_N3netI6SocketE5closeERKS0_" =
        some "virtual thunk to net<Socket>::close(Socket const&)" ∧
      demangle "_ZN3netI6SocketE5closeERKS0_" = some "net<Socket>::close(Socket const&)" ∧
      Method.ofSymbol? "_ZTvn24_n32_N3netI6SocketE5closeERKS0_" =
        some { owner := "net<Socket>", name := "close", thunk := some .virtual } := by
  have hsymbol : String.ofList ('_' :: 'Z' :: 'T' :: closeOffset.code) ++
      "N3netI6SocketE5closeERKS0_" = "_ZTvn24_n32_N3netI6SocketE5closeERKS0_" := rfl
  have hread : demangle "_ZTvn24_n32_N3netI6SocketE5closeERKS0_" =
      some "virtual thunk to net<Socket>::close(Socket const&)" := by decide +kernel
  rw [← hsymbol] at hread
  obtain ⟨inner, hinner, htext, hparts⟩ := demangle_thunk closeOffset _ hread
  have hmethod : Method.ofSymbol? ("_Z" ++ "N3netI6SocketE5closeERKS0_") =
    some { owner := "net<Socket>", name := "close", thunk := none } := by decide +kernel
  have hthunk := hparts _ hmethod rfl
  have hlabel : "virtual thunk to net<Socket>::close(Socket const&)" =
      closeOffset.kind.label ++ "net<Socket>::close(Socket const&)" := rfl
  rw [hlabel, String.append_right_inj] at htext
  subst htext
  rw [hsymbol] at hread hthunk
  exact ⟨hread, hinner, hthunk⟩

end CallTargets.Symbol
