import CallTargets.Proofs.Symbol.SourceType
import CallTargets.Symbol.Demangle

/-!
# Mangled symbols are read back

`Prototype.mangle` spells a function, and `demangle` reads its symbol. The main statement,
`Prototype.demangle_mangle`, says that the symbol of a function is read as the function in words.
The reader meets the same places as the speller: it stands in front of the same text, and its
back-references point into the dictionary that has been built so far (`Spells`).
-/

namespace CallTargets.Symbol

open Relation Scan

variable {rest : List Char}

theorem atEnd_of_begins (hrest : Begins opensType rest) : atEnd rest = false := by
  obtain ⟨c, cs, rfl, hc⟩ := hrest
  rw [atEnd, Bool.or_eq_false_iff]
  refine ⟨?_, ?_⟩ <;>
  · refine decide_eq_false ?_
    rintro rfl
    exact absurd hc (by decide)

theorem run_argumentRound (l : Level) (d : Dictionary) (t : SourceType) (tail : List Char)
    (shapes : List Shape) :
    (argumentRound l shapes).run (d.cursor ((d.type t).1 ++ tail)) =
      (l.type.run (d.cursor ((d.type t).1 ++ tail))).map
        fun read => (.again (read.1 :: shapes), read.2) := by
  simp [argumentRound, atEnd_of_begins ((d.begins_type t).append tail), Option.map_eq_bind]

theorem run_arguments {l : Level} {ts : List SourceType} (hts : SpellsAll l ts) (d : Dictionary)
    (hfits : d.Fits (d.types ts).1) :
    (loop (argumentRound l) []).run (d.cursor (d.types ts).1) =
      some (SourceType.shapes ts, (d.types ts).2.cursor []) := by
  have hend : ([] : List Char).head? ≠ some 'I' := by simp
  have hrounds := rounds_types (run_argumentRound l) hts [] hend d [] (by rwa [List.append_nil])
  rw [List.append_nil] at hrounds
  exact run_loop hrounds (by simp [argumentRound, atEnd])

theorem renderParams_orVoid (ts : List SourceType) :
    Shape.renderParams (SourceType.shapes (orVoid ts)) =
      Shape.renderParams (SourceType.shapes ts) := by
  cases ts with
  | nil =>
    simp [orVoid, SourceType.shapes, SourceType.shape, Builtin.spelling, Shape.renderParams,
      Shape.isVoidList, Shape.renderAll]
  | cons t ts => rfl

theorem run_readEncoding {n : Nat} {name : Name} {code : List Char × Dictionary}
    (hname : Spells (readName (Level.of n)) name [] code) (hfirst : Begins opensName code.1)
    (htemplate : name.isTemplate = false) {params : List SourceType}
    (hproper : SourceType.areProper params = true) (hn : SourceType.depthAll params + 2 ≤ n + 1)
    (hsize : (code.1 ++ (code.2.params params).1).length < 2 ^ 63) :
    (readEncoding (Level.of (n + 1))).run
        (Dictionary.cursor [] (code.1 ++ (code.2.params params).1)) =
      some (name.text ++ "(" ++ Shape.renderParams (SourceType.shapes params) ++ ")" ++
        qualifierText name.quals, (code.2.params params).2.cursor []) := by
  have hgrows := hname.length_le
  have hparams := (spellsAll hproper hn).orVoid
  rw [Dictionary.params_eq] at hsize ⊢
  have hbegins := code.2.begins_types (orVoid_ne_nil params)
  have hfits : Dictionary.Fits [] (code.1 ++ (code.2.types (orVoid params)).1) := by
    simpa only [Dictionary.Fits, List.length_nil, Nat.zero_add] using hsize
  have hread := hname.run _ (hbegins.head_ne (by decide)) hfits
  have hloop := run_arguments hparams code.2 (hfits.of_le (by
    rw [List.length_append]
    omega))
  obtain ⟨c, cs, hcs, hc⟩ := hfirst.append (code.2.types (orVoid params)).1
  have hfunction : ¬ ((c = 'T' || c = 'G') = true) := by
    intro hspecial
    simp only [Bool.or_eq_true, decide_eq_true_eq] at hspecial
    rcases hspecial with rfl | rfl <;> exact absurd hc (by decide)
  change (Level.of (n + 1)).name.run _ = _ at hread
  rw [hcs] at hread ⊢
  simp only [readEncoding, Scan.run_bind, run_peek, Dictionary.rest_cursor, List.head?_cons,
    Option.bind_eq_bind, Option.bind_some, if_neg hfunction, hread, run_rest,
    atEnd_of_begins hbegins, Bool.false_eq_true, if_false, htemplate, Bool.false_and,
    Scan.run_pure, hloop, renderParams_orVoid]
  simp

theorem demangle_of_run {code : List Char} {text : String} {cursor : Cursor}
    (hread : (Level.of maxNesting).encoding.run { rest := code } = some (text, cursor))
    (hend : cursor.rest = []) : demangle (String.ofList ('_' :: 'Z' :: code)) = some text := by
  have hlead : Text.afterLead "_Z".toList ('_' :: 'Z' :: code) = some code :=
    Text.afterLead_self ['_', 'Z'] code
  unfold demangle
  simp only [String.toList_ofList, hlead, hread, Option.bind_eq_bind, Option.bind_some, hend,
    Option.pure_def]

/-- The symbol of a function is read back as the function in words: its path, its parameters
and its qualifiers. Around the types of the parameters the encoding is open, and inside them a class
and its name. The symbol is so short that the numbers in it have 63 bits. -/
theorem Prototype.demangle_mangle (f : Prototype)
    (hdepth : SourceType.depthAll f.params + 2 < maxNesting) (hsize : f.code.length < 2 ^ 63) :
    demangle f.mangle = some f.text := by
  have hread : (Level.of maxNesting).encoding.run { rest := f.code } = some (f.text, _) :=
    run_readEncoding (spells_functionName (Level.of 254) f.name) f.name.begins_code rfl f.proper
      (Nat.le_of_lt_succ hdepth) hsize
  exact demangle_of_run hread rfl

def Listen.net : ScopedName := .top ⟨"net".toList, by decide, by decide⟩

def Listen.socket : ScopedName := net.within ⟨"Socket".toList, by decide, by decide⟩

def Listen.handle : SourceType := .indirect .pointer (.qualified { const := true } (.named socket))

def Listen.handler : SourceType :=
  .indirect .pointer (.function (.builtin .void) [handle, .function (.named socket) []])

/-- A method whose parameters repeat each other and its class. -/
def listen : Prototype where
  name := .member Listen.socket ⟨"listen".toList, by decide, by decide⟩ { const := true } .lvalue
  params := [Listen.handle, Listen.handler, .indirect .lvalueRef (.named Listen.net),
    Listen.handler, .builtin .int]
  proper := by decide

theorem Prototype.demangle_mangle_listen :
    (SourceType.depthAll listen.params + 2 < maxNesting ∧ listen.code.length < 2 ^ 63) ∧
      listen.mangle = "_ZNKR3net6Socket6listenEPKS0_PFvS2_FS0_vEERS_S5_i" ∧
      demangle "_ZNKR3net6Socket6listenEPKS0_PFvS2_FS0_vEERS_S5_i" = some
        ("net::Socket::listen(net::Socket const*, void (*)(net::Socket const*, net::Socket ()), " ++
          "net&, void (*)(net::Socket const*, net::Socket ()), int) const &") := by
  have hdepth : SourceType.depthAll listen.params + 2 < maxNesting := by decide +kernel
  have hsize : listen.code.length < 2 ^ 63 := by decide +kernel
  have hmangle : listen.mangle = "_ZNKR3net6Socket6listenEPKS0_PFvS2_FS0_vEERS_S5_i" := by
    decide +kernel
  refine ⟨⟨hdepth, hsize⟩, hmangle, ?_⟩
  rw [← hmangle, Prototype.demangle_mangle listen hdepth hsize]
  decide +kernel

end CallTargets.Symbol
