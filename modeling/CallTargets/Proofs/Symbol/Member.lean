import Mathlib.Data.List.Basic
import CallTargets.Proofs.Symbol.RoundTrip

/-!
# Members are read back

A member of a class is a function with a name of its own, an operator, a constructor or a
destructor. Its symbol spells the path of the class and then the member; constructors and
destructors have no name and are printed with the last component of the path. The main statement,
`Member.demangle_symbol`, says that the symbol of a member is read as its path, its name and its
parameters. It follows the rounds of `nestedName`: those of the path are those of any name, and
`Member.run_nestedRound` is the last one.
-/

namespace CallTargets.Symbol

open Relation Scan

variable {l : Level} {cursor : Cursor} {tail : List Char} {c : Char}

/-! ## Members -/

/-- The constructors of a class: for whole objects, for the part of an object that is a base, and
for whole objects that they allocate. -/
inductive ConstructorKind where
  | complete
  | base
  | allocating

def ConstructorKind.digit : ConstructorKind → Char
  | complete => '1'
  | base => '2'
  | allocating => '3'

/-- The destructors of a class: for whole objects that they deallocate, for whole objects, and for
the part of an object that is a base. -/
inductive DestructorKind where
  | deleting
  | complete
  | base

def DestructorKind.digit : DestructorKind → Char
  | deleting => '0'
  | complete => '1'
  | base => '2'

structure Operator where
  code : List Char
  sign : String
  known : operator? code = some sign

inductive Member where
  | plain (x : Identifier)
  | operator (op : Operator)
  | constructor (kind : ConstructorKind)
  | destructor (kind : DestructorKind)

/-- The components of a path one after another. -/
def ScopedName.code : ScopedName → List Char
  | top x => x.code
  | within outer x => outer.code ++ x.code

theorem Dictionary.scope_nil (s : ScopedName) : (Dictionary.scope [] s).1 = s.code := by
  induction s with
  | top x => rfl
  | within outer x ih => exact congrArg (· ++ x.code) ih

namespace Member

def code : Member → List Char
  | plain x => x.code
  | operator op => op.code
  | constructor kind => ['C', kind.digit]
  | destructor kind => ['D', kind.digit]

def text (owner : Identifier) : Member → String
  | plain x => x.text
  | operator op => operatorText op.sign
  | constructor _ => owner.text
  | destructor _ => "~" ++ owner.text

/-- A constructor or destructor has no name of its own. -/
def isSpecial : Member → Bool
  | plain _ | operator _ => false
  | constructor _ | destructor _ => true

end Member

/-! ### Operators -/

/-- The codes of operators have two letters, the first one a small letter. Conversions and literal
suffixes have other codes. -/
theorem operators_codes : operators.all (fun e =>
    e.1.toList.length = 2 && e.1.toList.head?.any Char.isLower &&
      e.1.toList ≠ ['c', 'v'] && e.1.toList ≠ ['l', 'i']) = true := by
  decide +kernel

namespace Operator

variable (op : Operator)

theorem mem_operators : ∃ e ∈ operators, e.1.toList = op.code ∧ e.2 = op.sign := by
  obtain ⟨e, he, hsign⟩ := Option.map_eq_some_iff.1 op.known
  have hcode := List.find?_some he
  exact ⟨e, List.mem_of_find?_eq_some he, of_decide_eq_true hcode, hsign⟩

theorem exists_code_eq : ∃ c d, op.code = [c, d] ∧ c.isLower = true ∧
    [c, d] ≠ ['c', 'v'] ∧ [c, d] ≠ ['l', 'i'] := by
  obtain ⟨e, he, hcode, -⟩ := op.mem_operators
  have hletters := List.all_eq_true.1 operators_codes e he
  rw [hcode] at hletters
  simp only [Bool.and_eq_true, decide_eq_true_eq] at hletters
  obtain ⟨⟨⟨hlength, hlower⟩, hconversion⟩, hsuffix⟩ := hletters
  obtain ⟨c, d, hcd⟩ := List.length_eq_two.1 hlength
  rw [hcd] at hlower hconversion hsuffix
  exact ⟨c, d, hcd, hlower, hconversion, hsuffix⟩

theorem run_operatorName (hrest : cursor.rest = op.code ++ tail) :
    (operatorName l).run cursor = some ((operatorText op.sign, false), cursor.facing tail) := by
  obtain ⟨c, d, hcode, -, hconversion, hsuffix⟩ := op.exists_code_eq
  have hknown := op.known
  rw [hcode] at hrest hknown
  unfold operatorName
  simp only [Scan.run_bind, run_rest, hrest, List.cons_append, List.nil_append,
    Option.bind_eq_bind, Option.bind_some]
  split
  · rename_i heq
    cases heq
    exact absurd rfl hconversion
  · rename_i heq
    cases heq
    exact absurd rfl hsuffix
  · rename_i heq
    cases heq
    rw [hknown]
    simp [hrest]
  · rename_i hnot
    exact absurd rfl (hnot c d tail)

end Operator

/-! ### Readers -/

theorem ne_angle {cs : List Char} (h : '<' ∉ cs) : ∀ c ∈ cs, decide (c ≠ '<') = true := by
  intro c hc
  refine decide_eq_true ?_
  rintro rfl
  exact h hc

theorem takeWhile_of_notMem {cs : List Char} (h : '<' ∉ cs) : cs.takeWhile (· ≠ '<') = cs := by
  have htake : (cs ++ []).takeWhile (· ≠ '<') = cs ++ [] :=
    List.takeWhile_append_of_pos (ne_angle h)
  rwa [List.append_nil] at htake

theorem withoutArgs_eq_self {text : String} (h : '<' ∉ text.toList) : withoutArgs text = text := by
  rw [withoutArgs, takeWhile_of_notMem h, String.ofList_toList]

theorem Identifier.withoutArgs_text (x : Identifier) : withoutArgs x.text = x.text := by
  refine withoutArgs_eq_self ?_
  rw [Identifier.text, String.toList_ofList]
  exact x.notMem (by decide)

namespace Member

/-- The letters that the code of a member begins with. -/
def opensMember (c : Char) : Bool := c.isDigit || c.isLower || c = 'C' || c = 'D'

theorem begins_code (m : Member) : Begins opensMember m.code := by
  cases m with
  | plain x => exact x.begins_code.mono fun c hc => by simp [opensMember, hc]
  | operator op =>
    obtain ⟨c, d, hcode, hlower, -⟩ := op.exists_code_eq
    exact ⟨c, [d], hcode, by simp [opensMember, hlower]⟩
  | constructor kind => exact ⟨'C', _, rfl, rfl⟩
  | destructor kind => exact ⟨'D', _, rfl, rfl⟩

theorem run_component (m : Member) (owner : Identifier) (hsize : m.code.length < 2 ^ 63)
    (hrest : cursor.rest = m.code ++ tail) :
    (component l owner.text).run cursor =
      some ((m.text owner, m.isSpecial), cursor.facing tail) := by
  cases m with
  | plain x =>
    have hlength : x.chars.length < 2 ^ 63 := Nat.lt_trans x.length_lt_code hsize
    rw [Symbol.run_component l owner.text x hrest, if_pos hlength]
    rfl
  | operator op =>
    have hread := op.run_operatorName (l := l) hrest
    obtain ⟨c, d, hcode, hlower, -⟩ := op.exists_code_eq
    rw [code, hcode] at hrest
    have hmark : c ≠ 'L' := by
      rintro rfl
      exact absurd hlower (by decide)
    have hdigit : c.isDigit = false := by
      refine isDigit_of_isAlpha ?_
      rw [show c.isAlpha = (c.isUpper || c.isLower) from rfl, hlower]
      simp
    have hspan := run_span_of_head (p := (· = 'L')) (decide_eq_false hmark) hrest
    unfold component
    simp only [List.cons_append, List.nil_append] at hrest
    simp only [Scan.run_bind, hspan, run_rest, hrest, Option.bind_eq_bind, Option.bind_some]
    split
    case h_5 heq =>
      cases heq
      rw [hdigit]
      exact hread
    case h_6 heq => cases heq
    all_goals
      rename_i heq
      rw [(List.cons.inj heq).1] at hlower
      exact absurd hlower (by decide)
  | constructor kind =>
    have hI : (cursor.facing (kind.digit :: tail)).rest.head? ≠ some 'I' := by
      cases kind <;> simp [ConstructorKind.digit]
    have hdigit : '1' ≤ kind.digit ∧ kind.digit ≤ '5' := by cases kind <;> decide
    simp [component, span, hrest, code, run_accept_of_head?_ne hI, hdigit, text, isSpecial,
      Identifier.withoutArgs_text]
  | destructor kind =>
    cases kind <;>
      simp [component, span, hrest, code, DestructorKind.digit, text, isSpecial,
        Identifier.withoutArgs_text]

theorem run_nestedRound (m : Member) (owner : Identifier) {path : Path}
    (hscope : path.text.isEmpty = false) (hlast : path.last = owner.text)
    (hsize : m.code.length < 2 ^ 63) (hrest : cursor.rest = m.code ++ 'E' :: tail) :
    (nestedRound l path).run cursor =
      some (.again { text := path.text ++ "::" ++ m.text owner
                     last := if m.isSpecial then owner.text else m.text owner
                     isSpecial := m.isSpecial }, cursor.facing ('E' :: tail)) := by
  have hread := m.run_component (l := l) owner hsize hrest
  obtain ⟨c, cs, hcs, hc⟩ := m.begins_code.append ('E' :: tail)
  rw [hcs] at hrest
  have hE : cursor.rest.head? ≠ some 'E' := by
    rw [hrest]
    rintro heq
    cases heq
    exact absurd hc (by decide)
  have hstep : (pathStep l path).run cursor =
      some ({ text := path.text ++ "::" ++ m.text owner
              last := if m.isSpecial then owner.text else m.text owner
              isSpecial := m.isSpecial }, cursor.facing ('E' :: tail)) := by
    unfold pathStep
    simp only [Scan.run_bind, run_peek, hrest, List.head?_cons, Option.bind_eq_bind,
      Option.bind_some]
    split
    case h_3 => simp [hlast, hread, hscope]
    all_goals
      rename_i heq
      rw [Option.some.inj heq] at hc
      exact absurd hc (by decide)
  unfold nestedRound
  simp only [Scan.run_bind, run_accept_of_head?_ne hE, run_rest, hrest, Option.bind_eq_bind,
    Option.bind_some, Bool.false_eq_true, if_false]
  split
  case h_3 => simp [hstep]
  all_goals
    rename_i heq
    rw [(List.cons.inj heq).1] at hc
    exact absurd hc (by decide)

/-- The symbol of a member function behind its mark: its scope component by component, its own
code, and the parameters, which can refer back to the scope. -/
def symbolCode (s : ScopedName) (m : Member) (params : List SourceType) : List Char :=
  'N' :: s.code ++ m.code ++ ['E'] ++ ((Dictionary.scope [] s).2.params params).1

def symbol (s : ScopedName) (m : Member) (params : List SourceType) : String :=
  String.ofList ('_' :: 'Z' :: m.symbolCode s params)

theorem spells_name (l : Level) (s : ScopedName) (m : Member) :
    Spells (readName l) { text := s.text ++ "::" ++ m.text s.last, isSpecial := m.isSpecial } []
      ('N' :: s.code ++ m.code ++ ['E'], (Dictionary.scope [] s).2) := by
  have hgrows := Dictionary.length_scope [] s
  rw [← Dictionary.scope_nil]
  refine ⟨?_, fun tail _ hfits => ?_⟩
  · simp only [List.length_append, List.length_cons]
    omega
  · have hsize : m.code.length < 2 ^ 63 := by
      simp only [Dictionary.Fits, List.length_append, List.length_cons] at hfits
      omega
    have hscope : s.text.isEmpty = false := by simpa using s.text_ne_empty
    have hround : (nestedRound l { text := s.text, last := s.last.text }).run
        ((Dictionary.scope [] s).2.cursor (m.code ++ 'E' :: tail)) = _ :=
      m.run_nestedRound s.last hscope rfl hsize rfl
    have hlength : ('E' :: tail).length < (m.code ++ 'E' :: tail).length := by
      obtain ⟨c, cs, hcs, -⟩ := m.begins_code
      simp only [hcs, List.length_append, List.length_cons]
      omega
    have hread := run_nestedName l [] {} .none s
      ((m.begins_code.append ('E' :: tail)).head_ne (by decide)) ⟨hround, hlength⟩ (by
        simp only [Dictionary.Fits, List.length_append, List.length_cons] at hfits ⊢
        omega)
    simpa [readName, Cv.code, Cv.qualifiers, RefQualifier.code, RefQualifier.qualifiers] using hread

theorem demangle_symbol (s : ScopedName) (m : Member) {params : List SourceType}
    (hproper : SourceType.areProper params = true)
    (hdepth : SourceType.depthAll params + 2 < maxNesting)
    (hsize : (m.symbolCode s params).length < 2 ^ 63) :
    demangle (m.symbol s params) = some (s.text ++ "::" ++ m.text s.last ++ "(" ++
      Shape.renderParams (SourceType.shapes params) ++ ")") := by
  have hread := run_readEncoding (spells_name (Level.of 254) s m) ⟨'N', _, rfl, rfl⟩ rfl hproper
    (Nat.le_of_lt_succ hdepth) hsize
  have hquals : qualifierText [] = "" := rfl
  rw [hquals, String.append_empty] at hread
  exact demangle_of_run hread rfl

end Member

end CallTargets.Symbol
