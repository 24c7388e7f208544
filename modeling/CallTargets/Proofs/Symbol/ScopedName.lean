import CallTargets.Proofs.Symbol.Spelling

/-!
# Names are read back

A name is a path of components. `nestedName` reads it round by round, and every round takes one
component or a back-reference to several. What the rounds remember is what spelling the name adds to
the dictionary, in the same order. The main statements say that `readName` reads the spelling of a
path (`spells_path`) and of the name of a function with its qualifiers (`spells_functionName`).
-/

namespace CallTargets.Symbol

open Relation Scan

variable {l : Level} {d d' : Dictionary} {rest tail : List Char} {c : Char}

/-- All numbers in a text of which some has been read fit into 63 bits. -/
def Dictionary.Fits (d : Dictionary) (rest : List Char) : Prop := d.length + rest.length < 2 ^ 63

theorem Dictionary.Fits.of_le (h : d.Fits rest)
    (hle : d'.length + tail.length ≤ d.length + rest.length) : d'.Fits tail :=
  Nat.lt_of_le_of_lt hle h

/-- What is spelled by `code` is read as `a` wherever no template arguments follow, and reading
it leads to the dictionary that spelling it leads to. -/
structure Spells {α : Type} (read : Scan α) (a : α) (d : Dictionary)
    (code : List Char × Dictionary) : Prop where
  length_le : code.2.length ≤ d.length + code.1.length
  run : ∀ tail : List Char, tail.head? ≠ some 'I' → d.Fits (code.1 ++ tail) →
    read.run (d.cursor (code.1 ++ tail)) = some (a, code.2.cursor tail)

def Begins (p : Char → Bool) (cs : List Char) : Prop := ∃ c cs', cs = c :: cs' ∧ p c = true

namespace Begins

variable {p q : Char → Bool} {cs : List Char}

theorem append (h : Begins p cs) (tail : List Char) : Begins p (cs ++ tail) := by
  obtain ⟨c, cs', rfl, hc⟩ := h
  exact ⟨c, cs' ++ tail, rfl, hc⟩

theorem mono (h : Begins p cs) (hpq : ∀ c, p c = true → q c = true) : Begins q cs := by
  obtain ⟨c, cs', rfl, hc⟩ := h
  exact ⟨c, cs', rfl, hpq c hc⟩

theorem avoid (h : Begins p cs) {b : List Char} (hb : b.any p = false) :
    Begins (fun c => c ∉ b) cs := by
  refine h.mono fun c hc => decide_eq_true fun hmem => ?_
  rw [List.any_eq_false] at hb
  exact hb c hmem hc

theorem head_ne (h : Begins p cs) (hc : p c = false) : cs.head? ≠ some c := by
  obtain ⟨c', cs', rfl, hc'⟩ := h
  intro heq
  rw [Option.some.inj heq, hc] at hc'
  cases hc'

end Begins

/-! ## Components of names -/

theorem Identifier.begins_code (x : Identifier) : Begins Char.isDigit x.code := by
  obtain ⟨c, cs, hcs⟩ := List.exists_cons_of_ne_nil (@Nat.toDigits_ne_nil x.chars.length 10)
  have hc : c ∈ Nat.toDigits 10 x.chars.length := hcs ▸ List.mem_cons_self
  refine ⟨c, cs ++ x.chars, ?_, Nat.isDigit_of_mem_toDigits (by decide) (by decide) hc⟩
  rw [Identifier.code, hcs]
  rfl

theorem Identifier.length_lt_code (x : Identifier) : x.chars.length < x.code.length := by
  have hpos := List.length_pos_iff.2 (@Nat.toDigits_ne_nil x.chars.length 10)
  rw [Identifier.code, List.length_append]
  omega

theorem Dictionary.Fits.length_lt (h : d.Fits rest) {x : Identifier}
    (hx : x.code.length ≤ rest.length) : x.chars.length < 2 ^ 63 := by
  have := x.length_lt_code
  unfold Dictionary.Fits at h
  omega

theorem Identifier.text_ne_empty (x : Identifier) : x.text ≠ "" := by
  intro htext
  have hwell := x.wellFormed
  rw [Identifier.text, String.ofList_eq_empty_iff] at htext
  rw [htext] at hwell
  cases hwell

theorem ScopedName.text_ne_empty (s : ScopedName) : s.text ≠ "" := by
  cases s with
  | top x => exact x.text_ne_empty
  | within scope x => simp [ScopedName.text]

theorem run_component (l : Level) (last : String) (x : Identifier) {cursor : Cursor}
    (hrest : cursor.rest = x.code ++ tail) :
    (component l last).run cursor =
      if x.chars.length < 2 ^ 63 then some ((x.text, false), cursor.facing tail) else none := by
  have hread := run_identifier x hrest
  obtain ⟨c, cs, hcs, hc⟩ := x.begins_code
  rw [hcs, List.cons_append] at hrest
  have hmark : c ≠ 'L' := by
    rintro rfl
    exact absurd hc (by decide)
  have hspan := run_span_of_head (p := (· = 'L')) (decide_eq_false hmark) hrest
  unfold component
  simp only [Scan.run_bind, hspan, run_rest, hrest, Option.bind_eq_bind, Option.bind_some]
  split
  case h_5 heq =>
    cases heq
    rw [if_pos hc, Scan.run_bind, hread]
    split <;> rfl
  case h_6 heq => cases heq
  all_goals
    rename_i heq
    rw [(List.cons.inj heq).1] at hc
    exact absurd hc (by decide)

/-! ## Nested names -/

def Path.extend (path : Path) (x : Identifier) : Path where
  text := if path.text.isEmpty then x.text else path.text ++ "::" ++ x.text
  last := x.text

theorem extend_text (s : ScopedName) (last : String) (x : Identifier) :
    Path.extend { text := s.text, last } x = { text := (s.within x).text, last := x.text } := by
  simp [Path.extend, s.text_ne_empty, ScopedName.text]

theorem run_step (l : Level) (path : Path) (x : Identifier) {cursor : Cursor}
    (hrest : cursor.rest = x.code ++ tail) :
    (pathStep l path).run cursor =
      if x.chars.length < 2 ^ 63 then some (path.extend x, cursor.facing tail) else none := by
  have hread := run_component l path.last x hrest
  obtain ⟨c, cs, hcs, hc⟩ := x.begins_code
  rw [hcs, List.cons_append] at hrest
  unfold pathStep
  simp only [Scan.run_bind, run_peek, hrest, Option.bind_eq_bind, Option.bind_some,
    List.head?_cons]
  split
  case h_3 =>
    rw [Scan.run_bind, hread]
    split <;> rfl
  all_goals
    rename_i heq
    rw [Option.some.inj heq] at hc
    exact absurd hc (by decide)

theorem run_nestedRound (l : Level) (path : Path) (x : Identifier) {cursor : Cursor}
    (hrest : cursor.rest = x.code ++ tail) :
    (nestedRound l path).run cursor =
      if x.chars.length < 2 ^ 63 then
        (if tail.head? = some 'E' then some ((), cursor.facing tail)
          else (remember (.name (path.extend x).text)).run (cursor.facing tail)).map
          fun read => (.again (path.extend x), read.2)
      else none := by
  have hstep := run_step l path x hrest
  have hfirst : cursor.rest.head? ≠ some 'E' := by
    rw [hrest]
    exact (x.begins_code.append tail).head_ne (by decide)
  obtain ⟨c, cs, hcs, hc⟩ := x.begins_code
  rw [hcs, List.cons_append] at hrest
  unfold nestedRound
  simp only [Scan.run_bind, run_accept_of_head?_ne hfirst, run_rest, hrest,
    Option.bind_eq_bind, Option.bind_some, Bool.false_eq_true, if_false]
  split
  case h_3 =>
    rw [Scan.run_bind, hstep]
    by_cases hsize : x.chars.length < 2 ^ 63
    · rw [if_pos hsize, if_pos hsize]
      by_cases htail : tail.head? = some 'E'
      · simp [htail]
      · simp [htail, Option.map_eq_bind]
    · rw [if_neg hsize, if_neg hsize]
      rfl
  all_goals
    rename_i heq
    rw [(List.cons.inj heq).1] at hc
    exact absurd hc (by decide)

theorem length_lt_code_append (x : Identifier) (tail : List Char) :
    tail.length < (x.code ++ tail).length := by
  have := x.length_lt_code
  rw [List.length_append]
  omega

theorem goes_component {name : ScopedName} {path : Path} {x : Identifier}
    (hname : (path.extend x).text = name.text) (hsize : x.chars.length < 2 ^ 63)
    (htail : tail.head? ≠ some 'E') :
    Goes (nestedRound l) (path, d.cursor (x.code ++ tail))
      (path.extend x, Dictionary.cursor (d ++ [.named name]) tail) := by
  have hremember := run_remember d (.named name) tail
  rw [SourceType.shape, ← hname] at hremember
  refine ⟨?_, length_lt_code_append x tail⟩
  rw [run_nestedRound l path x (Dictionary.rest_cursor d _), if_pos hsize, if_neg htail,
    Dictionary.facing_cursor, hremember]
  rfl

theorem goes_last {path : Path} {x : Identifier} (hsize : x.chars.length < 2 ^ 63) :
    Goes (nestedRound l) (path, d.cursor (x.code ++ 'E' :: tail))
      (path.extend x, d.cursor ('E' :: tail)) := by
  refine ⟨?_, length_lt_code_append x _⟩
  rw [run_nestedRound l path x (Dictionary.rest_cursor d _), if_pos hsize,
    if_pos (List.head?_cons ..)]
  rfl

def ScopedName.last : ScopedName → Identifier
  | top x => x
  | within _ x => x

theorem lastPart_go (x : Identifier) (outer : List Char) :
    lastPart.go x.chars.reverse = x.chars.reverse ∧
      lastPart.go (x.chars.reverse ++ ':' :: ':' :: outer) = x.chars.reverse := by
  have hcolon : ':' ∉ x.chars.reverse := fun h => x.notMem (by decide) (List.mem_reverse.1 h)
  generalize x.chars.reverse = cs at hcolon ⊢
  induction cs with
  | nil => exact ⟨rfl, rfl⟩
  | cons c cs ih =>
    rw [List.mem_cons, not_or] at hcolon
    have hcs := ih hcolon.2
    have hstep (rest : List Char) : lastPart.go (c :: rest) = c :: lastPart.go rest := by
      rw [lastPart.go]
      exact fun _ hc => absurd hc.symm hcolon.1
    exact ⟨by rw [hstep, hcs.1], by rw [List.cons_append, hstep, hcs.2]⟩

theorem lastPart_text (s : ScopedName) : lastPart s.text = s.last.text := by
  cases s with
  | top x =>
    rw [ScopedName.text, lastPart, Identifier.text, String.toList_ofList, (lastPart_go x []).1,
      List.reverse_reverse]
    rfl
  | within outer x =>
    have hlist : (outer.within x).text.toList.reverse =
        x.chars.reverse ++ ':' :: ':' :: outer.text.toList.reverse := by
      simp [ScopedName.text, Identifier.text]
    rw [lastPart, hlist, (lastPart_go x _).2, List.reverse_reverse]
    rfl

theorem goes_reference {name : ScopedName} {place : Nat}
    (hname : d.idxOf? (.named name) = some place) (hplace : place < 2 ^ 63) :
    Goes (nestedRound l) ({}, d.cursor (reference place ++ tail))
      ({ text := name.text, last := name.last.text }, d.cursor tail) := by
  have hread := run_backReference hname hplace tail
  obtain ⟨c, cs, hcs, hc⟩ := exists_reference_eq place
  rw [hcs] at hread ⊢
  refine ⟨?_, ?_⟩
  · unfold nestedRound
    simp only [List.cons_append] at hread ⊢
    have hfirst : ('S' :: c :: (cs ++ tail)).head? ≠ some 'E' := by simp
    simp only [Scan.run_bind, run_accept_of_ne hfirst, run_rest, Dictionary.rest_cursor,
      Option.bind_eq_bind, Option.bind_some, Bool.false_eq_true, if_false]
    split
    case h_1 heq =>
      cases heq
      exact absurd hc (by decide)
    case h_2 => simp [hread, SourceType.shape, Shape.render, lastPart_text]
    case h_3 hnot => exact absurd rfl (hnot _)
  · simp only [Dictionary.rest_cursor, List.length_append, List.length_cons]
    omega

theorem Dictionary.place_lt {t : SourceType} {place : Nat} (ht : d.idxOf? t = some place)
    (hfits : d.Fits rest) : place < 2 ^ 63 := by
  obtain ⟨hlt, -⟩ := List.findIdx?_eq_some_iff_getElem.1 ht
  unfold Dictionary.Fits at hfits
  omega

/-- What stands before a component is read round by round, and what it completes is remembered
in the order of the dictionary. -/
theorem rounds_scope (l : Level) (d : Dictionary) (s : ScopedName) (htail : tail.head? ≠ some 'E')
    (hfits : d.Fits ((d.scope s).1 ++ tail)) :
    ReflTransGen (Goes (nestedRound l)) ({}, d.cursor ((d.scope s).1 ++ tail))
      ({ text := s.text, last := s.last.text }, (d.scope s).2.cursor tail) := by
  induction s generalizing tail with
  | top x =>
    simp only [Dictionary.scope, Dictionary.orReference] at hfits ⊢
    split at hfits
    · rename_i place hplace
      exact .single (goes_reference hplace (Dictionary.place_lt hplace hfits))
    · exact .single (goes_component rfl (hfits.length_lt (by simp)) htail)
  | within outer x ih =>
    simp only [Dictionary.scope, Dictionary.orReference] at hfits ⊢
    split at hfits
    · rename_i place hplace
      exact .single (goes_reference hplace (Dictionary.place_lt hplace hfits))
    · rw [List.append_assoc] at hfits ⊢
      have hfirst : (x.code ++ tail).head? ≠ some 'E' :=
        (x.begins_code.append tail).head_ne (by decide)
      have hgoes := @goes_component l (d.scope outer).2 tail (outer.within x) _ x
        (congrArg Path.text (extend_text outer outer.last.text x))
        (hfits.length_lt (by simp; omega)) htail
      rw [extend_text] at hgoes
      exact (ih hfirst hfits).tail hgoes

/-! ## Names -/

theorem run_qualifiers (cv : Cv) (hrest : Begins (fun c => c ∉ ['r', 'V', 'K']) rest)
    (d : Dictionary) :
    qualifiers.run (d.cursor (cv.code ++ rest)) = some (cv.qualifiers, d.cursor rest) := by
  have hr : rest.head? ≠ some 'r' := hrest.head_ne (by decide)
  have hV : rest.head? ≠ some 'V' := hrest.head_ne (by decide)
  have hK : rest.head? ≠ some 'K' := hrest.head_ne (by decide)
  obtain ⟨restrict, volatile, const⟩ := cv
  cases restrict <;> cases volatile <;> cases const <;>
    simp [qualifiers, Cv.code, Cv.qualifiers, run_accept_of_ne, hr, hV, hK]

theorem begins_reference (place : Nat) : Begins (· = 'S') (reference place) := by
  obtain ⟨c, cs, hcs, -⟩ := exists_reference_eq place
  exact ⟨'S', c :: cs, hcs, by decide⟩

theorem Dictionary.begins_scope (d : Dictionary) (s : ScopedName) :
    Begins (fun c => c = 'S' || c.isDigit) (d.scope s).1 := by
  have hreference (place : Nat) : Begins (fun c => c = 'S' || c.isDigit) (reference place) :=
    (begins_reference place).mono fun c hc => Bool.or_eq_true_iff.2 (.inl hc)
  induction s with
  | top x =>
    simp only [Dictionary.scope, Dictionary.orReference]
    split
    · exact hreference _
    · exact x.begins_code.mono fun c hc => Bool.or_eq_true_iff.2 (.inr hc)
  | within outer x ih =>
    simp only [Dictionary.scope, Dictionary.orReference]
    split
    · exact hreference _
    · exact ih.append x.code

/-- The letters that the spelling of a name begins with. -/
def opensName (c : Char) : Bool := c = 'N' || c.isDigit

theorem opensName_elim {p : Char → Bool} (hN : p 'N' = true)
    (hdigit : ∀ c, c.isDigit = true → p c = true) (hc : opensName c = true) : p c = true := by
  rcases Bool.or_eq_true_iff.1 hc with hc | hc
  · rw [of_decide_eq_true hc]
    exact hN
  · exact hdigit c hc

theorem Identifier.begins_name (x : Identifier) : Begins opensName x.code :=
  x.begins_code.mono fun _ hc => Bool.or_eq_true_iff.2 (.inr hc)

theorem Dictionary.begins_path (d : Dictionary) (name : ScopedName) :
    Begins opensName (d.path name).1 := by
  cases name with
  | top x => exact x.begins_name
  | within s x => exact ⟨'N', _, rfl, rfl⟩

theorem FunctionName.begins_code (name : FunctionName) : Begins opensName name.code.1 := by
  cases name with
  | free x => exact x.begins_name
  | member s x cv ref => exact ⟨'N', _, rfl, rfl⟩

theorem run_nestedName (l : Level) (d : Dictionary) (cv : Cv) (ref : RefQualifier) (s : ScopedName)
    {last : List Char} {path : Path} (hfirst : (last ++ 'E' :: tail).head? ≠ some 'E')
    (hlast : Goes (nestedRound l)
      ({ text := s.text, last := s.last.text }, (d.scope s).2.cursor (last ++ 'E' :: tail))
      (path, (d.scope s).2.cursor ('E' :: tail)))
    (hfits : d.Fits ((d.scope s).1 ++ (last ++ 'E' :: tail))) :
    (nestedName l).run (d.cursor ('N' :: (cv.code ++
        (ref.code ++ ((d.scope s).1 ++ (last ++ 'E' :: tail)))))) =
      some ({ text := path.text, isTemplate := path.isTemplate, isSpecial := path.isSpecial,
              quals := cv.qualifiers ++ ref.qualifiers }, (d.scope s).2.cursor tail) := by
  have hscope := (d.begins_scope s).append (last ++ 'E' :: tail)
  have hloop : (loop (nestedRound l) {}).run (d.cursor ((d.scope s).1 ++ (last ++ 'E' :: tail))) =
      some (path, (d.scope s).2.cursor tail) :=
    run_loop ((rounds_scope l d s hfirst hfits).tail hlast) (by simp [nestedRound])
  generalize (d.scope s).1 ++ (last ++ 'E' :: tail) = body at hscope hloop
  have hR : body.head? ≠ some 'R' := hscope.head_ne (by decide)
  have hO : body.head? ≠ some 'O' := hscope.head_ne (by decide)
  have hquals : qualifiers.run (d.cursor (cv.code ++ (ref.code ++ body))) =
      some (cv.qualifiers, d.cursor (ref.code ++ body)) := by
    refine run_qualifiers cv ?_ d
    cases ref with
    | none => exact hscope.avoid (by decide)
    | lvalue => exact ⟨'R', body, rfl, rfl⟩
    | rvalue => exact ⟨'O', body, rfl, rfl⟩
  rw [nestedName]
  simp only [Scan.run_bind, run_expect_cons, Option.bind_eq_bind, Option.bind_some, hquals]
  cases ref with
  | none =>
    simp [RefQualifier.code, RefQualifier.qualifiers, run_accept_of_ne hR, run_accept_of_ne hO,
      hloop]
  | lvalue => simp [RefQualifier.code, RefQualifier.qualifiers, hloop]
  | rvalue => simp [RefQualifier.code, RefQualifier.qualifiers, hloop]

theorem Dictionary.length_orReference {t : SourceType} {full : List Char × Dictionary}
    (hfull : full.2.length < d.length + full.1.length) :
    (d.orReference t full).2.length ≤ d.length + (d.orReference t full).1.length := by
  unfold Dictionary.orReference
  split
  · exact Nat.le_add_right _ _
  · rw [List.length_append]
    exact hfull

theorem Dictionary.length_scope (d : Dictionary) (s : ScopedName) :
    (d.scope s).2.length ≤ d.length + (d.scope s).1.length := by
  induction s with
  | top x =>
    have := x.length_lt_code
    refine Dictionary.length_orReference ?_
    simp only
    omega
  | within outer x ih =>
    have := x.length_lt_code
    refine Dictionary.length_orReference ?_
    simp only [List.length_append]
    omega

theorem Dictionary.length_path (d : Dictionary) (name : ScopedName) :
    (d.path name).2.length < d.length + (d.path name).1.length := by
  cases name with
  | top x =>
    have := x.length_lt_code
    simp only [Dictionary.path]
    omega
  | within s x =>
    have := d.length_scope s
    simp only [Dictionary.path, List.length_append, List.length_cons]
    omega

theorem spells_unscoped (l : Level) (d : Dictionary) (x : Identifier) :
    Spells (readName l) { text := x.text } d (x.code, d) := by
  refine ⟨Nat.le_add_right _ _, fun tail htail hfits => ?_⟩
  have hsize : x.chars.length < 2 ^ 63 := hfits.length_lt (by simp)
  have hread := run_component l "" x (Dictionary.rest_cursor d (x.code ++ tail))
  rw [if_pos hsize, Dictionary.facing_cursor] at hread
  obtain ⟨c, cs, hcs, hc⟩ := x.begins_code
  simp only [hcs, List.cons_append] at hread ⊢
  unfold readName
  simp only [Scan.run_bind, run_rest, Dictionary.rest_cursor, Option.bind_eq_bind,
    Option.bind_some]
  split
  case h_5 => simp [unscopedName, hread, htail]
  all_goals
    rename_i heq
    rw [(List.cons.inj heq).1] at hc
    exact absurd hc (by decide)

theorem spells_nested (l : Level) (d : Dictionary) (cv : Cv) (ref : RefQualifier) (s : ScopedName)
    (x : Identifier) :
    Spells (readName l) { text := (s.within x).text, quals := cv.qualifiers ++ ref.qualifiers } d
      ('N' :: cv.code ++ ref.code ++ (d.scope s).1 ++ x.code ++ ['E'], (d.scope s).2) := by
  have hgrows := d.length_scope s
  refine ⟨?_, fun tail _ hfits => ?_⟩
  · simp only [List.length_append, List.length_cons]
    omega
  · have hgoes := @goes_last l (d.scope s).2 tail { text := s.text, last := s.last.text } x
      (hfits.length_lt (by simp; omega))
    rw [extend_text] at hgoes
    have hread := run_nestedName l d cv ref s
      ((x.begins_code.append ('E' :: tail)).head_ne (by decide)) hgoes (by
        simp only [Dictionary.Fits, List.length_append, List.length_cons] at hfits ⊢
        omega)
    simpa [readName] using hread

theorem spells_path (l : Level) (d : Dictionary) (name : ScopedName) :
    Spells (readName l) { text := name.text } d (d.path name) := by
  cases name with
  | top x => exact spells_unscoped l d x
  | within s x => exact spells_nested l d {} .none s x

theorem spells_functionName (l : Level) (name : FunctionName) :
    Spells (readName l) { text := name.path.text, quals := name.qualifiers } [] name.code := by
  cases name with
  | free x => exact spells_unscoped l [] x
  | member s x cv ref => exact spells_nested l [] cv ref s x

end CallTargets.Symbol
