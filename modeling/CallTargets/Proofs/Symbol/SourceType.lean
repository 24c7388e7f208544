import CallTargets.Proofs.Symbol.ScopedName

/-!
# Types are read back

A type is read by its first letter, so each kind of type has a lemma for the letters that it begins
with and one that reads it if its parts are read (`spells_indirect`, `spells_function`, …).
`spells_type` assembles them by induction on the type; every type around another one takes one of
the constructs that may be open at a time. Parameters are read in loops, and `rounds_types` follows
the rounds of any loop that reads a type where one begins.
-/

namespace CallTargets.Symbol

variable {ts : List SourceType} {t : SourceType} {cursor : Cursor} {cv : Cv} {n : Nat}

open Relation Scan

variable {l : Level} {d d' : Dictionary} {rest tail : List Char} {c : Char}

/-! ## First letters -/

/-- The letters that the spelling of a type without qualifiers begins with. -/
def opensPlain (c : Char) : Bool :=
  (builtin? c).isSome || c.isDigit || c ∈ ['N', 'S', 'P', 'R', 'O', 'F', 'D']

/-- The letters that the spelling of a type begins with. -/
def opensType (c : Char) : Bool := opensPlain c || c ∈ ['r', 'V', 'K']

/-- No type with a code of its own begins with the letter. -/
def opensCompound (c : Char) : Bool := builtin? c = none && c ≠ 'D'

theorem opensCompound_of_isDigit (hc : c.isDigit = true) : opensCompound c = true := by
  unfold opensCompound builtin?
  split
  case h_22 =>
    simp only [decide_true, Bool.true_and, decide_eq_true_eq]
    rintro rfl
    exact absurd hc (by decide)
  all_goals exact absurd hc (by decide)

theorem Begins.orReference {p : Char → Bool} (hp : p 'S' = true) (t : SourceType)
    {full : List Char × Dictionary} (hfull : Begins p full.1) :
    Begins p (d.orReference t full).1 := by
  unfold Dictionary.orReference
  split
  · refine (begins_reference _).mono fun c hc => ?_
    rw [of_decide_eq_true hc]
    exact hp
  · exact hfull

theorem Builtin.builtinAt?_spelling (b : Builtin) (tail : List Char) :
    builtinAt? (b.spelling.1 ++ tail) = some (b.spelling.2, b.spelling.1.length) := by
  cases b <;> rfl

theorem Builtin.begins_spelling (b : Builtin) :
    Begins (fun c => (builtin? c).isSome || c = 'D') b.spelling.1 := by
  cases b <;> exact ⟨_, _, rfl, rfl⟩

theorem Cv.begins_code (hcv : cv ≠ {}) : Begins (fun c => c ∈ ['r', 'V', 'K']) cv.code := by
  obtain ⟨restrict, volatile, const⟩ := cv
  cases restrict <;> cases volatile <;> cases const <;>
    first | exact absurd rfl hcv | exact ⟨_, _, rfl, by decide⟩

theorem Dictionary.begins_plain (d : Dictionary) (ht : t.isPlain = true) :
    Begins opensPlain (d.type t).1 := by
  cases t with
  | builtin b =>
    refine b.begins_spelling.mono fun c hc => ?_
    rcases Bool.or_eq_true_iff.1 hc with hc | hc
    · simp [opensPlain, hc]
    · rw [of_decide_eq_true hc]
      rfl
  | named name =>
    refine Begins.orReference rfl _ ((d.begins_path name).mono fun c hc => ?_)
    exact opensName_elim (p := opensPlain) rfl (fun c hc => by simp [opensPlain, hc]) hc
  | indirect kind target =>
    refine Begins.orReference rfl _ ⟨kind.letter, _, rfl, ?_⟩
    cases kind <;> rfl
  | qualified cv base => cases ht
  | function result params => cases ht

theorem Dictionary.begins_type (d : Dictionary) (t : SourceType) :
    Begins opensType (d.type t).1 := by
  have hplain (t : SourceType) (ht : t.isPlain = true) : Begins opensType (d.type t).1 :=
    (d.begins_plain ht).mono fun c hc => Bool.or_eq_true_iff.2 (.inl hc)
  induction t with
  | builtin b => exact hplain _ rfl
  | named name => exact hplain _ rfl
  | indirect kind target => exact hplain _ rfl
  | qualified cv base ih =>
    rw [Dictionary.type]
    refine Begins.orReference rfl _ ?_
    by_cases hcv : cv = {}
    · rw [hcv]
      exact ih
    · refine ((Cv.begins_code hcv).append _).mono fun c hc => ?_
      exact Bool.or_eq_true_iff.2 (.inr hc)
  | function result params =>
    rw [Dictionary.type]
    exact Begins.orReference rfl _ ⟨'F', _, rfl, rfl⟩

/-! ## Types -/

theorem run_readType_eq (hrest : Begins opensCompound cursor.rest) :
    (readType l).run cursor = (do
      let (shape, isNamed) ← compoundType l
      if isNamed then remember shape
      return shape).run cursor := by
  obtain ⟨c, cs, hcs, hc⟩ := hrest
  rw [opensCompound, Bool.and_eq_true, decide_eq_true_eq, decide_eq_true_eq] at hc
  have hnone : builtinAt? (c :: cs) = none := by
    unfold builtinAt?
    split
    · rename_i heq
      exact absurd (List.cons.inj heq).1 hc.2
    · rename_i heq
      rw [← (List.cons.inj heq).1, hc.1]
      rfl
    · rfl
  simp [readType, hcs, hnone]

theorem run_readType (hrest : Begins opensCompound cursor.rest) {shape : Shape} {isNamed : Bool}
    {c : Cursor} (hread : (compoundType l).run cursor = some ((shape, isNamed), c)) :
    (readType l).run cursor =
      ((if isNamed then remember shape else pure () : Scan Unit).run c).map
        fun read => (shape, read.2) := by
  rw [run_readType_eq hrest]
  cases isNamed <;> simp [hread, Option.map_eq_bind]

theorem run_compoundType_reference {place : Nat} (ht : d.idxOf? t = some place)
    (hplace : place < 2 ^ 63) (htail : tail.head? ≠ some 'I') :
    (compoundType l).run (d.cursor (reference place ++ tail)) =
      some ((t.shape, false), d.cursor tail) := by
  have hread := run_backReference ht hplace tail
  obtain ⟨c, cs, hcs, hc⟩ := exists_reference_eq place
  rw [hcs] at hread ⊢
  simp only [List.cons_append] at hread ⊢
  have hstd : c ≠ 't' := by
    rintro rfl
    exact absurd hc (by decide)
  simp [compoundType, hstd, hread, htail]

theorem spells_orReference {t : SourceType} {full : List Char × Dictionary}
    (hgrows : full.2.length < d.length + full.1.length) (hfirst : Begins opensCompound full.1)
    (hread : ∀ tail : List Char, tail.head? ≠ some 'I' → d.Fits (full.1 ++ tail) →
      (compoundType l).run (d.cursor (full.1 ++ tail)) =
        some ((t.shape, true), full.2.cursor tail)) :
    Spells (readType l) t.shape d (d.orReference t full) := by
  refine ⟨Dictionary.length_orReference hgrows, fun tail htail hfits => ?_⟩
  unfold Dictionary.orReference at hfits ⊢
  split at hfits
  · rename_i place hplace
    have hreference := run_compoundType_reference (l := l) hplace
      (Dictionary.place_lt hplace hfits) htail
    rw [run_readType ((begins_reference place).append tail |>.mono ?_) hreference]
    · rfl
    · intro c hc
      rw [of_decide_eq_true hc]
      rfl
  · rw [run_readType (hfirst.append tail) (hread tail htail hfits)]
    simp [run_remember]

theorem run_readType_builtin (b : Builtin) (hrest : cursor.rest = b.spelling.1 ++ tail) :
    (readType l).run cursor = some (.name b.spelling.2, cursor.facing tail) := by
  simp [readType, hrest, b.builtinAt?_spelling]

theorem spells_builtin (l : Level) (d : Dictionary) (b : Builtin) :
    Spells (readType l) (SourceType.builtin b).shape d (d.type (.builtin b)) := by
  refine ⟨Nat.le_add_right _ _, fun tail _ _ => ?_⟩
  rw [Dictionary.type, SourceType.shape]
  exact run_readType_builtin b rfl

/-! ### Classes -/

theorem run_compoundType_name (hrest : Begins opensName cursor.rest) :
    (compoundType l).run cursor =
      (l.name.run cursor).map fun read => ((.name read.1.text, true), read.2) := by
  obtain ⟨c, cs, hcs, hc⟩ := hrest
  have hcv : ¬ ((c = 'r' || c = 'V' || c = 'K') = true) := by
    intro hcv
    simp only [Bool.or_eq_true, decide_eq_true_eq] at hcv
    rcases hcv with (rfl | rfl) | rfl <;> exact absurd hc (by decide)
  have hname : (c = 'N' || c = 'Z' || c.isDigit) = true := by
    simp only [opensName, Bool.or_eq_true, decide_eq_true_eq] at hc ⊢
    exact hc.imp_left .inl
  unfold compoundType
  simp only [Scan.run_bind, run_rest, hcs, Option.bind_eq_bind, Option.bind_some]
  split
  case h_12 heq =>
    cases heq
    simp [hcv, hname, Option.map_eq_bind]
  case h_13 heq => cases heq
  all_goals
    rename_i heq
    rw [(List.cons.inj heq).1] at hc
    exact absurd hc (by decide)

theorem spells_named (l : Level) (d : Dictionary) (name : ScopedName) :
    Spells (readType l.next) (SourceType.named name).shape d (d.type (.named name)) := by
  have hpath := spells_path l d name
  have hfirst := d.begins_path name
  rw [Dictionary.type]
  refine spells_orReference (d.length_path name) (hfirst.mono fun c hc => ?_)
    fun tail htail hfits => ?_
  · exact opensName_elim rfl (fun c => opensCompound_of_isDigit) hc
  · have hread : l.next.name.run (d.cursor ((d.path name).1 ++ tail)) = _ :=
      hpath.run tail htail hfits
    rw [run_compoundType_name (hfirst.append tail), hread]
    rfl

/-! ### Indirections and qualified types -/

theorem spells_indirect (kind : Indirection) {target : SourceType}
    (htarget : Spells l.type target.shape d (d.type target)) :
    Spells (readType l) (SourceType.indirect kind target).shape d
      (d.type (.indirect kind target)) := by
  have hgrows := htarget.length_le
  rw [Dictionary.type]
  refine spells_orReference ?_ ⟨kind.letter, _, rfl, ?_⟩ fun tail htail hfits => ?_
  · simp only [List.length_cons]
    omega
  · cases kind <;> rfl
  · have hread := htarget.run tail htail (hfits.of_le (by simp))
    cases kind <;>
      simp [compoundType, Indirection.letter, SourceType.shape, Indirection.shape, hread]

theorem qualify_shape (ht : t.isPlain = true) (quals : List Qualifier) :
    qualify t.shape quals = .qualified t.shape quals := by
  cases t with
  | indirect kind target => cases kind <;> rfl
  | function result params => cases ht
  | _ => rfl

theorem run_compoundType_qualified (hcv : cv ≠ {})
    (hrest : Begins (fun c => c ∉ ['r', 'V', 'K']) rest) {shape : Shape} {after : Cursor}
    (hread : l.type.run (d.cursor rest) = some (shape, after)) :
    (compoundType l).run (d.cursor (cv.code ++ rest)) =
      some ((qualify shape cv.qualifiers, true), after) := by
  have hquals := run_qualifiers cv hrest d
  obtain ⟨c, cs, hcs, hc⟩ := Cv.begins_code hcv
  rw [hcs, List.cons_append] at hquals ⊢
  simp only [decide_eq_true_eq, List.mem_cons, List.not_mem_nil, or_false] at hc
  rcases hc with rfl | rfl | rfl <;> simp [compoundType, hquals, hread]

theorem spells_qualified (hcv : cv ≠ {}) {base : SourceType} (hplain : base.isPlain = true)
    (hbase : Spells l.type base.shape d (d.type base)) :
    Spells (readType l) (SourceType.qualified cv base).shape d (d.type (.qualified cv base)) := by
  have hgrows := hbase.length_le
  have hpos : 0 < cv.code.length := by
    obtain ⟨c, cs, hcs, -⟩ := Cv.begins_code hcv
    simp [hcs]
  rw [Dictionary.type]
  refine spells_orReference ?_ (((Cv.begins_code hcv).append _).mono fun c hc => ?_)
    fun tail htail hfits => ?_
  · simp only [List.length_append]
    omega
  · simp only [decide_eq_true_eq, List.mem_cons, List.not_mem_nil, or_false] at hc
    rcases hc with rfl | rfl | rfl <;> rfl
  · have hread := hbase.run tail htail (hfits.of_le (by simp))
    have hfirst := ((d.begins_plain hplain).append tail).avoid (b := ['r', 'V', 'K']) (by decide)
    rw [List.append_assoc, run_compoundType_qualified hcv hfirst hread, qualify_shape hplain]
    rfl

/-! ## Lists of types -/

/-- Parameters as they are spelled: if there are none, a lone `void`. -/
def orVoid (ts : List SourceType) : List SourceType :=
  if ts.isEmpty then [.builtin .void] else ts

theorem orVoid_ne_nil (ts : List SourceType) : orVoid ts ≠ [] := by cases ts <;> simp [orVoid]

theorem Dictionary.params_eq (d : Dictionary) (ts : List SourceType) :
    d.params ts = d.types (orVoid ts) := by
  cases ts <;> simp [Dictionary.params, orVoid, Dictionary.types, Dictionary.type, Builtin.spelling]

theorem shape_function (result : SourceType) (params : List SourceType) :
    (SourceType.function result params).shape =
      .function result.shape (SourceType.shapes (orVoid params)) [] := by
  cases params <;> simp [SourceType.shape, SourceType.shapes, orVoid, Builtin.spelling]

theorem type_function (d : Dictionary) (result : SourceType) (params : List SourceType) :
    d.type (.function result params) =
      let first := d.type result
      let rest := first.2.types (orVoid params)
      d.orReference (.function result params) ('F' :: first.1 ++ rest.1 ++ ['E'], rest.2) := by
  rw [Dictionary.type]
  exact congrArg (fun rest => d.orReference _ ('F' :: (d.type result).1 ++ rest.1 ++ ['E'], rest.2))
    ((d.type result).2.params_eq params)

theorem Dictionary.begins_types (d : Dictionary) (hts : ts ≠ []) :
    Begins opensType (d.types ts).1 := by
  cases ts with
  | nil => exact absurd rfl hts
  | cons t ts => exact (d.begins_type t).append _

theorem Dictionary.head?_types_ne (d : Dictionary) (ts : List SourceType)
    (htail : tail.head? ≠ some 'I') : ((d.types ts).1 ++ tail).head? ≠ some 'I' := by
  cases ts with
  | nil => exact htail
  | cons t ts => exact ((d.begins_types (List.cons_ne_nil t ts)).append tail).head_ne (by decide)

/-- The types are read back one by one. -/
def SpellsAll (l : Level) (ts : List SourceType) : Prop :=
  ∀ t ∈ ts, ∀ d : Dictionary, Spells l.type t.shape d (d.type t)

theorem SpellsAll.of_cons (h : SpellsAll l (t :: ts)) : SpellsAll l ts :=
  fun t ht => h t (List.mem_cons_of_mem _ ht)

theorem rounds_types {β : Type} {round : List Shape → Scan (Round (List Shape) β)}
    (hround : ∀ d : Dictionary, ∀ t tail shapes,
      (round shapes).run (d.cursor ((d.type t).1 ++ tail)) =
        (l.type.run (d.cursor ((d.type t).1 ++ tail))).map
          fun read => (.again (read.1 :: shapes), read.2))
    {ts : List SourceType} (hts : SpellsAll l ts) (tail : List Char) (htail : tail.head? ≠ some 'I')
    (d : Dictionary) (shapes : List Shape) (hfits : d.Fits ((d.types ts).1 ++ tail)) :
    ReflTransGen (Goes round) (shapes, d.cursor ((d.types ts).1 ++ tail))
      ((SourceType.shapes ts).reverse ++ shapes, (d.types ts).2.cursor tail) := by
  induction ts generalizing d shapes with
  | nil => exact .refl
  | cons t ts ih =>
    have ht := hts t List.mem_cons_self d
    have hgrows := ht.length_le
    simp only [Dictionary.types, List.append_assoc, SourceType.shapes, List.reverse_cons,
      List.singleton_append] at hfits ⊢
    have hnext := (d.type t).2.head?_types_ne ts htail
    have hgoes : Goes round (shapes, d.cursor ((d.type t).1 ++ (((d.type t).2.types ts).1 ++ tail)))
        (t.shape :: shapes, (d.type t).2.cursor (((d.type t).2.types ts).1 ++ tail)) := by
      refine ⟨?_, ?_⟩
      · rw [hround, ht.run _ hnext hfits]
        rfl
      · obtain ⟨c, cs, hcs, -⟩ := d.begins_type t
        simp only [Dictionary.rest_cursor, hcs, List.length_append, List.length_cons]
        omega
    refine .head hgoes (ih hts.of_cons _ _ (hfits.of_le ?_))
    simp only [List.length_append] at *
    omega

theorem SpellsAll.length_le (hts : SpellsAll l ts) (d : Dictionary) :
    (d.types ts).2.length ≤ d.length + (d.types ts).1.length := by
  induction ts generalizing d with
  | nil => exact Nat.le_add_right _ _
  | cons t ts ih =>
    have hfirst := (hts t List.mem_cons_self d).length_le
    have hrest := ih hts.of_cons (d.type t).2
    simp only [Dictionary.types, List.length_append]
    omega

/-! ## Function types -/

theorem Dictionary.type_append_ne (d : Dictionary) (t : SourceType) (tail cs : List Char)
    (hc : c ∈ ['R', 'O']) : (d.type t).1 ++ tail ≠ c :: 'E' :: cs := by
  have hother {code : List Char} (hcode : Begins (fun c => c ∉ ['R', 'O']) code) :
      code ++ tail ≠ c :: 'E' :: cs := by
    obtain ⟨c', code, rfl, hc'⟩ := hcode
    intro heq
    rw [(List.cons.inj heq).1] at hc'
    exact of_decide_eq_true hc' hc
  induction t with
  | builtin b => exact hother (b.begins_spelling.avoid (by decide))
  | named name => exact hother (Begins.orReference rfl _ ((d.begins_path name).avoid (by decide)))
  | indirect kind target =>
    rw [Dictionary.type, Dictionary.orReference]
    split
    · exact hother ((begins_reference _).avoid (by decide))
    · intro heq
      have hinner : (d.type target).1 ++ tail = 'E' :: cs := (List.cons.inj heq).2
      refine ((d.begins_type target).append tail).head_ne (c := 'E') (by decide) ?_
      rw [hinner, List.head?_cons]
  | qualified cv base ih =>
    rw [Dictionary.type, Dictionary.orReference]
    split
    · exact hother ((begins_reference _).avoid (by decide))
    · by_cases hcv : cv = {}
      · rw [hcv]
        exact ih
      · exact hother (((Cv.begins_code hcv).append _).avoid (by decide))
  | function result params =>
    rw [Dictionary.type]
    exact hother (Begins.orReference rfl _ ⟨'F', _, rfl, rfl⟩)

theorem run_paramRound (l : Level) (d : Dictionary) (t : SourceType) (tail : List Char)
    (shapes : List Shape) :
    (paramRound l shapes).run (d.cursor ((d.type t).1 ++ tail)) =
      (l.type.run (d.cursor ((d.type t).1 ++ tail))).map
        fun read => (.again (read.1 :: shapes), read.2) := by
  have hend : ((d.type t).1 ++ tail).head? ≠ some 'E' :=
    ((d.begins_type t).append tail).head_ne (by decide)
  unfold paramRound
  simp only [Scan.run_bind, run_rest, Dictionary.rest_cursor, Option.bind_eq_bind,
    Option.bind_some]
  split
  case h_1 heq =>
    rw [heq] at hend
    exact absurd rfl hend
  case h_2 heq => exact absurd heq (d.type_append_ne t tail _ (by decide))
  case h_3 heq => exact absurd heq (d.type_append_ne t tail _ (by decide))
  case h_4 => simp [Option.map_eq_bind]

theorem run_params (hts : SpellsAll l ts) (tail : List Char) (d : Dictionary)
    (hfits : d.Fits ((d.types ts).1 ++ 'E' :: tail)) :
    (loop (paramRound l) []).run (d.cursor ((d.types ts).1 ++ 'E' :: tail)) =
      some ((SourceType.shapes ts, []), (d.types ts).2.cursor tail) := by
  have hend : ('E' :: tail).head? ≠ some 'I' := by simp
  exact run_loop (rounds_types (run_paramRound l) hts ('E' :: tail) hend d [] hfits)
    (by simp [paramRound])

theorem run_functionType {result : SourceType} {params : List SourceType} (tail : List Char)
    (hresult : Spells l.type result.shape d (d.type result)) (hparams : SpellsAll l params)
    (hfits : d.Fits ((d.type result).1 ++ (((d.type result).2.types params).1 ++ 'E' :: tail))) :
    (functionType l).run (d.cursor
        ('F' :: ((d.type result).1 ++ (((d.type result).2.types params).1 ++ 'E' :: tail)))) =
      some (.function result.shape (SourceType.shapes params) [],
        ((d.type result).2.types params).2.cursor tail) := by
  have hfirst : ∀ rest, ((d.type result).1 ++ rest).head? ≠ some 'Y' := fun rest =>
    ((d.begins_type result).append rest).head_ne (by decide)
  have hnext := @Dictionary.head?_types_ne ('E' :: tail) (d.type result).2 params (by simp)
  have hgrows := hresult.length_le
  have hloop := run_params hparams tail (d.type result).2 (hfits.of_le (by
    simp only [List.length_append]
    omega))
  simp [functionType, run_accept_of_ne (hfirst _), hresult.run _ hnext hfits, hloop]

theorem spells_function {result : SourceType} {params : List SourceType}
    (hresult : Spells l.type result.shape d (d.type result))
    (hparams : SpellsAll l (orVoid params)) :
    Spells (readType l) (SourceType.function result params).shape d
      (d.type (.function result params)) := by
  have hgrows := hresult.length_le
  have hgrows' := hparams.length_le (d.type result).2
  rw [type_function]
  refine spells_orReference ?_ ⟨'F', _, rfl, rfl⟩ fun tail htail hfits => ?_
  · simp only [List.length_append, List.length_cons]
    omega
  · have hread := run_functionType tail hresult hparams (hfits.of_le (by simp))
    simp [compoundType, shape_function, hread]

/-! ## All types -/

theorem SourceType.isProper_of_mem (hts : areProper ts = true) (ht : t ∈ ts) :
    t.isProper = true := by
  induction ts with
  | nil => cases ht
  | cons u us ih =>
    rw [areProper, Bool.and_eq_true] at hts
    rcases List.mem_cons.1 ht with rfl | ht
    · exact hts.1
    · exact ih hts.2 ht

theorem SourceType.depth_le_depthAll (ht : t ∈ ts) : t.depth ≤ depthAll ts := by
  induction ts with
  | nil => cases ht
  | cons u us ih =>
    rw [depthAll]
    rcases List.mem_cons.1 ht with rfl | ht
    · exact Nat.le_max_left _ _
    · exact Nat.le_trans (ih ht) (Nat.le_max_right _ _)

theorem SpellsAll.orVoid (hts : SpellsAll (Level.of (n + 1)) ts) :
    SpellsAll (Level.of (n + 1)) (orVoid ts) := by
  cases ts with
  | nil =>
    intro t ht d
    rw [List.mem_singleton.1 ht]
    exact spells_builtin (Level.of n) d .void
  | cons t ts => exact hts

/-- A type is read back if so many constructs may be open. The innermost one may be a class,
for which a type and a name are open. -/
theorem spells_type (t : SourceType) (hproper : t.isProper = true) (hn : t.depth + 2 ≤ n)
    (d : Dictionary) : Spells (Level.of n).type t.shape d (d.type t) := by
  induction t generalizing n d with
  | builtin b =>
    obtain ⟨n, rfl⟩ : ∃ m, n = m + 1 := ⟨n - 1, by omega⟩
    exact spells_builtin (Level.of n) d b
  | named name =>
    obtain ⟨n, rfl⟩ : ∃ m, n = m + 2 := ⟨n - 2, by omega⟩
    exact spells_named (Level.of n) d name
  | indirect kind target ih =>
    rw [SourceType.depth] at hn
    rw [SourceType.isProper] at hproper
    obtain ⟨n, rfl⟩ : ∃ m, n = m + 1 := ⟨n - 1, by omega⟩
    exact spells_indirect kind (ih hproper (by omega) d)
  | qualified cv base ih =>
    rw [SourceType.depth] at hn
    simp only [SourceType.isProper, Bool.and_eq_true, decide_eq_true_eq] at hproper
    obtain ⟨⟨hcv, hplain⟩, hbase⟩ := hproper
    obtain ⟨n, rfl⟩ : ∃ m, n = m + 1 := ⟨n - 1, by omega⟩
    exact spells_qualified hcv hplain (ih hbase (by omega) d)
  | function result params ih ihs =>
    rw [SourceType.depth] at hn
    rw [SourceType.isProper, Bool.and_eq_true] at hproper
    obtain ⟨n, rfl⟩ : ∃ m, n = m + 2 := ⟨n - 2, by omega⟩
    refine spells_function (ih hproper.1 (by omega) d) (SpellsAll.orVoid fun t ht d => ?_)
    have hdepth := SourceType.depth_le_depthAll ht
    exact ihs t ht (SourceType.isProper_of_mem hproper.2 ht) (by omega) d

theorem spellsAll (hproper : SourceType.areProper ts = true) (hn : SourceType.depthAll ts + 2 ≤ n) :
    SpellsAll (Level.of n) ts := by
  intro t ht d
  have hdepth := SourceType.depth_le_depthAll ht
  exact spells_type t (SourceType.isProper_of_mem hproper ht) (by omega) d

end CallTargets.Symbol
