import CallTargets.Proofs.Key.Readable

/-!
# Signatures without a receiver

Signatures are compared by their printed form without a class pointer in the place of the first
parameter. The place is found in the text, behind the first parenthesis. That is where the
parameters of a function begin unless its return type shows a function type itself. So a method has
the signature of a function without the receiver, whatever the class, if and only if its return type
shows no function type (`signatureText_method_iff`).
-/

namespace CallTargets

open Text CallTargets.Normal

/-! ## Receivers in texts -/

namespace Normal

/-- Characters that a class pointer may have before its star. -/
def inName (c : Char) : Bool := c ≠ '*' && c ≠ ',' && c ≠ '(' && c ≠ ')'

/-- What is behind the star of a class pointer, without a comma. -/
def behindStar? : (name rest : List Char) → Option (List Char)
  | _ :: _, '*' :: ',' :: rest => some rest
  | _ :: _, '*' :: rest => some rest
  | _, _ => none

/-- What is behind a class pointer at the beginning of a list of parameters. -/
def afterReceiver? (params : List Char) : Option (List Char) :=
  (afterLead "%class.".toList params).bind fun named =>
    behindStar? (named.takeWhile inName) (named.dropWhile inName)

theorem behindStar?_comma {name : List Char} (hne : name ≠ []) (rest : List Char) :
    behindStar? name ('*' :: ',' :: rest) = some rest := by
  cases name with
  | nil => exact absurd rfl hne
  | cons n name => rfl

theorem behindStar?_star {name rest : List Char} (hne : name ≠ []) (hrest : rest.head? ≠ some ',') :
    behindStar? name ('*' :: rest) = some rest := by
  cases name with
  | nil => exact absurd rfl hne
  | cons n name =>
    rw [behindStar?]
    rintro tail rfl
    exact hrest rfl

theorem behindStar?_append (name text rest : List Char) :
    behindStar? name (text ++ ')' :: rest) = (behindStar? name text).map (· ++ ')' :: rest) := by
  fun_cases behindStar? name text with
  | case1 => rfl
  | case2 n ns text hcomma =>
    have hhead : (text ++ ')' :: rest).head? ≠ some ',' := by
      cases text with
      | nil => simp
      | cons c text =>
        rintro ⟨⟩
        exact hcomma text rfl
    exact behindStar?_star (List.cons_ne_nil n ns) hhead
  | case3 =>
    rename_i hstar
    cases name with
    | nil => rfl
    | cons n name =>
      cases text with
      | nil => rfl
      | cons c text =>
        have hc : c ≠ '*' := fun hc => hstar n name text rfl (hc ▸ rfl)
        rw [behindStar?]
        · rfl
        · exact fun _ _ _ _ heq => hc (List.cons.inj heq).1
        · exact fun _ _ _ _ heq => hc (List.cons.inj heq).1

theorem takeWhile_append_stop {p : Char → Bool} {c : Char} (h : p c = false) (a rest : List Char) :
    (a ++ c :: rest).takeWhile p = a.takeWhile p ∧
      (a ++ c :: rest).dropWhile p = a.dropWhile p ++ c :: rest := by
  induction a with
  | nil => simp [h]
  | cons d a ih =>
    cases hd : p d with
    | true => simp [hd, ih]
    | false => simp [hd]

theorem dropReceiver_eq {lead : List Char} (h : '(' ∉ lead) (params : List Char) :
    dropReceiver (lead ++ '(' :: params) = lead ++ '(' :: (afterReceiver? params).getD params := by
  have hlead : ∀ c ∈ lead, decide (c ≠ '(') = true := by
    intro c hc
    exact decide_eq_true (ne_of_mem_of_not_mem hc h)
  obtain ⟨htake, hdrop⟩ :=
    takeWhile_append_stop (p := fun c => decide (c ≠ '(')) (c := '(') (by simp) lead params
  rw [List.takeWhile_eq_self_iff.2 hlead] at htake
  rw [List.dropWhile_eq_nil_iff.2 hlead, List.nil_append] at hdrop
  unfold dropReceiver afterReceiver?
  rw [hdrop, htake]
  split
  · rename_i behind hbehind
    obtain rfl := (List.cons.inj hbehind).2
    cases afterLead "%class.".toList params with
    | none => rfl
    | some named =>
      change (match named.takeWhile inName, named.dropWhile inName with
        | _ :: _, '*' :: ',' :: rest => lead ++ '(' :: rest
        | _ :: _, '*' :: rest => lead ++ '(' :: rest
        | _, _ => lead ++ '(' :: params) =
          lead ++ '(' :: (behindStar? (named.takeWhile inName) (named.dropWhile inName)).getD params
      unfold behindStar?
      split
      · rfl
      · rfl
      · rfl
  · rename_i hparen
    exact absurd rfl (hparen params)

theorem afterReceiver?_append (params rest : List Char) :
    afterReceiver? (params ++ ')' :: rest) = (afterReceiver? params).map (· ++ ')' :: rest) := by
  unfold afterReceiver?
  rw [afterLead_append (by decide)]
  cases afterLead "%class.".toList params with
  | none => rfl
  | some named =>
    obtain ⟨htake, hdrop⟩ := takeWhile_append_stop (p := inName) (c := ')') (by decide) named rest
    simp only [Option.map_some, Option.bind_some, htake, hdrop]
    exact behindStar?_append _ _ rest

theorem afterReceiver?_class {name : List Char} (hname : ∀ c ∈ name, inName c = true)
    (rest : List Char) : afterReceiver? ("%class.".toList ++ (name ++ '*' :: rest)) =
      behindStar? name ('*' :: rest) := by
  obtain ⟨htake, hdrop⟩ := takeWhile_append_stop (p := inName) (c := '*') (by decide) name rest
  rw [List.takeWhile_eq_self_iff.2 hname] at htake
  rw [List.dropWhile_eq_nil_iff.2 hname, List.nil_append] at hdrop
  rw [afterReceiver?, afterLead_self, Option.bind_some, htake, hdrop]

/-- Each parenthesis that opens is closed further on. -/
def Closed : List Char → Prop
  | [] => True
  | c :: text => (c = '(' → ')' ∈ text) ∧ Closed text

theorem closed_of_noParen {text : List Char} (h : '(' ∉ text) : Closed text := by
  induction text with
  | nil => trivial
  | cons c text ih =>
    obtain ⟨hc, htext⟩ := not_or.1 (List.mem_cons.not.1 h)
    exact ⟨fun hparen => absurd hparen.symm hc, ih htext⟩

theorem Closed.append {a b : List Char} (ha : Closed a) (hb : Closed b) : Closed (a ++ b) := by
  induction a with
  | nil => exact hb
  | cons c a ih => exact ⟨fun hc => List.mem_append_left b (ha.1 hc), ih ha.2⟩

theorem Closed.cons {c : Char} {text : List Char} (hc : c ≠ '(') (h : Closed text) :
    Closed (c :: text) := ⟨fun hparen => absurd hparen hc, h⟩

theorem Closed.mem {a b : List Char} (h : Closed (a ++ '(' :: b)) : ')' ∈ b := by
  induction a with
  | nil => exact h.1 rfl
  | cons c a ih => exact ih h.2

theorem closed_listed {items : List (List Char)} (h : ∀ item ∈ items, Closed item) :
    Closed (listed items) := by
  induction items with
  | nil => trivial
  | cons item items ih =>
    have hitem := h item (.head _)
    have hitems := ih fun item hitem => h item (.tail _ hitem)
    cases items with
    | nil => exact hitem
    | cons next items => exact hitem.append (hitems.cons (by decide))

theorem mem_listed {c : Char} (hc : c ≠ ',') {items : List (List Char)} :
    c ∈ listed items ↔ ∃ item ∈ items, c ∈ item := by
  induction items with
  | nil => simp [listed]
  | cons item items ih =>
    cases items with
    | nil => simp [listed]
    | cons next items => simp [listed, ih, hc]

end Normal

namespace Ty

theorem noParen_of_nameChars {text : List Char} (h : ∀ c ∈ text, isNameChar c = true) :
    '(' ∉ text := fun hparen => absurd (h '(' hparen) (by decide)

variable {ty : Ty} {parts : List (List Char)}

theorem closed_normalOf
    (hname : ∀ name, ty.structName? = some name → ∀ c ∈ bare name.toList, isNameChar c = true)
    (hparts : ∀ part ∈ parts, Closed part) : Closed (ty.normalOf parts) := by
  have hend : ∀ {c : Char}, c ≠ '(' → Closed [c] := fun hc => Closed.cons hc trivial
  have hword : ∀ (ty : Ty) {word : List Char}, ty.word? = some word → Closed word := fun _ _ h =>
    closed_of_noParen (noParen_of_nameChars (word?_chars h).1)
  have hdigits : ∀ n, Closed (Nat.toDigits 10 n) := fun n => closed_of_noParen
    (noParen_of_nameChars fun c hc => isNameChar_of_isDigit (isDigit_of_mem_toDigits hc))
  fun_cases normalOf ty parts with
  | case1 => exact hword .void rfl
  | case2 => exact hword .label rfl
  | case3 _ bits => exact hword (.integer bits) rfl
  | case4 _ bits => exact hword (.float bits) rfl
  | case5 _ pointee => exact (hparts pointee (.head _)).append (hend (by decide))
  | case6 _ _ variadic ret params =>
    have hitems : ∀ item ∈ params ++ (if variadic then ["...".toList] else []), Closed item := by
      intro item hitem
      rcases List.mem_append.1 hitem with hitem | hitem
      · exact hparts item (.tail _ hitem)
      · cases variadic with
        | false => cases hitem
        | true =>
          obtain rfl := List.mem_singleton.1 hitem
          exact closed_of_noParen (by decide)
    have hlist := (closed_listed hitems).append (hend (c := ')') (by decide))
    rw [List.append_assoc]
    exact (hparts ret (.head _)).append ⟨fun _ => by simp, hlist⟩
  | case7 _ name =>
    exact (closed_of_noParen (noParen_of_nameChars (hname name rfl))).cons (by decide)
  | case8 _ _ =>
    exact ((closed_listed hparts).cons (by decide)).append (hend (by decide))
  | case9 _ length element =>
    have helement := hparts element (.head _)
    exact (((hdigits length).cons (by decide)).append (helement.cons (by decide))).append
      (hend (by decide))
  | case10 _ length element =>
    have helement := hparts element (.head _)
    exact (((hdigits length).cons (by decide)).append (helement.cons (by decide))).append
      (hend (by decide))
  | case11 => trivial

theorem paren_mem_normalOf_iff {f : TypeId → List Char}
    (hname : ∀ name, ty.structName? = some name → ∀ c ∈ bare name.toList, isNameChar c = true) :
    '(' ∈ ty.normalOf (ty.shown.map f) ↔
      ty.isFunction = true ∨ ∃ part ∈ ty.shown, '(' ∈ f part := by
  have hword : ∀ (ty : Ty) {word : List Char}, ty.word? = some word → '(' ∉ word := fun _ _ h =>
    noParen_of_nameChars (word?_chars h).1
  have hdigits : ∀ n, '(' ∉ Nat.toDigits 10 n := fun n =>
    noParen_of_nameChars fun c hc => isNameChar_of_isDigit (isDigit_of_mem_toDigits hc)
  cases ty with
  | void => simp [normalOf, shown, parts, isFunction]
  | label => simp [normalOf, shown, parts, isFunction]
  | integer bits => simpa [normalOf, shown, parts, isFunction] using hword (.integer bits) rfl
  | float bits => simpa [normalOf, shown, parts, isFunction] using hword (.float bits) rfl
  | pointer pointee => simp [normalOf, shown, parts, isFunction]
  | function ret params variadic => simp [normalOf, shown, parts, isFunction]
  | struct name fields bodiless =>
    cases name with
    | none => simp [normalOf, shown, parts, isFunction, mem_listed]
    | some name =>
      simpa [normalOf, shown, parts, isFunction] using noParen_of_nameChars (hname name rfl)
  | array element length => simp [normalOf, shown, parts, isFunction, hdigits]
  | vector element length => simp [normalOf, shown, parts, isFunction, hdigits]

end Ty

namespace TypeTable

variable {t : TypeTable} {id ret : TypeId} {params : List TypeId} {variadic : Bool}

/-! ## Printed functions -/

inductive ShowsFunction (t : TypeTable) : TypeId → Prop
  | function {id : TypeId} (h : t.isFunction id = true) : ShowsFunction t id
  | part {id part : TypeId} {ty : Ty} (h : t.get? id = some ty) (hpart : part ∈ ty.shown)
    (hshows : ShowsFunction t part) : ShowsFunction t id

/-- The parameters of a function as they are printed, and the parenthesis behind them. -/
def listText (t : TypeTable) (params : List TypeId) (variadic : Bool) : List Char :=
  (joinWith ", " (params.map t.print ++ if variadic then ["..."] else [])).toList ++ [')']

/-- The parameters of a function in normal form, in parentheses. -/
def paramText (t : TypeTable) (params : List TypeId) (variadic : Bool) : List Char :=
  '(' :: (listed (params.map t.normal ++ if variadic then [['.', '.', '.']] else []) ++ [')'])

theorem paramText_eq (t : TypeTable) (params : List TypeId) (variadic : Bool) :
    t.paramText params variadic = '(' :: chars (t.listText params variadic) := by
  have hend : chars [')'] = [')'] := chars_of_noPoint (by decide)
  have hnormal : t.normal = fun id => chars (t.print id).toList := rfl
  rw [listText, chars_joinWith _ (apart_cons (by simp) _), hend, paramText, hnormal]
  cases variadic <;> simp [chars_dots, Function.comp_def]

theorem listText_cons (t : TypeTable) (id : TypeId) (params : List TypeId) (variadic : Bool) :
    (t.listText (id :: params) variadic = (t.print id).toList ++ [')'] ∧
        t.listText params variadic = [')']) ∨
      t.listText (id :: params) variadic =
        (t.print id).toList ++ ',' :: ' ' :: t.listText params variadic := by
  unfold listText
  rw [List.map_cons, List.cons_append]
  cases params.map t.print ++ (if variadic then ["..."] else []) with
  | nil => exact .inl ⟨rfl, rfl⟩
  | cons next items =>
    right
    simp [joinWith]

theorem reverse_paramText (t : TypeTable) (params : List TypeId) (variadic : Bool) :
    (t.paramText params variadic).reverse =
      ')' :: (listed ((itemsBack params variadic).map t.itemBack) ++ ['(']) := by
  cases variadic <;>
    simp [paramText, reverse_listed, itemsBack, itemBack, back, Function.comp_def]

theorem dropNumbers_written (t : TypeTable) (ret : TypeId) (params : List TypeId)
    (variadic : Bool) : dropNumbers (t.written (.function ret params variadic)).toList =
      dropNumbers (t.print ret).toList ++
        ' ' :: '(' :: dropNumbers (t.listText params variadic) := by
  have htext : (t.written (.function ret params variadic)).toList =
      (t.print ret).toList ++ ' ' :: '(' :: t.listText params variadic := by
    simp [written, listText, Ty.textOf, Ty.shown, Ty.parts]
  rw [htext, dropNumbers_append (apart_cons (by simp) _), dropNumbers_cons (by decide),
    dropNumbers_cons (by decide)]

theorem dropBlanks_params (a b : List Char) :
    dropBlanks (a ++ ' ' :: '(' :: b) = dropBlanks a ++ '(' :: dropBlanks b := by
  rw [dropBlanks, List.filter_append, List.filter_cons_of_neg (by decide),
    List.filter_cons_of_pos (by decide)]
  rfl

theorem typeText_written (t : TypeTable) (ret : TypeId) (params : List TypeId) (variadic : Bool) :
    typeText (t.written (.function ret params variadic)) =
      String.ofList (t.normal ret ++ t.paramText params variadic) := by
  rw [typeText, dropNumbers_written, dropBlanks_params, paramText_eq]
  rfl

/-! ## Receivers -/

/-- The text is an identifier: letters, digits and underscores, and no digit first. -/
def IsIdentifier (text : String) : Prop :=
  (∃ c, text.toList.head? = some c ∧ c.isDigit = false) ∧
    ∀ c ∈ text.toList, (c.isAlphanum || c = '_') = true

def IsClassPointer (t : TypeTable) (id : TypeId) (name : String) : Prop :=
  IsIdentifier name ∧ ∃ struct fields bodiless, t.get? id = some (.pointer struct) ∧
    t.get? struct = some (.struct (some ("class." ++ name)) fields bodiless)

theorem IsIdentifier.inName {name : String} (h : IsIdentifier name) :
    ∀ c ∈ name.toList, inName c = true := by
  intro c hc
  have hall : ['*', ',', '(', ')'].all (fun c => !(c.isAlphanum || c = '_')) = true := by decide
  have hno : c ∉ ['*', ',', '(', ')'] := by
    intro hmark
    have := List.all_eq_true.1 hall c hmark
    simp [h.2 c hc] at this
  simpa [Normal.inName, and_assoc] using hno

theorem IsIdentifier.noPoint {name : String} (h : IsIdentifier name) : '.' ∉ name.toList := by
  intro hpoint
  have := h.2 '.' hpoint
  simp at this

theorem IsIdentifier.dropNumbers_class {name : String} (h : IsIdentifier name) (lead : List Char)
    (hlead : '.' ∉ lead) :
    dropNumbers (lead ++ '.' :: name.toList) = lead ++ '.' :: name.toList := by
  obtain ⟨c, hc, hdigit⟩ := h.1
  rw [dropNumbers_append_of_noPoint hlead, dropNumbers_point (by rw [hc]; exact hdigit),
    dropNumbers_of_noPoint h.noPoint]

section

variable (ht : t.Valid) (hnames : t.PlainNames)

include ht hnames

theorem paren_mem_normal_iff (hid : id.index < t.size) :
    '(' ∈ t.normal id ↔ t.ShowsFunction id := by
  refine ht.induct (P := fun id => '(' ∈ t.normal id ↔ t.ShowsFunction id) ?_ id hid
  intro id ty hty ih
  rw [normal_eq ht hnames hty,
    Ty.paren_mem_normalOf_iff fun name hname => hnames.isNameChar_bare hty hname]
  constructor
  · rintro (hfunction | ⟨part, hpart, hparen⟩)
    · exact .function (by rw [isFunction, hty]; exact hfunction)
    · exact .part hty hpart ((ih part hpart).1 hparen)
  · intro hshows
    cases hshows with
    | function h =>
      rw [isFunction, hty] at h
      exact .inl h
    | part h hpart hshows =>
      cases hty.symm.trans h
      exact .inr ⟨_, hpart, (ih _ hpart).2 hshows⟩

theorem closed_normal (hid : id.index < t.size) : Closed (t.normal id) := by
  refine ht.induct (P := fun id => Closed (t.normal id)) ?_ id hid
  intro id ty hty ih
  rw [normal_eq ht hnames hty]
  refine Ty.closed_normalOf (fun name hname => hnames.isNameChar_bare hty hname) ?_
  intro part hpart
  obtain ⟨u, hu, rfl⟩ := List.mem_map.1 hpart
  exact ih u hu

theorem exists_paren (hid : id.index < t.size) (hshows : t.ShowsFunction id) :
    ∃ lead params rest, dropNumbers (t.print id).toList = lead ++ '(' :: (params ++ ')' :: rest) ∧
      '(' ∉ lead := by
  have hparen : '(' ∈ dropNumbers (t.print id).toList :=
    (List.mem_filter.1 ((paren_mem_normal_iff ht hnames hid).2 hshows)).1
  obtain ⟨lead, behind, heq, hlead⟩ := List.eq_append_cons_of_mem hparen
  have hclosed := closed_normal ht hnames hid
  rw [normal, chars, heq, dropBlanks, List.filter_append, List.filter_cons_of_pos (by decide)]
    at hclosed
  obtain ⟨params, rest, rfl⟩ := List.append_of_mem (List.mem_filter.1 hclosed.mem).1
  exact ⟨lead, params, rest, heq, hlead⟩

theorem normal_signatureText (hret : ret.index < t.size) (hshows : t.ShowsFunction ret) :
    ∃ lead, ∀ params variadic, Normal.signatureText (t.written (.function ret params variadic)) =
      String.ofList (lead ++ t.paramText params variadic) := by
  obtain ⟨lead, inner, rest, hprint, hlead⟩ := exists_paren ht hnames hret hshows
  refine ⟨dropBlanks (lead ++ '(' :: ((afterReceiver? inner).getD inner ++ ')' :: rest)), ?_⟩
  intro params variadic
  have hkept : ∀ behind : List Char, (afterReceiver? (inner ++ ')' :: behind)).getD
      (inner ++ ')' :: behind) = (afterReceiver? inner).getD inner ++ ')' :: behind := by
    intro behind
    rw [afterReceiver?_append]
    cases afterReceiver? inner <;> rfl
  have hdrop := dropReceiver_eq hlead
    (inner ++ ')' :: (rest ++ ' ' :: '(' :: dropNumbers (t.listText params variadic)))
  rw [hkept] at hdrop
  have htext : ∀ inner : List Char, lead ++ '(' :: (inner ++ ')' :: (rest ++ ' ' :: '(' ::
      dropNumbers (t.listText params variadic))) = (lead ++ '(' :: (inner ++ ')' :: rest)) ++
        ' ' :: '(' :: dropNumbers (t.listText params variadic) := by
    intro inner
    simp
  rw [htext, htext, ← hprint] at hdrop
  rw [Normal.signatureText, dropNumbers_written, hdrop, dropBlanks_params, paramText_eq]
  rfl

omit hnames in
theorem print_classPointer {name : String} (h : t.IsClassPointer id name) :
    (t.print id).toList = "%class.".toList ++ (name.toList ++ ['*']) := by
  obtain ⟨-, struct, fields, bodiless, hpointer, hstruct⟩ := h
  rw [print_eq ht hpointer, written]
  simp [Ty.textOf, Ty.shown, Ty.parts, print_eq ht hstruct, written]

omit hnames in
theorem dropNumbers_classPointer {name : String} (h : t.IsClassPointer id name) (rest : List Char) :
    dropNumbers ((t.print id).toList ++ rest) =
      "%class.".toList ++ (name.toList ++ '*' :: dropNumbers rest) := by
  have htext : (t.print id).toList ++ rest =
      ("%class".toList ++ '.' :: name.toList) ++ '*' :: rest := by
    rw [print_classPointer ht h]
    simp
  rw [htext, dropNumbers_append (apart_cons (by simp) _), h.1.dropNumbers_class _ (by decide),
    dropNumbers_cons (by decide)]
  simp

omit hnames in
theorem normal_signatureText_method {name : String} (hreceiver : t.IsClassPointer id name)
    (hret : '(' ∉ t.normal ret) (params : List TypeId) (variadic : Bool) :
    Normal.signatureText (t.written (.function ret (id :: params) variadic)) =
      String.ofList (t.normal ret ++ t.paramText params variadic) := by
  have hne : name.toList ≠ [] := by
    obtain ⟨c, hc, -⟩ := hreceiver.1.1
    intro hnil
    rw [hnil] at hc
    cases hc
  have hlead : '(' ∉ dropNumbers (t.print ret).toList ++ [' '] := by
    intro hparen
    rcases List.mem_append.1 hparen with hparen | hparen
    · exact hret (List.mem_filter.2 ⟨hparen, by decide⟩)
    · exact absurd hparen (by decide)
  -- the receiver is followed by the end of the list or by a comma
  obtain ⟨rest, hrest, hafter⟩ : ∃ rest, dropBlanks rest = chars (t.listText params variadic) ∧
      afterReceiver? (dropNumbers (t.listText (id :: params) variadic)) = some rest := by
    rcases listText_cons t id params variadic with ⟨hlist, hnone⟩ | hlist
    · refine ⟨[')'], ?_, ?_⟩
      · rw [hnone, chars_of_noPoint (by decide)]
      · rw [hlist, dropNumbers_classPointer ht hreceiver, afterReceiver?_class hreceiver.1.inName,
          dropNumbers_of_noPoint (by decide), behindStar?_star hne (by decide)]
    · refine ⟨' ' :: dropNumbers (t.listText params variadic), rfl, ?_⟩
      rw [hlist, dropNumbers_classPointer ht hreceiver, afterReceiver?_class hreceiver.1.inName,
        dropNumbers_cons (by decide), dropNumbers_cons (by decide), behindStar?_comma hne]
  have hdrop := dropReceiver_eq hlead (dropNumbers (t.listText (id :: params) variadic))
  rw [hafter, Option.getD_some, List.append_assoc, List.append_assoc] at hdrop
  rw [Normal.signatureText, dropNumbers_written]
  change String.ofList (dropBlanks (dropReceiver (dropNumbers (t.print ret).toList ++ ([' '] ++
    '(' :: dropNumbers (t.listText (id :: params) variadic))))) = _
  rw [hdrop]
  change String.ofList (dropBlanks (dropNumbers (t.print ret).toList ++ ' ' :: '(' :: rest)) = _
  rw [dropBlanks_params, hrest, paramText_eq]
  rfl

theorem read_params {lead lead' : List Char} {params' : List TypeId} {variadic' : Bool}
    (hparams : ∀ a ∈ params, a.index < t.size) (hparams' : ∀ b ∈ params', b.index < t.size)
    (h : lead ++ t.paramText params variadic = lead' ++ t.paramText params' variadic') :
    List.Forall₂ t.Alike params params' := by
  have hback := congrArg List.reverse h
  simp only [List.reverse_append, reverse_paramText, List.cons_append, List.append_assoc,
    List.nil_append, List.cons.injEq, true_and] at hback
  obtain ⟨hitems, -⟩ := read_items ht hnames
    (fun a ha => ⟨hparams a (mem_of_mem_itemsBack ha),
      reads ht hnames (hparams a (mem_of_mem_itemsBack ha))⟩)
    (fun b hb => hparams' b (mem_of_mem_itemsBack hb)) (by decide) hback
  exact (of_itemsBack hitems).2

omit ht hnames in
theorem name_eq_of_alike {a b : TypeId} {name name' : String} (ha : t.IsClassPointer a name)
    (hb : t.IsClassPointer b name') (h : t.Alike a b) : name = name' := by
  have hbare : ∀ {name : String}, IsIdentifier name →
      bare ("class." ++ name).toList = "class".toList ++ '.' :: name.toList := by
    intro name hname
    have htext : ("class." ++ name).toList = "class".toList ++ '.' :: name.toList := by simp
    rw [← dropNumbers_eq_bare, htext, hname.dropNumbers_class _ (by decide)]
  obtain ⟨hname, struct, fields, bodiless, hpointer, hstruct⟩ := ha
  obtain ⟨hname', struct', fields', bodiless', hpointer', hstruct'⟩ := hb
  cases h with
  | intro ha hb hlike =>
    cases hpointer.symm.trans ha
    cases hpointer'.symm.trans hb
    cases hlike with
    | pointer h =>
      cases h with
      | intro ha hb hlike =>
        cases hstruct.symm.trans ha
        cases hstruct'.symm.trans hb
        cases hlike with
        | named h =>
          rw [hbare hname, hbare hname'] at h
          exact String.toList_injective (List.cons.inj (List.append_cancel_left h)).2

variable {m m' c d : TypeId} {name name' : String}
  (hm : t.get? m = some (.function ret (c :: params) variadic)) (hc : t.IsClassPointer c name)

include hm hc

theorem signatureText_method (hnone : ¬ t.ShowsFunction ret) :
    t.signatureText m = String.ofList (t.normal ret ++ t.paramText params variadic) := by
  have hret : ret.index < t.size := ht.exists_shown hm (.head _)
  rw [signatureText, print_eq ht hm]
  exact normal_signatureText_method ht hc (mt (paren_mem_normal_iff ht hnames hret).1 hnone) params
    variadic

theorem signatureText_eq_typeText_iff :
    t.signatureText m = typeText (t.written (.function ret params variadic)) ↔
      ¬ t.ShowsFunction ret := by
  rw [typeText_written]
  refine ⟨fun h hshows => ?_, signatureText_method ht hnames hm hc⟩
  have hparams : ∀ a ∈ c :: params, a.index < t.size := fun a ha => ht.exists_shown hm (.tail _ ha)
  obtain ⟨lead, hlead⟩ :=
    normal_signatureText ht hnames (ht.exists_shown hm (.head _)) hshows
  rw [signatureText, print_eq ht hm, hlead, String.ofList_inj] at h
  have hlength := (read_params ht hnames hparams (fun a ha => hparams a (.tail _ ha)) h).length_eq
  simp at hlength

/-- Methods of different classes have the same signature if and only if their return type shows no
function type. -/
theorem signatureText_eq_signatureText_iff
    (hm' : t.get? m' = some (.function ret (d :: params) variadic))
    (hd : t.IsClassPointer d name') :
    t.signatureText m = t.signatureText m' ↔ name = name' ∨ ¬ t.ShowsFunction ret := by
  have hparams : ∀ a ∈ c :: params, a.index < t.size := fun a ha => ht.exists_shown hm (.tail _ ha)
  have hparams' : ∀ a ∈ d :: params, a.index < t.size := fun a ha =>
    ht.exists_shown hm' (.tail _ ha)
  constructor
  · intro h
    by_contra hnot
    obtain ⟨hne, hshows⟩ := not_or.1 hnot
    obtain ⟨lead, hlead⟩ :=
      normal_signatureText ht hnames (ht.exists_shown hm (.head _)) (not_not.1 hshows)
    rw [signatureText, signatureText, print_eq ht hm, print_eq ht hm', hlead, hlead,
      String.ofList_inj] at h
    have halike := (List.forall₂_cons.1 (read_params ht hnames hparams hparams' h)).1
    exact hne (name_eq_of_alike hc hd halike)
  · rintro (rfl | hnone)
    · have hprint : t.print c = t.print d :=
        String.toList_injective ((print_classPointer ht hc).trans (print_classPointer ht hd).symm)
      rw [signatureText, signatureText, print_eq ht hm, print_eq ht hm', written, written]
      simp only [Ty.shown, Ty.parts, List.map_cons, hprint, Ty.textOf]
    · exact (signatureText_method ht hnames hm hc hnone).trans
        (signatureText_method ht hnames hm' hd hnone).symm

end

def printNew (t : TypeTable) (ty : Ty) : String := (t.intern ty).2.print (t.intern ty).1

/-- A method has the signature of the function without its receiver, and methods of different
classes have the same signature, if and only if the return type shows no function type. -/
theorem signatureText_method_iff {m m' c d : TypeId} {name name' : String} (ht : t.Valid)
    (hnames : t.PlainNames) (hm : t.get? m = some (.function ret (c :: params) variadic))
    (hm' : t.get? m' = some (.function ret (d :: params) variadic))
    (hc : t.IsClassPointer c name) (hd : t.IsClassPointer d name') :
    (t.signatureText m = typeText (t.printNew (.function ret params variadic)) ↔
        ¬ t.ShowsFunction ret) ∧
      (t.signatureText m = t.signatureText m' ↔ name = name' ∨ ¬ t.ShowsFunction ret) := by
  have hparts : ∀ part ∈ (Ty.function ret params variadic).parts, part.index < t.size := by
    intro part hpart
    rcases List.mem_cons.1 hpart with rfl | hpart
    · exact ht.exists_shown hm (.head _)
    · exact ht.exists_shown hm (.tail _ (.tail _ hpart))
  rw [printNew, ht.print_intern rfl hparts]
  exact ⟨signatureText_eq_typeText_iff ht hnames hm hc,
    signatureText_eq_signatureText_iff ht hnames hm hc hm' hd⟩

/-! ## Methods that return function pointers -/

/-- Methods of two classes: a pair that returns nothing, and one that returns function pointers. -/
def widgets : TypeTable :=
  ⟨#[.void, .function 0 [] false, .pointer 1, .struct (some "class.Button") [] true,
    .struct (some "class.Window") [] true, .pointer 3, .pointer 4,
    .function 0 [5, 2] false, .function 0 [6, 2] false,
    .function 2 [5] false, .function 2 [6] false]⟩

theorem valid_widgets : widgets.Valid := by decide

theorem plainNames_widgets : widgets.PlainNames := by decide +kernel

theorem isClassPointer_button : widgets.IsClassPointer 5 "Button" :=
  ⟨⟨⟨'B', rfl, by decide⟩, List.all_eq_true.1 (by decide)⟩, 3, [], true, rfl, rfl⟩

theorem isClassPointer_window : widgets.IsClassPointer 6 "Window" :=
  ⟨⟨⟨'W', rfl, by decide⟩, List.all_eq_true.1 (by decide)⟩, 4, [], true, rfl, rfl⟩

theorem signatureText_method_iff_widgets :
    widgets.signatureText 7 = typeText (widgets.printNew (.function 0 [2] false)) ∧
      widgets.signatureText 7 = widgets.signatureText 8 := by
  have hvoid : ¬ widgets.ShowsFunction 0 := by
    intro hshows
    cases hshows with
    | function h => cases h
    | part h hpart _ =>
      cases h
      cases hpart
  have hbutton : widgets.get? 7 = some (.function 0 [5, 2] false) := rfl
  have hwindow : widgets.get? 8 = some (.function 0 [6, 2] false) := rfl
  have hmethod := signatureText_method_iff valid_widgets plainNames_widgets hbutton hwindow
    isClassPointer_button isClassPointer_window
  exact ⟨hmethod.1.2 hvoid, hmethod.2.2 (.inr hvoid)⟩

/-- A method that returns a function pointer keeps its receiver, so its signature is neither that of
the function without it nor that of the method of another class. -/
theorem signatureText_ne_widgets :
    widgets.signatureText 9 ≠ typeText (widgets.printNew (.function 2 [] false)) ∧
      widgets.signatureText 9 ≠ widgets.signatureText 10 := by
  have hshows : widgets.ShowsFunction 2 := .part rfl (.head _) (.function rfl)
  have hbutton : widgets.get? 9 = some (.function 2 [5] false) := rfl
  have hwindow : widgets.get? 10 = some (.function 2 [6] false) := rfl
  have hparts : ∀ part ∈ (Ty.function 2 [] false).parts, part.index < widgets.size := by decide
  constructor
  · rw [printNew, valid_widgets.print_intern rfl hparts]
    intro h
    exact (signatureText_eq_typeText_iff valid_widgets plainNames_widgets hbutton
      isClassPointer_button).1 h hshows
  · intro h
    rcases (signatureText_eq_signatureText_iff valid_widgets plainNames_widgets hbutton
      isClassPointer_button hwindow isClassPointer_window).1 h with hname | hnone
    · exact absurd hname (by decide)
    · exact hnone hshows

end TypeTable

end CallTargets
