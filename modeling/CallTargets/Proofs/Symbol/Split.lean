import CallTargets.Symbol.Mangle
import CallTargets.Symbol.Method

/-!
# Taking printed functions apart

A printed function is cut before its parameters and behind its scope, at places where no angle
bracket is open. Both scans pass over a text that has what they look for only between angle
brackets (`beforeParams_append`, `splitScope_append`). So a function that is printed behind a scope
is taken apart at its separator if its own name has no separator outside angle brackets
(`Method.ofPrinted_eq`). Its name ends at the parenthesis of the parameters, unless an angle bracket
is open there, or the parameters look like the end of the call operator (`beforeParams_params`).
-/

namespace CallTargets.Symbol

variable {a : Int} {c : Char} {cs body name rest tail before scope : List Char}

/-! ## Angle brackets -/

/-- The nesting of angle brackets behind a text. -/
def angles (a : Int) (cs : List Char) : Int := cs.foldl angleAfter a

@[simp]
theorem angles_nil (a : Int) : angles a [] = a := rfl

@[simp]
theorem angles_cons (a : Int) (c : Char) (cs : List Char) :
    angles a (c :: cs) = angles (angleAfter a c) cs := rfl

@[simp]
theorem angles_append (a : Int) (cs ds : List Char) :
    angles a (cs ++ ds) = angles (angles a cs) ds := List.foldl_append

theorem angleAfter_of_ne (hopen : c ≠ '<') (hclose : c ≠ '>') (a : Int) : angleAfter a c = a := by
  rw [angleAfter, if_neg hopen, if_neg hclose]

theorem angles_of_plain (h : ∀ c ∈ cs, c ≠ '<' ∧ c ≠ '>') (a : Int) : angles a cs = a := by
  induction cs with
  | nil => rfl
  | cons c cs ih =>
    have hc := h c List.mem_cons_self
    rw [angles_cons, angleAfter_of_ne hc.1 hc.2, ih fun c hc => h c (List.mem_cons_of_mem _ hc)]

theorem angles_add (a b : Int) (cs : List Char) : angles (a + b) cs = a + angles b cs := by
  induction cs generalizing b with
  | nil => rfl
  | cons c cs ih =>
    have hstep : angleAfter (a + b) c = a + angleAfter b c := by
      unfold angleAfter
      split
      · omega
      · split <;> omega
    rw [angles_cons, angles_cons, hstep, ih]

/-- The character stands in the text only where an angle bracket is open. -/
def isCovered (c : Char) (a : Int) : List Char → Bool
  | [] => true
  | d :: cs => (d ≠ c || a ≠ 0) && isCovered c (angleAfter a d) cs

theorem isCovered_append (c : Char) (a : Int) (cs ds : List Char) :
    isCovered c a (cs ++ ds) = (isCovered c a cs && isCovered c (angles a cs) ds) := by
  induction cs generalizing a with
  | nil => rfl
  | cons d cs ih => rw [List.cons_append, isCovered, isCovered, ih, angles_cons, Bool.and_assoc]

theorem isCovered_of_notMem (h : c ∉ cs) (a : Int) : isCovered c a cs = true := by
  induction cs generalizing a with
  | nil => rfl
  | cons d cs ih =>
    rw [List.mem_cons, not_or] at h
    simp [isCovered, Ne.symm h.1, ih h.2]

theorem isCovered_of_plain (ha : a ≠ 0) (h : ∀ c ∈ cs, c ≠ '<' ∧ c ≠ '>') (c : Char) :
    isCovered c a cs = true := by
  induction cs with
  | nil => rfl
  | cons d cs ih =>
    have hd := h d List.mem_cons_self
    have htail := ih fun c hc => h c (List.mem_cons_of_mem _ hc)
    rw [isCovered, angleAfter_of_ne hd.1 hd.2, htail]
    simp [ha]

/-- No more angle brackets are closed than were open. -/
def staysOpen (a : Int) : List Char → Bool
  | [] => true
  | c :: cs => 0 ≤ angleAfter a c && staysOpen (angleAfter a c) cs

theorem staysOpen_append (a : Int) (cs ds : List Char) :
    staysOpen a (cs ++ ds) = (staysOpen a cs && staysOpen (angles a cs) ds) := by
  induction cs generalizing a with
  | nil => rfl
  | cons c cs ih => rw [List.cons_append, staysOpen, staysOpen, ih, angles_cons, Bool.and_assoc]

theorem angleAfter_mono {b : Int} (h : a ≤ b) (c : Char) : angleAfter a c ≤ angleAfter b c := by
  unfold angleAfter
  split
  · omega
  · split <;> omega

theorem staysOpen_mono {b : Int} (hopen : staysOpen a cs = true) (hab : a ≤ b) :
    staysOpen b cs = true := by
  induction cs generalizing a b with
  | nil => rfl
  | cons c cs ih =>
    have hle := angleAfter_mono hab c
    rw [staysOpen, Bool.and_eq_true, decide_eq_true_eq] at hopen ⊢
    exact ⟨by omega, ih hopen.2 hle⟩

theorem isCovered_of_staysOpen (ha : 0 ≤ a) (hopen : staysOpen a cs = true) (c : Char) :
    isCovered c (a + 1) cs = true := by
  induction cs generalizing a with
  | nil => rfl
  | cons d cs ih =>
    rw [staysOpen, Bool.and_eq_true, decide_eq_true_eq] at hopen
    have hstep : angleAfter (a + 1) d = angleAfter a d + 1 := by
      unfold angleAfter
      split
      · omega
      · split <;> omega
    have hne : a + 1 ≠ 0 := by omega
    rw [isCovered, hstep, ih hopen.1 hopen.2]
    simp [hne]

/-- The angle brackets of the text match. -/
structure Balanced (cs : List Char) : Prop where
  level : angles 0 cs = 0
  staysOpen : staysOpen 0 cs = true

namespace Balanced

theorem of_plain (h : ∀ c ∈ cs, c ≠ '<' ∧ c ≠ '>') : Balanced cs := by
  refine ⟨angles_of_plain h 0, ?_⟩
  induction cs with
  | nil => rfl
  | cons c cs ih =>
    have hc := h c List.mem_cons_self
    rw [Symbol.staysOpen, angleAfter_of_ne hc.1 hc.2,
      ih fun c hc => h c (List.mem_cons_of_mem _ hc)]
    rfl

theorem append {ds : List Char} (hcs : Balanced cs) (hds : Balanced ds) : Balanced (cs ++ ds) := by
  refine ⟨?_, ?_⟩
  · rw [angles_append, hcs.level, hds.level]
  · rw [staysOpen_append, hcs.staysOpen, hcs.level, hds.staysOpen]
    rfl

end Balanced

def IsArgs (cs : List Char) : Prop := ∃ body, Balanced body ∧ cs = '<' :: body ++ ['>']

namespace IsArgs

variable {args : List Char}

theorem angles_eq (h : IsArgs args) : angles 0 args = 0 := by
  obtain ⟨body, hbody, rfl⟩ := h
  have hinner : angles 1 body = 1 + angles 0 body := angles_add 1 0 body
  rw [List.cons_append, angles_cons, angles_append]
  change angles (angles 1 body) ['>'] = 0
  rw [hinner, hbody.level]
  rfl

theorem balanced (h : IsArgs args) : Balanced args := by
  refine ⟨h.angles_eq, ?_⟩
  obtain ⟨body, hbody, rfl⟩ := h
  have hinner : angles 1 body = 1 + angles 0 body := angles_add 1 0 body
  have hopen : staysOpen 1 body = true := staysOpen_mono hbody.staysOpen (by omega)
  change (staysOpen 1 (body ++ ['>'])) = true
  rw [staysOpen_append, hopen, hinner, hbody.level]
  rfl

theorem isCovered (h : IsArgs args) (hc : c ≠ '<') : isCovered c 0 args = true := by
  obtain ⟨body, hbody, rfl⟩ := h
  have hinner : angles 1 body = 1 + angles 0 body := angles_add 1 0 body
  have hcovered : Symbol.isCovered c 1 body = true :=
    isCovered_of_staysOpen (a := 0) (by omega) hbody.staysOpen c
  have hlast : Symbol.isCovered c 1 ['>'] = true := by simp [Symbol.isCovered]
  have htail : Symbol.isCovered c 1 (body ++ ['>']) = true := by
    rw [isCovered_append, hcovered, hinner, hbody.level]
    exact hlast
  rw [List.cons_append, Symbol.isCovered, Bool.and_eq_true, Bool.or_eq_true]
  exact ⟨.inl (decide_eq_true (Ne.symm hc)), htail⟩

end IsArgs

/-! ## Before the parameters -/

@[simp]
theorem beforeParams_nil (before : List Char) (a : Int) :
    beforeParams before a [] = before.reverse := rfl

theorem beforeParams_cons (h : c = '(' → a ≠ 0) (before rest : List Char) :
    beforeParams before a (c :: rest) = beforeParams (c :: before) (angleAfter a c) rest := by
  by_cases hc : c = '('
  · subst hc
    rw [angleAfter_of_ne (by decide) (by decide)]
    by_cases hrest : ∃ rest', rest = ')' :: rest'
    · obtain ⟨rest', rfl⟩ := hrest
      rw [beforeParams, if_neg (h rfl)]
    · rw [beforeParams, if_neg (h rfl)]
      exact fun rest' heq => hrest ⟨rest', heq⟩
  · rw [beforeParams]
    exact hc

theorem beforeParams_append (h : isCovered '(' a cs = true) (before tail : List Char) :
    beforeParams before a (cs ++ tail) =
      beforeParams (cs.reverse ++ before) (angles a cs) tail := by
  induction cs generalizing a before with
  | nil => rfl
  | cons c cs ih =>
    rw [isCovered, Bool.and_eq_true, Bool.or_eq_true, decide_eq_true_eq, decide_eq_true_eq] at h
    have hstep : c = '(' → a ≠ 0 := fun hc => h.1.resolve_left fun hne => hne hc
    rw [List.cons_append, beforeParams_cons hstep, ih h.2, angles_cons, List.reverse_cons,
      List.append_assoc, List.singleton_append]

theorem beforeParams_of_isCovered (h : isCovered '(' a cs = true) (before : List Char) :
    beforeParams before a cs = before.reverse ++ cs := by
  have hend := beforeParams_append h before []
  rw [List.append_nil] at hend
  rw [hend, beforeParams_nil, List.reverse_append, List.reverse_reverse]

def operatorWord : List Char := "operator".toList

theorem isSome_afterLead_operator (cs before : List Char) :
    (Text.afterLead operatorWord.reverse (cs.reverse ++ ':' :: before)).isSome = true ↔
      operatorWord <:+ cs := by
  rw [Text.afterLead_append (by decide), Option.isSome_map, Text.isSome_afterLead_iff,
    List.reverse_prefix]

theorem beforeParams_call (before rest : List Char) :
    beforeParams before 0 ('(' :: ')' :: rest) =
      if (Text.afterLead operatorWord.reverse before).isSome then
        beforeParams (')' :: '(' :: before) 0 rest
      else before.reverse := rfl

theorem beforeParams_stop
    (h : (Text.afterLead operatorWord.reverse before).isSome = true → rest.head? ≠ some ')') :
    beforeParams before 0 ('(' :: rest) = before.reverse := by
  by_cases hrest : ∃ rest', rest = ')' :: rest'
  · obtain ⟨rest', rfl⟩ := hrest
    rw [beforeParams_call, if_neg fun hlead => h hlead rfl]
  · rw [beforeParams, if_pos rfl]
    exact fun rest' heq => hrest ⟨rest', heq⟩

/-- The parameters of a function begin at the first parenthesis outside angle brackets, if it is
not taken for that of the call operator. -/
theorem beforeParams_params (hlevel : angles 0 name = 0) (hcovered : isCovered '(' 0 name = true)
    (hname : operatorWord <:+ name → rest.head? ≠ some ')') (before : List Char) :
    beforeParams (':' :: before) 0 (name ++ '(' :: rest) = before.reverse ++ ':' :: name := by
  have hstop := beforeParams_stop fun hlead =>
    hname ((isSome_afterLead_operator name before).1 hlead)
  rw [beforeParams_append hcovered, hlevel, hstop]
  simp

/-- The parentheses of the call operator are passed over, and so are those of a function without
parameters whose name ends in the same word. -/
theorem beforeParams_operator (hlevel : angles 0 name = 0)
    (hcovered : isCovered '(' 0 name = true) (hname : operatorWord <:+ name)
    (before rest : List Char) :
    beforeParams (':' :: before) 0 (name ++ '(' :: ')' :: rest) =
      beforeParams (')' :: '(' :: (name.reverse ++ ':' :: before)) 0 rest := by
  have hlead := (isSome_afterLead_operator name before).2 hname
  rw [beforeParams_append hcovered, hlevel, beforeParams_call, if_pos hlead]

/-! ## Behind the scope -/

theorem splitScope_cons (h : c = ':' → a ≠ 0) (before : List Char)
    (found : Option (List Char × List Char)) (rest : List Char) :
    splitScope before a found (c :: rest) =
      splitScope (c :: before) (angleAfter a c) found rest := by
  by_cases hrest : c = ':' ∧ ∃ rest', rest = ':' :: rest'
  · obtain ⟨rfl, rest', rfl⟩ := hrest
    rw [splitScope, if_neg (h rfl), angleAfter_of_ne (by decide) (by decide)]
  · rw [splitScope]
    exact fun rest' hc heq => hrest ⟨hc, rest', heq⟩

theorem splitScope_append (h : isCovered ':' a cs = true) (before : List Char)
    (found : Option (List Char × List Char)) (tail : List Char) :
    splitScope before a found (cs ++ tail) =
      splitScope (cs.reverse ++ before) (angles a cs) found tail := by
  induction cs generalizing a before with
  | nil => rfl
  | cons c cs ih =>
    rw [isCovered, Bool.and_eq_true, Bool.or_eq_true, decide_eq_true_eq, decide_eq_true_eq] at h
    have hstep : c = ':' → a ≠ 0 := fun hc => h.1.resolve_left fun hne => hne hc
    rw [List.cons_append, splitScope_cons hstep, ih h.2, angles_cons, List.reverse_cons,
      List.append_assoc, List.singleton_append]

theorem splitScope_separator (before : List Char) (found : Option (List Char × List Char))
    (tail : List Char) : splitScope before 0 found (':' :: ':' :: tail) =
      splitScope (':' :: ':' :: before) 0 (some (before.reverse, tail)) tail := rfl

/-! ## Scopes -/

theorem Identifier.plain (x : Identifier) : ∀ c ∈ x.chars, c ≠ '<' ∧ c ≠ '>' := by
  intro c hc
  refine ⟨?_, ?_⟩ <;>
  · rintro rfl
    exact x.notMem (by decide) hc

/-- A printed component of a scope: an identifier, perhaps with template arguments. -/
def IsComponent (x : Identifier) (cs : List Char) : Prop :=
  cs = x.chars ∨ ∃ args, IsArgs args ∧ cs = x.chars ++ args

namespace IsComponent

variable {x : Identifier}

theorem angles_eq (h : IsComponent x cs) : angles 0 cs = 0 := by
  rcases h with rfl | ⟨args, hargs, rfl⟩
  · exact angles_of_plain x.plain 0
  · rw [angles_append, angles_of_plain x.plain, hargs.angles_eq]

theorem balanced (h : IsComponent x cs) : Balanced cs := by
  rcases h with rfl | ⟨args, hargs, rfl⟩
  · exact .of_plain x.plain
  · exact (Balanced.of_plain x.plain).append hargs.balanced

theorem isCovered (h : IsComponent x cs) (hc : inIdentifier c = false) (hopen : c ≠ '<') :
    isCovered c 0 cs = true := by
  rcases h with rfl | ⟨args, hargs, rfl⟩
  · exact isCovered_of_notMem (x.notMem hc) 0
  · rw [isCovered_append, isCovered_of_notMem (x.notMem hc), angles_of_plain x.plain,
      hargs.isCovered hopen]
    rfl

theorem find?_eq (h : IsComponent x cs) :
    cs.find? (fun c => !inIdentifier c) = none ∨
      cs.find? (fun c => !inIdentifier c) = some '<' := by
  have hnone : x.chars.find? (fun c => !inIdentifier c) = none := by
    rw [List.find?_eq_none]
    intro c hc
    simp [x.inIdentifier_of_mem hc]
  rcases h with rfl | ⟨args, ⟨body, -, rfl⟩, rfl⟩
  · exact .inl hnone
  · refine .inr ?_
    rw [List.find?_append, hnone, List.cons_append, List.find?_cons]
    rfl

end IsComponent

inductive IsScope : List Char → Prop where
  | top {x : Identifier} {cs : List Char} (hcs : IsComponent x cs) : IsScope cs
  | within {scope cs : List Char} {x : Identifier} (hscope : IsScope scope)
      (hcs : IsComponent x cs) : IsScope (scope ++ ':' :: ':' :: cs)

namespace IsScope

theorem angles_eq (h : IsScope scope) : angles 0 scope = 0 := by
  induction h with
  | top hcs => exact hcs.angles_eq
  | within _ hcs ih =>
    rw [angles_append, ih]
    exact hcs.angles_eq

theorem balanced (h : IsScope scope) : Balanced scope := by
  induction h with
  | top hcs => exact hcs.balanced
  | within _ hcs ih =>
    have hseparator : Balanced [':', ':'] := ⟨rfl, rfl⟩
    exact ih.append (hseparator.append hcs.balanced)

theorem isCovered (h : IsScope scope) : isCovered '(' 0 scope = true := by
  induction h with
  | top hcs => exact hcs.isCovered (by decide) (by decide)
  | within hscope hcs ih =>
    rw [isCovered_append, ih, hscope.angles_eq]
    exact hcs.isCovered (by decide) (by decide)

theorem exists_splitScope (h : IsScope scope) (found : Option (List Char × List Char))
    (tail : List Char) : ∃ found', splitScope [] 0 found (scope ++ tail) =
      splitScope scope.reverse 0 found' tail := by
  induction h generalizing tail with
  | top hcs =>
    refine ⟨found, ?_⟩
    rw [splitScope_append (hcs.isCovered (by decide) (by decide)), hcs.angles_eq, List.append_nil]
  | @within scope cs x hscope hcs ih =>
    obtain ⟨found', hfound⟩ := ih (':' :: ':' :: cs ++ tail)
    refine ⟨some (scope.reverse.reverse, cs ++ tail), ?_⟩
    rw [List.append_assoc, hfound, List.cons_append, List.cons_append, splitScope_separator,
      splitScope_append (hcs.isCovered (by decide) (by decide)), hcs.angles_eq]
    simp

theorem splitScope_eq (h : IsScope scope) (hname : Symbol.isCovered ':' 0 name = true) :
    splitScope [] 0 none (scope ++ ':' :: ':' :: name) = some (scope, name) := by
  obtain ⟨found, hfound⟩ := h.exists_splitScope none (':' :: ':' :: name)
  have hend := splitScope_append hname (':' :: ':' :: scope.reverse) (some (scope, name)) []
  rw [List.append_nil] at hend
  rw [hfound, splitScope_separator, List.reverse_reverse, hend]
  rfl

theorem find?_eq (h : IsScope scope) :
    scope.find? (fun c => !inIdentifier c) = none ∨
      scope.find? (fun c => !inIdentifier c) = some '<' ∨
      scope.find? (fun c => !inIdentifier c) = some ':' := by
  induction h with
  | top hcs => exact hcs.find?_eq.imp_right .inl
  | within _ hcs ih =>
    rw [List.find?_append]
    rcases ih with ih | ih | ih
    · rw [ih]
      exact .inr (.inr rfl)
    · rw [ih]
      exact .inr (.inl rfl)
    · rw [ih]
      exact .inr (.inr rfl)

theorem afterLead_eq_none (h : IsScope scope) (last : List Char) {lead : List Char} {c : Char}
    (hlead : lead.find? (fun c => !inIdentifier c) = some c) (hc : c ≠ '<' ∧ c ≠ ':') :
    Text.afterLead lead (scope ++ ':' :: ':' :: last) = none := by
  cases hrest : Text.afterLead lead (scope ++ ':' :: ':' :: last) with
  | none => rfl
  | some rest =>
    have hfind := congrArg (List.find? fun c => !inIdentifier c)
      (Text.afterLead_eq_some_iff.1 hrest)
    rw [List.find?_append, List.find?_append, hlead] at hfind
    rcases h.find?_eq with hnone | hopen | hsep
    · rw [hnone] at hfind
      exact absurd (Option.some.inj hfind).symm hc.2
    · rw [hopen] at hfind
      exact absurd (Option.some.inj hfind).symm hc.1
    · rw [hsep] at hfind
      exact absurd (Option.some.inj hfind).symm hc.2

end IsScope

/-! ## Functions behind a scope -/

/-- A function that is printed behind a scope belongs to it, and its name is what stands before
its parameters. -/
theorem Method.ofPrinted_eq (hscope : IsScope scope) {last : List Char}
    (hname : isCovered ':' 0 name = true)
    (hcut : beforeParams (':' :: ':' :: scope.reverse) 0 last = scope ++ ':' :: ':' :: name)
    {text : String} (htext : text.toList = scope ++ ':' :: ':' :: last) :
    Method.ofPrinted text =
      { owner := String.ofList scope, name := String.ofList name, thunk := none } := by
  have hfixed : Text.dropLead? text "non-virtual thunk to " = none := by
    rw [Text.dropLead?, htext, hscope.afterLead_eq_none last (c := '-') (by decide) (by decide)]
    rfl
  have hvirtual : Text.dropLead? text "virtual thunk to " = none := by
    rw [Text.dropLead?, htext, hscope.afterLead_eq_none last (c := ' ') (by decide) (by decide)]
    rfl
  have hcovered : isCovered '(' 0 (scope ++ [':', ':']) = true := by
    rw [isCovered_append, hscope.isCovered, hscope.angles_eq]
    rfl
  have hbefore : beforeParams [] 0 text.toList = scope ++ ':' :: ':' :: name := by
    have hpass := beforeParams_append hcovered [] last
    rw [angles_append, hscope.angles_eq] at hpass
    rw [htext, ← hcut]
    simpa [angleAfter] using hpass
  have hparts : scopeParts (String.ofList (scope ++ ':' :: ':' :: name)) =
      some (String.ofList scope, String.ofList name) := by
    rw [scopeParts, String.toList_ofList, hscope.splitScope_eq hname]
    rfl
  rw [ofPrinted, labelled, hfixed, hvirtual]
  simp only [parts, hbefore, hparts, Option.elim_some]

/-- The parameters behind a name are found: no angle bracket is open, and the parentheses do not
look like those of the call operator. -/
def isCut (name params : List Char) : Bool :=
  angles 0 name = 0 && !(operatorWord.isSuffixOf name && params.isEmpty)

theorem isCut_iff {name params : List Char} : isCut name params = true ↔
    angles 0 name = 0 ∧ ¬ (operatorWord <:+ name ∧ params = []) := by
  rw [isCut, Bool.and_eq_true, decide_eq_true_eq, Bool.not_eq_true', ← Bool.not_eq_true,
    Bool.and_eq_true, List.isSuffixOf_iff_suffix, List.isEmpty_iff]

theorem isCut_of_not_suffix (hlevel : angles 0 name = 0) (hname : ¬ operatorWord <:+ name)
    (params : List Char) : isCut name params = true :=
  isCut_iff.2 ⟨hlevel, fun h => hname h.1⟩

section Params

variable {params : List Char} (hscope : IsScope scope) (hcolon : isCovered ':' 0 name = true)
  (hparen : isCovered '(' 0 name = true) {text : String}
  (htext : text.toList = scope ++ ':' :: ':' :: (name ++ '(' :: params ++ [')']))
include hscope hcolon hparen htext

theorem Method.ofPrinted_of_isCut (hfirst : operatorWord <:+ name → params.head? ≠ some ')')
    (hcut : isCut name params = true) :
    Method.ofPrinted text =
      { owner := String.ofList scope, name := String.ofList name, thunk := none } := by
  obtain ⟨hlevel, hword⟩ := isCut_iff.1 hcut
  refine Method.ofPrinted_eq hscope hcolon ?_ htext
  have hrest : operatorWord <:+ name → (params ++ [')']).head? ≠ some ')' := by
    intro hname
    cases params with
    | nil => exact absurd ⟨hname, rfl⟩ hword
    | cons c params => exact hfirst hname
  have hbefore := beforeParams_params hlevel hparen hrest (':' :: scope.reverse)
  simpa using hbefore

theorem Method.ofPrinted_of_not_isCut (hplain : ∀ c ∈ params, c ≠ '<' ∧ c ≠ '>')
    (hcut : isCut name params = false) :
    Method.ofPrinted text =
      { owner := String.ofList scope, name := String.ofList (name ++ '(' :: params ++ [')'])
        thunk := none } := by
  by_cases hlevel : angles 0 name = 0
  · -- The name ends in the word for operators, and there are no parameters.
    have hword : operatorWord <:+ name ∧ params = [] := by
      rw [← Bool.not_eq_true, isCut_iff, not_and, Decidable.not_not] at hcut
      exact hcut hlevel
    obtain ⟨hname, rfl⟩ := hword
    refine Method.ofPrinted_eq hscope ?_ ?_ htext
    · rw [List.append_assoc, isCovered_append, hcolon, hlevel]
      rfl
    · have hbefore := beforeParams_operator hlevel hparen hname (':' :: scope.reverse) []
      rw [List.append_assoc]
      refine hbefore.trans ?_
      simp
  · -- An angle bracket is open behind the name, and none is closed in the parameters.
    have hrest : ∀ c ∈ '(' :: params ++ [')'], c ≠ '<' ∧ c ≠ '>' := by
      intro c hc
      rcases List.mem_append.1 hc with hc | hc
      · rcases List.mem_cons.1 hc with rfl | hc
        · decide
        · exact hplain c hc
      · rw [List.mem_singleton.1 hc]
        decide
    refine Method.ofPrinted_eq hscope ?_ ?_ htext
    · rw [List.append_assoc, isCovered_append, hcolon, isCovered_of_plain hlevel hrest]
      rfl
    · have hcovered : isCovered '(' 0 (name ++ '(' :: params ++ [')']) = true := by
        rw [List.append_assoc, isCovered_append, hparen, isCovered_of_plain hlevel hrest]
        rfl
      rw [beforeParams_of_isCovered hcovered]
      simp

end Params

end CallTargets.Symbol
