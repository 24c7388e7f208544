import CallTargets.Json.Reader
import CallTargets.Proofs.Json.Token
import Mathlib.Logic.Relation

/-!
# Reading written text

The reader is a machine that takes one token after another (`Reading.Step`). Over the text of a
value it runs from a state where a value is due to one behind it (`Plain.readable`), whatever
follows and whichever arrays and objects are open. So the text of a value is read as the value
(`parse?_render`). Numbers that are kept as they were written are left out, as they need not be
numerals (`Plain`).
-/

namespace CallTargets.Json

open Relation

/-- A value in which all numbers are integers. -/
inductive Plain : Json → Prop where
  | null : Plain .null
  | bool (b : Bool) : Plain (.bool b)
  | int (n : Int) : Plain (.int n)
  | str (text : Option String) : Plain (.str text)
  | arr {items : List Json} (h : ∀ j ∈ items, Plain j) : Plain (.arr items)
  | obj {fields : List (Option String × Json)} (h : ∀ f ∈ fields, Plain f.2) : Plain (.obj fields)

/-! ## The machine -/

/-- A state of the reader: the text that is left, the open frames, and what may come next. -/
structure Reading where
  text : List Char
  frames : List Frame
  awaiting : Awaiting

inductive Reading.Step : Reading → Reading → Prop where
  | token {text rest : List Char} {token : Token} {frames frames' : List Frame}
      {awaiting awaiting' : Awaiting} (hnext : Token.next? text = some (token, rest))
      (hrest : rest.length < text.length)
      (hstep : step? token frames awaiting = some (frames', awaiting')) :
      Step ⟨text, frames, awaiting⟩ ⟨rest, frames', awaiting'⟩

abbrev Reading.Run : Reading → Reading → Prop := ReflTransGen Reading.Step

theorem isBlank_of_next? {c : Char} {text : List Char} {found : Token × List Char}
    (h : Token.next? (c :: text) = some found) : Token.isBlank c = false := by
  by_contra hblank
  simp only [Token.isBlank, Bool.not_eq_false, Bool.or_eq_true, decide_eq_true_eq] at hblank
  rcases hblank with ((rfl | rfl) | rfl) | rfl <;> cases h

theorem scanUpTo_succ {count : Nat} {text rest : List Char} {token : Token}
    (h : Token.next? text = some (token, rest)) :
    Token.scanUpTo (count + 1) text = (Token.scanUpTo count rest).map (token :: ·) := by
  cases text with
  | nil => cases h
  | cons c text =>
    rw [Token.scanUpTo, List.dropWhile_cons_of_neg (by simp [isBlank_of_next? h])]
    simp only [h]
    rw [Option.map_eq_bind]
    rfl

/-- A run over a whole text to a value yields the value. Each step takes a character at least, so
there is room for all tokens. -/
theorem build?_of_run {s : Reading} {j : Json} (h : s.Run ⟨[], [], .after j⟩) {count : Nat}
    (hcount : s.text.length ≤ count) :
    (Token.scanUpTo count s.text).bind (build? · s.frames s.awaiting) = some j := by
  induction h using ReflTransGen.head_induction_on generalizing count with
  | refl =>
    have hscan : Token.scanUpTo count [] = some [] := by
      cases count with
      | zero => rfl
      | succ count => rfl
    rw [hscan]
    rfl
  | head hstep _ ih =>
    cases hstep with
    | @token text rest _ _ _ _ _ hnext hrest hstep =>
      dsimp only at hcount ih ⊢
      obtain ⟨count, rfl⟩ : ∃ n, count = n + 1 := ⟨count - 1, by omega⟩
      have hroom : rest.length ≤ count := by omega
      rw [scanUpTo_succ hnext, Option.bind_map, ← ih hroom]
      congr 1
      funext tokens
      rw [Function.comp_apply, build?, hstep]
      rfl

/-! ## Values -/

/-- A value is due inside the frames. An array that was just opened may also end. -/
def Due (frames : List Frame) (awaiting : Awaiting) (inside : List Frame) : Prop :=
  ∀ token, token ≠ .closeArr → step? token frames awaiting = begin? token inside

theorem due_value (frames : List Frame) : Due frames .value frames := fun _ _ => rfl

theorem due_item (frames : List Frame) : Due frames .item (.arr [] :: frames) := by
  intro token htoken
  cases token with
  | closeArr => exact absurd rfl htoken
  | _ => rfl

/-- The reader runs over the text of the value, wherever it is due. -/
def Readable (j : Json) : Prop :=
  ∀ rest frames awaiting inside, Delimited rest → Due frames awaiting inside →
    Reading.Run ⟨write j rest, frames, awaiting⟩ ⟨rest, inside, .after j⟩

theorem run_scalar {text rest : List Char} {token : Token} {j : Json} {frames inside : List Frame}
    {awaiting : Awaiting} (hdue : Due frames awaiting inside) (hscalar : token.scalar? = some j)
    (hnext : Token.next? text = some (token, rest)) (hrest : rest.length < text.length) :
    Reading.Run ⟨text, frames, awaiting⟩ ⟨rest, inside, .after j⟩ := by
  have hclose : token ≠ .closeArr := by
    rintro rfl
    cases hscalar
  have hbegin : begin? token inside = some (inside, .after j) := by
    cases token <;> cases hscalar <;> rfl
  exact .single (.token hnext hrest ((hdue token hclose).trans hbegin))

section Items

variable {rest : List Char} {inside : List Frame}

theorem run_writeItems {v : Json} {vs acc : List Json} {frames : List Frame} {awaiting : Awaiting}
    (h : ∀ j ∈ v :: vs, Readable j) (hdue : Due frames awaiting (.arr acc :: inside)) :
    Reading.Run ⟨writeItems (v :: vs) (']' :: rest), frames, awaiting⟩
      ⟨rest, inside, .after (.arr (acc.reverse ++ v :: vs))⟩ := by
  induction vs generalizing v acc frames awaiting with
  | nil =>
    have hv := h v List.mem_cons_self (']' :: rest) _ _ _ (delimited_closeArr rest) hdue
    rw [writeItems]
    refine hv.tail (.token rfl (Nat.lt_succ_self _) ?_)
    rw [← List.reverse_cons]
    rfl
  | cons w vs ih =>
    have hv := h v List.mem_cons_self (',' :: writeItems (w :: vs) (']' :: rest)) _ _ _
      (delimited_comma _) hdue
    have hrest : Reading.Run ⟨writeItems (w :: vs) (']' :: rest), .arr (v :: acc) :: inside, .value⟩
        ⟨rest, inside, .after (.arr ((v :: acc).reverse ++ w :: vs))⟩ :=
      ih (fun j hj => h j (List.mem_cons_of_mem v hj)) (due_value _)
    rw [writeItems]
    · rw [List.reverse_cons, List.append_assoc] at hrest
      exact (hv.tail (.token rfl (Nat.lt_succ_self _) rfl)).trans hrest
    · nofun

theorem run_writeField (k : Option String) {v : Json} {acc : List (Option String × Json)}
    {awaiting : Awaiting} (hv : Readable v) (hrest : Delimited rest)
    (hname : ∀ name, step? (.str name) inside awaiting = some (inside, .colon acc name)) :
    Reading.Run ⟨writeString k (':' :: write v rest), inside, awaiting⟩
      ⟨rest, .obj acc k :: inside, .after v⟩ := by
  have hvalue := hv rest _ _ _ hrest (due_value (.obj acc k :: inside))
  refine .head (.token (next?_writeString k _) (length_lt_writeString k _) (hname k)) ?_
  exact .head (.token rfl (Nat.lt_succ_self _) rfl) hvalue

theorem run_writeFields {k : Option String} {v : Json} {fs acc : List (Option String × Json)}
    {awaiting : Awaiting} (h : ∀ f ∈ (k, v) :: fs, Readable f.2)
    (hname : ∀ name, step? (.str name) inside awaiting = some (inside, .colon acc name)) :
    Reading.Run ⟨writeFields ((k, v) :: fs) ('\x7d' :: rest), inside, awaiting⟩
      ⟨rest, inside, .after (.obj (acc.reverse ++ (k, v) :: fs))⟩ := by
  induction fs generalizing k v acc awaiting with
  | nil =>
    have hfield := run_writeField k (h (k, v) List.mem_cons_self) (delimited_closeObj rest) hname
    rw [writeFields]
    refine hfield.tail (.token rfl (Nat.lt_succ_self _) ?_)
    rw [← List.reverse_cons]
    rfl
  | cons f fs ih =>
    obtain ⟨k', v'⟩ := f
    have hfield := run_writeField k (h (k, v) List.mem_cons_self)
      (delimited_comma (writeFields ((k', v') :: fs) ('\x7d' :: rest))) hname
    have hrest : Reading.Run
        ⟨writeFields ((k', v') :: fs) ('\x7d' :: rest), inside, .name ((k, v) :: acc)⟩
        ⟨rest, inside, .after (.obj (((k, v) :: acc).reverse ++ (k', v') :: fs))⟩ :=
      ih (fun f hf => h f (List.mem_cons_of_mem (k, v) hf)) fun _ => rfl
    rw [writeFields]
    · rw [List.reverse_cons, List.append_assoc] at hrest
      exact (hfield.tail (.token rfl (Nat.lt_succ_self _) rfl)).trans hrest
    · nofun

end Items

theorem Plain.readable {j : Json} (hj : j.Plain) : j.Readable := by
  induction hj with
  | null =>
    intro rest frames awaiting inside _ hdue
    have hnext : Token.next? (write .null rest) = some (.null, rest) := rfl
    refine run_scalar hdue rfl hnext ?_
    change rest.length < rest.length + 4
    omega
  | bool b =>
    intro rest frames awaiting inside _ hdue
    have hnext : Token.next? (write (.bool b) rest) = some (.bool b, rest) := by
      cases b with
      | true => rfl
      | false => rfl
    refine run_scalar hdue rfl hnext ?_
    cases b with
    | true =>
      change rest.length < rest.length + 4
      omega
    | false =>
      change rest.length < rest.length + 5
      omega
  | int n =>
    intro rest frames awaiting inside hrest hdue
    have hnext : Token.next? (write (.int n) rest) = some (.int n, rest) := next?_int hrest n
    refine run_scalar hdue rfl hnext ?_
    change rest.length < ((toString n).toList ++ rest).length
    rw [List.length_append]
    exact Nat.lt_add_of_pos_left (length_toString_pos n)
  | str text =>
    intro rest frames awaiting inside _ hdue
    exact run_scalar hdue rfl (next?_writeString text rest) (length_lt_writeString text rest)
  | @arr items _ ih =>
    intro rest frames awaiting inside _ hdue
    have hopen : Reading.Run ⟨write (.arr items) rest, frames, awaiting⟩
        ⟨writeItems items (']' :: rest), inside, .item⟩ :=
      .single (.token rfl (Nat.lt_succ_self _) (hdue .openArr nofun))
    cases items with
    | nil => exact hopen.tail (.token rfl (Nat.lt_succ_self _) rfl)
    | cons v vs => exact hopen.trans (run_writeItems ih (due_item inside))
  | @obj fields _ ih =>
    intro rest frames awaiting inside _ hdue
    have hopen : Reading.Run ⟨write (.obj fields) rest, frames, awaiting⟩
        ⟨writeFields fields ('\x7d' :: rest), inside, .field⟩ :=
      .single (.token rfl (Nat.lt_succ_self _) (hdue .openObj nofun))
    cases fields with
    | nil => exact hopen.tail (.token rfl (Nat.lt_succ_self _) rfl)
    | cons f fs =>
      obtain ⟨k, v⟩ := f
      have hfields : Reading.Run ⟨writeFields ((k, v) :: fs) ('\x7d' :: rest), inside, .field⟩
          ⟨rest, inside, .after (.obj (List.reverse [] ++ (k, v) :: fs))⟩ :=
        run_writeFields ih fun _ => rfl
      exact hopen.trans hfields

theorem parse?_render {j : Json} (hj : j.Plain) : parse? j.render = some j := by
  have hrun : Reading.Run ⟨write j [], [], .value⟩ ⟨[], [], .after j⟩ :=
    hj.readable [] [] .value [] delimited_nil (due_value [])
  have hread := build?_of_run hrun (Nat.le_refl _)
  rwa [parse?, render, String.toList_ofList]

end CallTargets.Json
