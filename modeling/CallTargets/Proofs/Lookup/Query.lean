import CallTargets.Proofs.Graph.Search
import CallTargets.Proofs.Ordered
import CallTargets.Proofs.Program.Valid

/-!
# Queries

A query is a computation that knows a program only through look-ups of single records and
through the numbers of records. Answering it fails at the first look-up of something that
does not exist, so a query that is answered has made look-ups in range only
(`inRange_of_answer?`). An analysis that is answered as a query with its own result never
looks outside.

The combinators come with lemmas that carry answers of parts over to wholes: to lists
(`answer?_each`, `answer?_fold_of_keeps`) and to searches (`answer?_search_of_keeps`).
-/

namespace CallTargets

inductive Lookup where
  | type (t : TypeId)
  | value (v : ValueId)
  | users (v : ValueId)
  | function (f : FunctionId)
  | global (g : GlobalId)
  | module (m : ModuleId)
  | block (f : FunctionId) (b : BlockId)
  deriving DecidableEq, Repr

namespace Lookup

def Record : Lookup → Type
  | type _ => Ty
  | value _ => Value
  | users _ => List ValueId
  | function _ => Function
  | global _ => Global
  | module _ => Module
  | block _ _ => Block

/-- The name stands for a record of the program. -/
def InRange (p : Program) : Lookup → Prop
  | type t => p.HasType t
  | value v => p.HasValue v
  | users v => v.index < p.users.size
  | function f => p.HasFunction f
  | global g => p.HasGlobal g
  | module m => p.HasModule m
  | block f b => p.HasBlock f b

def find? (p : Program) : (l : Lookup) → Option l.Record
  | type t => p.types.get? t
  | value v => p.value? v
  | users v => p.users[v.index]?
  | function f => p.function? f
  | global g => p.global? g
  | module m => p.module? m
  | block f b => (p.function? f).bind fun fn => fn.blocks[b.index]?

theorem isSome_find?_iff {p : Program} {l : Lookup} : (l.find? p).isSome ↔ l.InRange p := by
  have harray {α : Type} {xs : Array α} {i : Nat} : xs[i]?.isSome = true ↔ i < xs.size := by simp
  have hlist {α : Type} {xs : List α} {i : Nat} : xs[i]?.isSome = true ↔ i < xs.length := by simp
  cases l with
  | block f b =>
    simp only [find?, InRange, Program.HasBlock]
    cases p.function? f with
    | none => simp
    | some fn => exact hlist
  | _ => exact harray

end Lookup

/-- How many records of a kind there are. -/
structure Counts where
  types : Nat
  values : Nat
  functions : Nat
  modules : Nat

def Program.counts (p : Program) : Counts :=
  ⟨p.types.size, p.values.size, p.functions.size, p.modules.size⟩

/-- A computation that knows a program through look-ups. -/
inductive Query (α : Type) where
  | done (a : α)
  | look (l : Lookup) (next : l.Record → Query α)
  | count (next : Counts → Query α)

namespace Query

variable {α β σ : Type}

def bind (q : Query α) (f : α → Query β) : Query β :=
  match q with
  | done a => f a
  | look l next => look l fun r => (next r).bind f
  | count next => count fun n => (next n).bind f

instance : Monad Query where
  pure := done
  bind := bind

/-- The answer to a query. There is none if it looks up what does not exist. -/
def answer? (p : Program) : Query α → Option α
  | done a => some a
  | look l next => (l.find? p).bind fun r => (next r).answer? p
  | count next => (next p.counts).answer? p

/-- The look-ups that are made to answer a query, up to one that finds nothing. -/
def lookups (p : Program) : Query α → List Lookup
  | done _ => []
  | look l next =>
    l :: match l.find? p with
      | some r => (next r).lookups p
      | none => []
  | count next => (next p.counts).lookups p

variable {p : Program}

theorem inRange_of_answer? {q : Query α} {a : α} (h : q.answer? p = some a) :
    ∀ l ∈ q.lookups p, l.InRange p := by
  induction q with
  | done b => exact fun l hl => by cases hl
  | look l next ih =>
    obtain ⟨r, hr, hnext⟩ := Option.bind_eq_some_iff.1 h
    intro l' hl'
    simp only [lookups, hr] at hl'
    rcases List.mem_cons.1 hl' with rfl | hl'
    · exact Lookup.isSome_find?_iff.1 (by rw [hr]; rfl)
    · exact ih r hnext l' hl'
  | count next ih => exact ih p.counts h

example : (look (.value 0) done).answer? {} = none := rfl

@[simp]
theorem answer?_pure (a : α) : (pure a : Query α).answer? p = some a := rfl

@[simp]
theorem answer?_bind (q : Query α) (f : α → Query β) :
    (q >>= f).answer? p = (q.answer? p).bind fun a => (f a).answer? p := by
  show (q.bind f).answer? p = _
  induction q with
  | done a => rfl
  | look l next ih =>
    simp only [bind, answer?, Option.bind_assoc]
    exact congrArg _ (funext ih)
  | count next ih => exact ih p.counts

@[simp]
theorem answer?_map (q : Query α) (f : α → β) :
    (f <$> q).answer? p = (q.answer? p).map f := by
  show (q >>= fun a => pure (f a)).answer? p = _
  rw [answer?_bind]
  cases q.answer? p <;> rfl

@[simp]
theorem answer?_ite {c : Prop} [Decidable c] (q q' : Query α) :
    (if c then q else q').answer? p = if c then q.answer? p else q'.answer? p := by
  split <;> rfl

/-! ## Look-ups -/

def type (t : TypeId) : Query Ty := look (.type t) done

def value (v : ValueId) : Query Value := look (.value v) done

def users (v : ValueId) : Query (List ValueId) := look (.users v) done

def function (f : FunctionId) : Query Function := look (.function f) done

def global (g : GlobalId) : Query Global := look (.global g) done

def module (m : ModuleId) : Query Module := look (.module m) done

def block (f : FunctionId) (b : BlockId) : Query Block := look (.block f b) done

def counts : Query Counts := count done

theorem answer?_look (l : Lookup) : (look l done).answer? p = l.find? p := Option.bind_fun_some _

@[simp]
theorem answer?_type (t : TypeId) : (type t).answer? p = p.types.get? t := answer?_look _

@[simp]
theorem answer?_value (v : ValueId) : (value v).answer? p = p.value? v := answer?_look _

@[simp]
theorem answer?_users (v : ValueId) : (users v).answer? p = p.users[v.index]? := answer?_look _

@[simp]
theorem answer?_function (f : FunctionId) : (function f).answer? p = p.function? f :=
  answer?_look _

@[simp]
theorem answer?_global (g : GlobalId) : (global g).answer? p = p.global? g := answer?_look _

@[simp]
theorem answer?_module (m : ModuleId) : (module m).answer? p = p.module? m := answer?_look _

@[simp]
theorem answer?_block (f : FunctionId) (b : BlockId) :
    (block f b).answer? p = (p.function? f).bind fun fn => fn.blocks[b.index]? := answer?_look _

@[simp]
theorem answer?_counts : counts.answer? p = some p.counts := rfl

/-! ## Lists -/

def each (xs : List α) (f : α → Query β) : Query (List β) :=
  match xs with
  | [] => pure []
  | x :: xs => do return (← f x) :: (← each xs f)

/-- Queries along a list, each in the state that the one before it led to. -/
def fold (step : σ → α → Query σ) (s : σ) (xs : List α) : Query σ :=
  match xs with
  | [] => pure s
  | x :: xs => do fold step (← step s x) xs

def filterMap (f : α → Query (Option β)) (xs : List α) : Query (List β) := do
  return (← each xs f).filterMap id

def filter (f : α → Query Bool) (xs : List α) : Query (List α) :=
  filterMap (fun x => do return if ← f x then some x else none) xs

def any (xs : List α) (f : α → Query Bool) : Query Bool := do return (← each xs f).any id

def all (xs : List α) (f : α → Query Bool) : Query Bool := do return (← each xs f).all id

section Lists

variable {xs : List α}

theorem answer?_each {f : α → Query β} {g : α → β}
    (h : ∀ x ∈ xs, (f x).answer? p = some (g x)) : (each xs f).answer? p = some (xs.map g) := by
  induction xs with
  | nil => rfl
  | cons x xs ih =>
    simp [each, h x List.mem_cons_self, ih fun y hy => h y (List.mem_cons_of_mem x hy)]

theorem answer?_filterMap {f : α → Query (Option β)} {g : α → Option β}
    (h : ∀ x ∈ xs, (f x).answer? p = some (g x)) :
    (filterMap f xs).answer? p = some (xs.filterMap g) := by
  simp [filterMap, answer?_each h, List.filterMap_map]

theorem answer?_filter {f : α → Query Bool} {g : α → Bool}
    (h : ∀ x ∈ xs, (f x).answer? p = some (g x)) :
    (filter f xs).answer? p = some (xs.filter g) := by
  have hone : ∀ x ∈ xs, (do return if ← f x then some x else none : Query (Option α)).answer? p =
      some (Option.guard g x) := by
    intro x hx
    simp [h x hx, Option.guard]
  rw [filter, answer?_filterMap hone, List.filterMap_eq_filter]

theorem answer?_any {f : α → Query Bool} {g : α → Bool}
    (h : ∀ x ∈ xs, (f x).answer? p = some (g x)) : (any xs f).answer? p = some (xs.any g) := by
  simp [any, answer?_each h, List.any_map]

theorem answer?_all {f : α → Query Bool} {g : α → Bool}
    (h : ∀ x ∈ xs, (f x).answer? p = some (g x)) : (all xs f).answer? p = some (xs.all g) := by
  simp [all, answer?_each h, List.all_map]

/-- Steps that are answered for states of a kind, and lead to such states, are answered all
along a list. The steps may know no more than an image of a state. -/
theorem answer?_fold_image {τ : Type} (image : τ → σ) {step : σ → α → Query σ} {g : τ → α → τ}
    {Inv : τ → Prop} (hinv : ∀ t, ∀ x ∈ xs, Inv t → Inv (g t x))
    (h : ∀ t, ∀ x ∈ xs, Inv t → (step (image t) x).answer? p = some (image (g t x))) {t : τ}
    (ht : Inv t) : (fold step (image t) xs).answer? p = some (image (xs.foldl g t)) := by
  induction xs generalizing t with
  | nil => rfl
  | cons x xs ih =>
    simp only [fold, answer?_bind, h t x List.mem_cons_self ht, Option.bind_some, List.foldl_cons]
    exact ih (fun t y hy => hinv t y (List.mem_cons_of_mem x hy))
      (fun t y hy => h t y (List.mem_cons_of_mem x hy)) (hinv t x List.mem_cons_self ht)

theorem answer?_fold_of_keeps {step : σ → α → Query σ} {g : σ → α → σ} {Inv : σ → Prop}
    (hinv : ∀ s, ∀ x ∈ xs, Inv s → Inv (g s x))
    (h : ∀ s, ∀ x ∈ xs, Inv s → (step s x).answer? p = some (g s x)) {s : σ} (hs : Inv s) :
    (fold step s xs).answer? p = some (xs.foldl g s) :=
  answer?_fold_image id hinv h hs

theorem answer?_fold {step : σ → α → Query σ} {g : σ → α → σ}
    (h : ∀ s, ∀ x ∈ xs, (step s x).answer? p = some (g s x)) (s : σ) :
    (fold step s xs).answer? p = some (xs.foldl g s) := by
  let always : σ → Prop := fun _ => True
  have hinv : ∀ s, ∀ x ∈ xs, always s → always (g s x) := fun _ _ _ h => h
  exact answer?_fold_of_keeps hinv (fun s x hx _ => h s x hx) trivial

end Lists

/-! ## Sets and maps -/

section Maps

variable {κ ν : Type}

theorem map_fst_zip_sublist (ks : List κ) (vs : List ν) :
    ((ks.zip vs).map Prod.fst).Sublist ks := by
  induction ks generalizing vs with
  | nil => exact List.Sublist.slnil
  | cons k ks ih =>
    cases vs with
    | nil => exact List.nil_sublist _
    | cons v vs => exact (ih vs).cons_cons k

def mapValues (m : OrdMap κ ν) (f : ν → Query ν) : Query (OrdMap κ ν) := do
  let values ← each (m.toList.map Prod.snd) f
  return ⟨m.keys.zip values, m.nodup.sublist (map_fst_zip_sublist m.keys values)⟩

/-- The members of a set of which a query tells that they have a property. -/
def filterSet [DecidableEq α] (s : OrdSet α) (f : α → Query Bool) : Query (OrdSet α) := do
  let kept ← filter f s.toList
  return s.filter fun a => a ∈ kept

def image [DecidableEq β] (s : OrdSet α) (f : α → Query β) : Query (OrdSet β) := do
  return .ofList (← each s.toList f)

theorem answer?_mapValues {m : OrdMap κ ν} {f : ν → Query ν} {g : ν → ν}
    (h : m.All fun _ v => (f v).answer? p = some (g v)) :
    (mapValues m f).answer? p = some (m.mapValues fun _ => g) := by
  have heach : ∀ v ∈ m.toList.map Prod.snd, (f v).answer? p = some (g v) := by
    intro v hv
    obtain ⟨e, he, rfl⟩ := List.mem_map.1 hv
    exact h e he
  simp only [mapValues, answer?_bind, answer?_each heach, Option.bind_some, answer?_pure,
    Option.some.injEq]
  refine OrdMap.eq_of_toList ?_
  simp only [OrdMap.keys, OrdMap.mapValues, List.map_map]
  exact List.zip_map'

theorem answer?_filterSet [DecidableEq α] {s : OrdSet α} {f : α → Query Bool} {g : α → Bool}
    (h : ∀ a ∈ s, (f a).answer? p = some (g a)) :
    (filterSet s f).answer? p = some (s.filter g) := by
  simp only [filterSet, answer?_bind, answer?_filter h, Option.bind_some, answer?_pure,
    Option.some.injEq]
  refine OrdSet.ext ?_
  rw [OrdSet.toList_filter, OrdSet.toList_filter]
  exact List.filter_congr fun a ha => by simp [ha]

theorem answer?_image [DecidableEq β] {s : OrdSet α} {f : α → Query β} {g : α → β}
    (h : ∀ a ∈ s, (f a).answer? p = some (g a)) :
    (image s f).answer? p = some (s.image g) := by
  simp [image, answer?_each h, OrdSet.image]

end Maps

/-! ## Searches -/

section Searches

variable [DecidableEq α]

def search (turn : Turn) (visit : σ → α → Query (Visit α σ β)) (pass : σ → α → σ)
    (fresh todo : List α) (s : σ) : Query (List α × Outcome σ β) :=
  match todo with
  | [] => return (fresh, .exhausted s)
  | v :: todo =>
    if _h : v ∈ fresh then do
      match ← visit s v with
      | .stop answer => return (fresh.erase v, .answered answer)
      | .goOn s next => search turn visit pass (fresh.erase v) (turn.join next todo) s
    else search turn visit pass fresh todo (pass s v)
termination_by (fresh.length, todo.length)
decreasing_by
  · apply Prod.Lex.left
    have := List.length_erase_of_mem ‹v ∈ fresh›
    have := List.length_pos_of_mem ‹v ∈ fresh›
    omega
  · exact Prod.Lex.right _ (by simp)

/-- The state in which a search ends that no vertex ends. -/
def explore (turn : Turn) (visit : σ → α → Query (Visit α σ Empty)) (pass : σ → α → σ)
    (fresh todo : List α) (s : σ) : Query σ := do
  match (← search turn visit pass fresh todo s).2 with
  | .exhausted s => return s

/-- A search is answered if the looks at its fresh vertices are, as long as it keeps to a
property of its progress. -/
theorem answer?_search_of_keeps (search : Search α σ β) {visit : σ → α → Query (Visit α σ β)}
    {Inv : List α → List α → σ → Prop} (hkeeps : search.Keeps Inv)
    (hvisit : ∀ {fresh todo : List α} {v : α} {s : σ}, Inv fresh (v :: todo) s → v ∈ fresh →
      (visit s v).answer? p = some (search.visit s v)) {fresh todo : List α} {s : σ}
    (hs : Inv fresh todo s) :
    (Query.search search.turn visit search.pass fresh todo s).answer? p =
      some (search.run fresh todo s) := by
  fun_induction Search.run search fresh todo s with
  | case1 fresh s => simp [Query.search]
  | case2 fresh s v todo hv answer hanswer =>
    rw [Query.search, dif_pos hv]
    simp [hvisit hs hv, hanswer]
  | case3 fresh s v todo hv s' next hnext ih =>
    rw [Query.search, dif_pos hv]
    simp only [answer?_bind, hvisit hs hv, hnext, Option.bind_some]
    exact ih (hkeeps.visit hs hv hnext)
  | case4 fresh s v todo hv ih =>
    rw [Query.search, dif_neg hv]
    exact ih (hkeeps.pass hs hv)

theorem answer?_search (search : Search α σ β) {visit : σ → α → Query (Visit α σ β)}
    {fresh : List α} (hvisit : ∀ s, ∀ v ∈ fresh, (visit s v).answer? p = some (search.visit s v))
    (todo : List α) (s : σ) :
    (Query.search search.turn visit search.pass fresh todo s).answer? p =
      some (search.run fresh todo s) := by
  have hkeeps : search.Keeps fun left _ _ => ∀ v ∈ left, v ∈ fresh :=
    ⟨fun h _ _ v hv => h v (List.mem_of_mem_erase hv), fun h _ => h⟩
  exact answer?_search_of_keeps search hkeeps (fun h hv => hvisit _ _ (h _ hv)) fun _ hv => hv

theorem answer?_explore_of_keeps (search : Search α σ Empty)
    {visit : σ → α → Query (Visit α σ Empty)} {Inv : List α → List α → σ → Prop}
    (hkeeps : search.Keeps Inv)
    (hvisit : ∀ {fresh todo : List α} {v : α} {s : σ}, Inv fresh (v :: todo) s → v ∈ fresh →
      (visit s v).answer? p = some (search.visit s v)) {fresh todo : List α} {s : σ}
    (hs : Inv fresh todo s) :
    (explore search.turn visit search.pass fresh todo s).answer? p =
      some (search.explore fresh todo s) := by
  rw [explore, answer?_bind, answer?_search_of_keeps search hkeeps hvisit hs, Option.bind_some,
    Search.explore]
  cases (search.run fresh todo s).2 with
  | answered answer => cases answer
  | exhausted s => rfl

end Searches

end Query

end CallTargets
