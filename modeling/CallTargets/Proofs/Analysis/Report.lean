import CallTargets.Config
import CallTargets.Proofs.Analysis.Counts
import CallTargets.Report

/-!
# Reports of a run

A report tells of each indirect or virtual call that may reach anything, and ends the line behind
each. The file of a call and the names of functions are written as they are. So a call takes one
line exactly if none of them holds a newline (`Report.newline_mem_line_iff`), and the count that is
returned is the number of lines written exactly if this is so for all calls told of.

Main statement: `Config.analyze_accounts`.
-/

namespace CallTargets

/-! ## The calls told of -/

namespace Store

def reportedKeys (s : Store) : List ValueId := s.callees.keys.filter fun v => v ∈ s.reported

theorem calleesOf_of_mem {s : Store} {v : ValueId} {fs : OrdSet FunctionId}
    (h : (v, fs) ∈ s.callees.toList) : s.calleesOf v = fs := by
  rw [calleesOf, OrdMap.get?_of_mem_toList h]
  rfl

theorem perm_reportedKeys (s : Store) : s.reportedKeys.Perm s.reported.toList := by
  have hnodup : s.reportedKeys.Nodup := s.callees.nodup.filter _
  refine (List.perm_ext_iff_of_nodup hnodup s.reported.nodup).2 fun v => ?_
  rw [reportedKeys, List.mem_filter, decide_eq_true_eq, OrdSet.mem_toList, and_iff_right_iff_imp]
  intro hv
  have hcallees := (OrdSet.mem_filter.1 hv).2
  rw [calleesOf] at hcallees
  cases hget : s.callees.get? v with
  | none =>
    rw [hget] at hcallees
    cases hcallees
  | some fs => exact List.mem_map_of_mem (OrdMap.mem_toList_of_get? hget)

end Store

namespace Report

theorem lines_eq (p : Program) (s : Store) :
    lines p s = s.reportedKeys.map fun v => line p v (s.calleesOf v) := by
  rw [Store.reportedKeys, OrdMap.keys, List.filter_map, List.map_map, lines]
  have htest : ∀ e ∈ s.callees.toList,
      (!e.2.isEmpty && (decide (e.1 ∈ s.indirectCalls) || decide (e.1 ∈ s.virtualCalls))) =
        ((fun v => decide (v ∈ s.reported)) ∘ Prod.fst) e := by
    rintro ⟨v, fs⟩ he
    simp [Store.reported, Store.calleesOf_of_mem he, Bool.and_comm]
  rw [List.filter_congr htest]
  refine List.map_congr_left fun e he => ?_
  exact congrArg (line p e.1) (Store.calleesOf_of_mem (List.mem_filter.1 he).1).symm

theorem write_map {m : Type → Type} [Monad m] (put : String → m Unit) (flush : m Unit)
    (text : ValueId → String) (vs : List ValueId) :
    write put flush (vs.map text) = do
      vs.forM fun v => put (text v ++ "\n")
      flush
      return vs.length := by
  have hforM : (vs.map text).forM (fun line => put (line ++ "\n")) =
      vs.forM fun v => put (text v ++ "\n") := by
    induction vs with
    | nil => rfl
    | cons v vs ih => exact congrArg (fun rest => put (text v ++ "\n") >>= fun _ => rest) ih
  rw [write, hforM, List.length_map]

end Report

/-! ## Lines -/

theorem Text.mem_joinWith {c : Char} {separator : String} (hc : c ∉ separator.toList)
    (texts : List String) :
    c ∈ (joinWith separator texts).toList ↔ ∃ text ∈ texts, c ∈ text.toList := by
  fun_induction joinWith separator texts with
  | case1 => simp
  | case2 => simp
  | case3 _ _ _ ih => simp [hc, ih]

theorem Normal.mem_dropLastNumbers {c : Char} (hpoint : c ≠ '.') (hdigit : c.isDigit = false)
    (text : List Char) : c ∈ dropLastNumbers text ↔ c ∈ text := by
  fun_induction dropLastNumbers text with
  | case1 text rest hdrop ih =>
    rw [ih]
    unfold dropLastNumber? at hdrop
    split at hdrop
    · rename_i hsplit
      cases hdrop
      rw [← List.takeWhile_append_dropWhile (p := Char.isDigit) (l := text), hsplit]
      have htaken : c ∉ text.takeWhile Char.isDigit := fun h => by
        simp [List.mem_takeWhile_imp h] at hdigit
      simp [htaken, hpoint]
    · cases hdrop
  | case2 => rfl

theorem Normal.mem_functionName {c : Char} (hpoint : c ≠ '.') (hdigit : c.isDigit = false)
    (name : String) : c ∈ (functionName name).toList ↔ c ∈ name.toList := by
  have hmem := mem_dropLastNumbers hpoint hdigit name.toList.reverse
  rw [List.mem_reverse] at hmem
  unfold functionName
  split
  · rfl
  · simp [hmem]

namespace Report

/-- Neither the file of a call nor the name of a function that it may reach holds a newline. -/
def OneLine (p : Program) (v : ValueId) (callees : OrdSet FunctionId) : Prop :=
  (∀ loc, (p.callSite? v).bind CallSite.loc = some loc → '\n' ∉ loc.file.toList) ∧
    ∀ f ∈ callees, '\n' ∉ (p.functionName f).toList

theorem newline_mem_location_iff {p : Program} {v : ValueId} : '\n' ∈ (location p v).toList ↔
    ∃ loc, (p.callSite? v).bind CallSite.loc = some loc ∧ '\n' ∈ loc.file.toList := by
  have hnumber : ∀ n, '\n' ∉ Nat.toDigits 10 n := fun n h =>
    absurd (Nat.isDigit_of_mem_toDigits (by decide) (by decide) h) (by decide)
  unfold location
  cases (p.callSite? v).bind CallSite.loc with
  | none => simp
  | some loc => simp [SourceLoc.text, hnumber]

theorem newline_mem_line_iff {p : Program} {v : ValueId} {callees : OrdSet FunctionId} :
    '\n' ∈ (line p v callees).toList ↔ ¬ OneLine p v callees := by
  have hnames : '\n' ∈ (Text.joinWith "," (callees.toList.map fun f =>
      Normal.functionName (p.functionName f))).toList ↔
        ∃ f ∈ callees, '\n' ∈ (p.functionName f).toList := by
    rw [Text.mem_joinWith (by decide)]
    simp [Normal.mem_functionName, OrdSet.mem_toList]
  simp only [line, String.toList_append, List.mem_append, newline_mem_location_iff, hnames, OneLine]
  rw [not_and_or]
  push Not
  simp

theorem count_newline_text (p : Program) (s : Store) :
    (text p s).toList.count '\n' =
      (lines p s).length + ((lines p s).map (·.toList.count '\n')).sum := by
  have hfold : ∀ (lines : List String) (text : String),
      (lines.foldl (fun text line => text ++ line ++ "\n") text).toList.count '\n' =
        text.toList.count '\n' + (lines.length + (lines.map (·.toList.count '\n')).sum) := by
    intro lines
    induction lines with
    | nil => simp
    | cons line lines ih =>
      intro text
      rw [List.foldl_cons, ih]
      simp [List.count_append]
      omega
  exact (hfold _ "").trans (by simp)

theorem count_newline_text_eq_iff (p : Program) (s : Store) :
    (text p s).toList.count '\n' = (lines p s).length ↔
      ∀ v ∈ s.reported, OneLine p v (s.calleesOf v) := by
  rw [count_newline_text, Nat.add_eq_left, List.sum_eq_zero_iff, lines_eq]
  simp only [List.mem_map, exists_exists_and_eq_and, forall_exists_index, and_imp,
    forall_apply_eq_imp_iff₂, List.count_eq_zero, newline_mem_line_iff, not_not,
    s.perm_reportedKeys.mem_iff, OrdSet.mem_toList]

theorem run_write (lines : List String) :
    (write (fun text => modify (· ++ text)) (pure ()) lines : StateM String Nat).run "" =
      (lines.length, lines.foldl (fun text line => text ++ line ++ "\n") "") := by
  have hforM : ∀ (lines : List String) (text : String),
      (lines.forM fun line => (modify (· ++ (line ++ "\n")) : StateM String Unit)).run text =
        ((), lines.foldl (fun text line => text ++ line ++ "\n") text) := by
    intro lines
    induction lines with
    | nil => exact fun text => rfl
    | cons line lines ih =>
      intro text
      rw [List.foldl_cons, String.append_assoc]
      exact ih _
  exact congrArg (fun r : Unit × String => (lines.length, r.2)) (hforM lines "")

end Report

/-! ## Programs that are built -/

namespace Config

/-- After a run on a program that was built, whatever the configuration, the counts tell the
sizes of what they are about, those of layers too if these are all that refines signatures. A
report tells of each indirect or virtual call that may reach anything, in the order in which calls
were found, and yields the count of these calls. It has as many lines as that exactly if neither
their files nor the names of what they may reach hold a newline. -/
theorem analyze_accounts [Hasher] {rs : List Request} (hnamed : Request.Named [] {} rs)
    (c : Config) :
    (c.strategy.analyze (Request.built rs)).2.store.Accounts (Request.built rs) ∧
      (c.kind = .multilayer ∨ c.kind = .dataflowEnhanced →
        (c.strategy.analyze (Request.built rs)).2.AccountsLayers) ∧
      (c.strategy.analyze (Request.built rs)).2.store.reportedKeys.Perm
        (c.strategy.analyze (Request.built rs)).2.store.reported.toList ∧
      (∀ (m : Type → Type) [Monad m] (put : String → m Unit) (flush : m Unit),
        Report.write put flush
            (Report.lines (Request.built rs) (c.strategy.analyze (Request.built rs)).2.store) = do
          (c.strategy.analyze (Request.built rs)).2.store.reportedKeys.forM fun v =>
            put (Report.line (Request.built rs) v
              ((c.strategy.analyze (Request.built rs)).2.store.calleesOf v) ++ "\n")
          flush
          return (c.strategy.analyze (Request.built rs)).2.store.stats.validCalls) ∧
      (Report.write (fun text => modify (· ++ text)) (pure ()) (Report.lines (Request.built rs)
          (c.strategy.analyze (Request.built rs)).2.store) : StateM String Nat).run "" =
        ((c.strategy.analyze (Request.built rs)).2.store.stats.validCalls,
          Report.text (Request.built rs) (c.strategy.analyze (Request.built rs)).2.store) ∧
      ((Report.text (Request.built rs)
          (c.strategy.analyze (Request.built rs)).2.store).toList.count '\n' =
          (c.strategy.analyze (Request.built rs)).2.store.stats.validCalls ↔
        ∀ v ∈ (c.strategy.analyze (Request.built rs)).2.store.reported,
          Report.OneLine (Request.built rs) v
            ((c.strategy.analyze (Request.built rs)).2.store.calleesOf v)) := by
  have hp := Request.valid_built hnamed
  have hplaced := Request.placed_built hnamed
  have haccounts := c.strategy.accounts_analyze hp hplaced
  have hperm := (c.strategy.analyze (Request.built rs)).2.store.perm_reportedKeys
  have hlength : (Report.lines (Request.built rs)
      (c.strategy.analyze (Request.built rs)).2.store).length =
        (c.strategy.analyze (Request.built rs)).2.store.stats.validCalls := by
    rw [Report.lines_eq, List.length_map, haccounts.validCalls, OrdSet.size, hperm.length_eq]
  refine ⟨haccounts, fun hkind => ?_, hperm, fun m _ put flush => ?_, ?_, ?_⟩
  · rcases hkind with hkind | hkind
    · exact c.strategy.accountsLayers_analyze hp hplaced (by rw [strategy, hkind]; rfl)
    · exact c.strategy.accountsLayers_analyze hp hplaced (by rw [strategy, hkind]; rfl)
  · rw [← hlength, Report.lines_eq, Report.write_map, List.length_map]
  · rw [Report.run_write, hlength]
    rfl
  · rw [← hlength, Report.count_newline_text_eq_iff]

/-- `main` calls what it loads from a table that holds a function of the given name. -/
def tableRequests (name : String) : List Request :=
  [.addModule "m",
   .intern .void,
   .intern (.function 0 [] false),
   .define 0 name 1,
   .functionValue 0,
   .define 0 "main" 1,
   .intern (.pointer 1),
   .addGlobal 0 "table" 2 (some 0),
   .globalValue 0,
   .instr { function := 1 } (.load 2) none,
   .instr { function := 1 } (.call 3 [] false) none]

attribute [local instance] Hasher.digits

/-- The run on this program, with signatures refined by layers. -/
def tableRun (name : String) : Analysis :=
  ((Config.mk .multilayer 10 false).strategy.analyze (Request.built (tableRequests name))).2

theorem named_tableRequests : Request.Named [] {} (tableRequests "f") := by decide +kernel

theorem text_tableRun : (tableRun "f").store.stats.validCalls = 1 ∧
    Report.text (Request.built (tableRequests "f")) (tableRun "f").store =
      "<unknown>:0:0|f\n" := by
  have hp := Request.valid_built named_tableRequests
  have hmodules : (Request.built (tableRequests "f")).modules.toList ≠ [] := by decide +kernel
  rw [tableRun, Strategy.analyze_eq_foldl hp, Strategy.prepared_eq _ hp hmodules]
  cbv

theorem analyze_accounts_table :
    Request.Named [] {} (tableRequests "f") ∧
      (tableRun "f").store.Accounts (Request.built (tableRequests "f")) ∧
      (tableRun "f").AccountsLayers ∧ (tableRun "f").store.reported.size = 1 ∧
      ∀ v ∈ (tableRun "f").store.reported, Report.OneLine (Request.built (tableRequests "f")) v
        ((tableRun "f").store.calleesOf v) := by
  obtain ⟨haccounts, hlayers, -, -, -, hlines⟩ :=
    analyze_accounts named_tableRequests ⟨.multilayer, 10, false⟩
  obtain ⟨hcount, htext⟩ := text_tableRun
  refine ⟨named_tableRequests, haccounts, hlayers (.inl rfl),
    haccounts.validCalls.symm.trans hcount, hlines.1 ?_⟩
  change (Report.text _ (tableRun "f").store).toList.count '\n' =
    (tableRun "f").store.stats.validCalls
  rw [htext, hcount]
  decide

/-- A name that holds a newline takes two lines of a report that is said to have one. -/
theorem text_of_splitName :
    Request.Named [] {} (tableRequests "f\ng") ∧ (tableRun "f\ng").store.stats.validCalls = 1 ∧
      Report.text (Request.built (tableRequests "f\ng")) (tableRun "f\ng").store =
        "<unknown>:0:0|f\ng\n" := by
  have hnamed : Request.Named [] {} (tableRequests "f\ng") := by decide +kernel
  have hp := Request.valid_built hnamed
  have hmodules : (Request.built (tableRequests "f\ng")).modules.toList ≠ [] := by decide +kernel
  refine ⟨hnamed, ?_⟩
  rw [tableRun, Strategy.analyze_eq_foldl hp, Strategy.prepared_eq _ hp hmodules]
  cbv

end Config

end CallTargets
