import BeaconReplay.Proofs.Replay.CaseTrees
import BeaconReplay.Replay.CommandLine

/-!
# The verdict of a selection

A summary is assembled rule by rule from the outcomes of pairs. Read back from the outcomes, it
passes if some pair was reported, no pair was refused, every rule with a pair to run was reported
somewhere, and all reports pass. Where the threads of a suite can be started, what the outcome of a
pair is depends on the support for its fork and on its cases alone, which gives the verdict in
terms of the tree. Where they cannot, nothing runs and no selection passes.
-/
namespace BeaconReplay

namespace Outcome

variable {pool : Pool} {disk : Disk} {suite : Suite} {s : Selection} {op : Operation} {fork : Fork}
  {spec : Spec} {report : Report}

/-- A pair is reported exactly if its suite gives a report. -/
theorem report?_run_eq_some_iff : (run pool disk suite s op fork).1.report? = some report ↔
    (suite.run pool disk s.config fork op).1 = .ok report := by
  unfold run
  split
  · next hrun => simp [hrun, report?]
  · next hrun =>
    rw [hrun]
    split_ifs <;> simp [report?]
  · next hrun => simp [hrun, report?]

theorem isSome_report?_run (hpool : pool.Collects) (h : Spec.ofName s.config = .ok spec)
    (hstarts : suite.Starts pool) :
    ((run pool disk suite s op fork).1.report?).isSome = true ↔
      op.supports fork = true ∧ ∃ folder, suite.HasCase disk spec fork op folder := by
  simp [Option.isSome_iff_exists, report?_run_eq_some_iff, Suite.run_eq_ok_iff hpool, h,
    ← Suite.cases_ne_nil_iff, hstarts]

/-- Where the threads of a suite can be started, a pair is refused if its fork is not supported or
if it was asked for and has no cases. -/
theorem error?_run (hpool : pool.Collects) (h : Spec.ofName s.config = .ok spec)
    (hstarts : suite.Starts pool) :
    (run pool disk suite s op fork).1.error? = none ↔ op.supports fork = true ∧
      (s.explicit = true → ∃ folder, suite.HasCase disk spec fork op folder) := by
  have hrun : (suite.run pool disk s.config fork op).1 = _ := Suite.run_of_known hpool h
  rw [Suite.Starts] at hstarts
  simp only [hstarts, Except.mapError, Except.map] at hrun
  rw [← Suite.cases_ne_nil_iff]
  unfold run
  cases hsup : op.supports fork <;>
    cases hcases : suite.cases disk spec fork op <;>
    cases hexp : s.explicit <;>
    simp only [hsup, hcases, List.isEmpty_nil, List.isEmpty_cons, Bool.false_eq_true, if_true,
      if_false] at hrun ⊢ <;>
    split <;> simp_all [error?]

theorem passed_run (hpool : pool.Collects) (h : Spec.ofName s.config = .ok spec)
    (hfork : op.supports fork = true) (hstarts : suite.Starts pool) :
    (∀ report, (run pool disk suite s op fork).1.report? = some report → report.passed = true) ↔
      ∀ folder, suite.HasCase disk spec fork op folder →
        Fixture.replay disk spec fork folder.path op = .ok () := by
  simp only [report?_run_eq_some_iff, Suite.run_eq_ok_iff hpool, h, ← Suite.mem_cases_iff, hfork,
    hstarts]
  cases hcases : suite.cases disk spec fork op <;>
    simp [Suite.reportOn, hcases, Report.passed, Subtest.failure_eq_none_iff]

end Outcome

namespace Summary

variable {pool : Pool} {disk : Disk} {suite : Suite} {s : Selection} {spec : Spec}

/-- Summaries are put together list by list. -/
theorem foldl_append (parts : List Summary) (acc : Summary) : parts.foldl append acc =
    ⟨acc.reports ++ parts.flatMap reports, acc.errors ++ parts.flatMap errors,
      acc.skipped ++ parts.flatMap skipped, acc.missing ++ parts.flatMap missing⟩ := by
  induction parts generalizing acc with
  | nil => simp
  | cons part parts ih => simp [ih, append]

/-- The outcomes of one rule at all its forks. -/
def outcomes (pool : Pool) (disk : Disk) (suite : Suite) (s : Selection) (op : Operation) :
    List Outcome :=
  (s.attempted op).map fun fork => (Outcome.run pool disk suite s op fork).1

theorem run_fst : (run pool disk suite s).1 =
    (s.rules.map fun op => ofOutcomes op.rule (outcomes pool disk suite s op)).foldl append
      empty := by
  simp [run, runRule, outcomes, Function.comp_def]

@[simp] theorem reports_ofOutcomes (rule : String) (os : List Outcome) :
    (ofOutcomes rule os).reports = os.filterMap Outcome.report? := rfl

@[simp] theorem errors_ofOutcomes (rule : String) (os : List Outcome) :
    (ofOutcomes rule os).errors = os.filterMap Outcome.error? := rfl

/-- No rule is missing if one of its pairs was reported, or if there was none to run. -/
theorem missing_ofOutcomes_eq_nil {rule : String} {os : List Outcome} :
    (ofOutcomes rule os).missing = [] ↔ (os ≠ [] → ∃ o ∈ os, o.report?.isSome = true) := by
  cases os with
  | nil => simp [ofOutcomes]
  | cons o os =>
    simp only [ofOutcomes, List.isEmpty_cons, Bool.not_false, Bool.true_and, ite_eq_right_iff,
      List.cons_ne_nil, imp_false, List.all_eq_true, Option.isNone_iff_eq_none, ne_eq,
      not_false_eq_true, true_implies, not_forall, exists_prop, Option.isSome_iff_ne_none]

/-- **The verdict of a summary, read back from the outcomes of the pairs.** -/
theorem passed_run_iff : (run pool disk suite s).1.passed = true ↔
    (∃ op ∈ s.rules, ∃ o ∈ outcomes pool disk suite s op, o.report?.isSome = true) ∧
    (∀ op ∈ s.rules, ∀ o ∈ outcomes pool disk suite s op, o.error? = none) ∧
    (∀ op ∈ s.rules, outcomes pool disk suite s op ≠ [] →
      ∃ o ∈ outcomes pool disk suite s op, o.report?.isSome = true) ∧
    ∀ op ∈ s.rules, ∀ o ∈ outcomes pool disk suite s op, ∀ report, o.report? = some report →
      report.passed = true := by
  rw [run_fst, foldl_append]
  simp only [passed, empty, List.nil_append, List.flatMap_map, Bool.and_eq_true,
    Bool.not_eq_true', List.isEmpty_eq_false_iff, List.isEmpty_iff, List.flatMap_eq_nil_iff,
    missing_ofOutcomes_eq_nil, List.all_eq_true, List.mem_flatMap, reports_ofOutcomes,
    errors_ofOutcomes, ne_eq, List.filterMap_eq_nil_iff, List.mem_filterMap]
  have hran : (¬∀ op ∈ s.rules, ∀ o ∈ outcomes pool disk suite s op, o.report? = none) ↔
      ∃ op ∈ s.rules, ∃ o ∈ outcomes pool disk suite s op, o.report?.isSome = true := by
    simp [Option.isSome_iff_ne_none]
  constructor
  · rintro ⟨⟨⟨hreports, herrors⟩, hmissing⟩, hpass⟩
    exact ⟨hran.1 hreports, herrors, hmissing,
      fun op hop o ho report hreport => hpass report ⟨op, hop, o, ho, hreport⟩⟩
  · rintro ⟨hreports, herrors, hmissing, hpass⟩
    refine ⟨⟨⟨hran.2 hreports, herrors⟩, hmissing⟩, ?_⟩
    rintro report ⟨op, hop, o, ho, hreport⟩
    exact hpass op hop o ho report hreport

end Summary

namespace Selection

variable {pool : Pool} {disk : Disk} {suite : Suite} {s : Selection} {spec : Spec} {op : Operation}
  {fork : Fork}

/-- Whether an operation has a case at a fork. -/
def HasCases (disk : Disk) (suite : Suite) (spec : Spec) (op : Operation) (fork : Fork) : Prop :=
  ∃ folder, suite.HasCase disk spec fork op folder

/-- Whether every case of an operation at a fork passes. -/
def AllPass (disk : Disk) (suite : Suite) (spec : Spec) (op : Operation) (fork : Fork) : Prop :=
  ∀ folder, suite.HasCase disk spec fork op folder →
    Fixture.replay disk spec fork folder.path op = .ok ()

/-- The verdict where every pair was asked for. -/
def PassesExplicitly (disk : Disk) (suite : Suite) (s : Selection) (spec : Spec) : Prop :=
  ∀ op ∈ s.rules, ∀ fork ∈ s.forks, op.supports fork = true ∧
    HasCases disk suite spec op fork ∧ AllPass disk suite spec op fork

/-- The verdict where pairs without cases may be skipped: something runs, no rule that is
supported somewhere is left out, and every case passes. -/
def PassesImplicitly (disk : Disk) (suite : Suite) (s : Selection) (spec : Spec) : Prop :=
  (∃ op ∈ s.rules, ∃ fork ∈ s.forks, op.supports fork = true ∧ HasCases disk suite spec op fork) ∧
  (∀ op ∈ s.rules, (∃ fork ∈ s.forks, op.supports fork = true) →
    ∃ fork ∈ s.forks, op.supports fork = true ∧ HasCases disk suite spec op fork) ∧
  ∀ op ∈ s.rules, ∀ fork ∈ s.forks, op.supports fork = true → AllPass disk suite spec op fork

/-- When a selection is to pass, in terms of the tree. -/
def Passes (disk : Disk) (suite : Suite) (s : Selection) : Prop :=
  ∃ spec, Spec.ofName s.config = .ok spec ∧
    if s.explicit then PassesExplicitly disk suite s spec else PassesImplicitly disk suite s spec

theorem mem_attempted : fork ∈ s.attempted op ↔
    fork ∈ s.forks ∧ (s.explicit = true ∨ op.supports fork = true) := by
  simp [attempted, attempts]

theorem exists_mem_outcomes {P : Outcome → Prop} :
    (∃ o ∈ Summary.outcomes pool disk suite s op, P o) ↔
      ∃ fork ∈ s.attempted op, P (Outcome.run pool disk suite s op fork).1 := by
  simp [Summary.outcomes]

theorem forall_mem_outcomes {P : Outcome → Prop} :
    (∀ o ∈ Summary.outcomes pool disk suite s op, P o) ↔
      ∀ fork ∈ s.attempted op, P (Outcome.run pool disk suite s op fork).1 := by
  simp [Summary.outcomes]

theorem outcomes_ne_nil : Summary.outcomes pool disk suite s op ≠ [] ↔
    ∃ fork, fork ∈ s.attempted op := by
  simp [Summary.outcomes, List.eq_nil_iff_forall_not_mem]

/-- Where the profile is not known or the threads cannot be started, nothing passes: no pair is
reported. -/
theorem not_passed_of_not_run (hpool : pool.Collects)
    (h : (∃ e, Spec.ofName s.config = .error e) ∨ ¬suite.Starts pool) :
    (Summary.run pool disk suite s).1.passed = false := by
  rw [← Bool.not_eq_true, Summary.passed_run_iff]
  rintro ⟨⟨op, hop, o, ho, hreport⟩, -⟩
  obtain ⟨fork, -, rfl⟩ := List.mem_map.1 ho
  obtain ⟨report, hreport⟩ := Option.isSome_iff_exists.1 hreport
  rw [Outcome.report?_run_eq_some_iff, Suite.run_eq_ok_iff hpool] at hreport
  obtain ⟨spec, hspec, -, -, hstarts, -⟩ := hreport
  rcases h with ⟨e, he⟩ | hnot
  · rw [hspec] at he
    cases he
  · exact hnot hstarts

/-- Where every pair was asked for, each of them has to run and to pass. -/
theorem passed_iff_explicitly (hpool : pool.Collects) (hstarts : suite.Starts pool)
    (h : Spec.ofName s.config = .ok spec) (hexp : s.explicit = true) (hrules : s.rules ≠ [])
    (hforks : s.forks ≠ []) :
    (Summary.run pool disk suite s).1.passed = true ↔ PassesExplicitly disk suite s spec := by
  rw [Summary.passed_run_iff]
  simp only [exists_mem_outcomes, forall_mem_outcomes, outcomes_ne_nil, mem_attempted, hexp,
    true_or, and_true, Outcome.isSome_report?_run hpool h hstarts,
    Outcome.error?_run hpool h hstarts, true_implies]
  constructor
  · rintro ⟨-, herrors, -, hpass⟩ op hop fork hfork
    obtain ⟨hsup, hcases⟩ := herrors op hop fork hfork
    exact ⟨hsup, hcases, (Outcome.passed_run hpool h hsup hstarts).1 (hpass op hop fork hfork)⟩
  · intro hall
    -- some pair was asked for, since both lists name something
    obtain ⟨fork₀, hfork₀⟩ := List.exists_mem_of_ne_nil _ hforks
    obtain ⟨op₀, hop₀⟩ := List.exists_mem_of_ne_nil _ hrules
    have hran : ∀ op ∈ s.rules, ∀ fork ∈ s.forks, op.supports fork = true ∧
        ∃ folder, suite.HasCase disk spec fork op folder :=
      fun op hop fork hfork => ⟨(hall op hop fork hfork).1, (hall op hop fork hfork).2.1⟩
    refine ⟨⟨op₀, hop₀, fork₀, hfork₀, hran op₀ hop₀ fork₀ hfork₀⟩, hran, ?_, ?_⟩
    · rintro op hop ⟨fork, hfork⟩
      exact ⟨fork, hfork, hran op hop fork hfork⟩
    · intro op hop fork hfork
      obtain ⟨hsup, -, hpass⟩ := hall op hop fork hfork
      exact (Outcome.passed_run hpool h hsup hstarts).2 hpass

/-- Where pairs may be skipped, every rule that is supported somewhere has to run somewhere. -/
theorem passed_iff_implicitly (hpool : pool.Collects) (hstarts : suite.Starts pool)
    (h : Spec.ofName s.config = .ok spec) (hexp : s.explicit = false) :
    (Summary.run pool disk suite s).1.passed = true ↔ PassesImplicitly disk suite s spec := by
  rw [Summary.passed_run_iff]
  simp only [exists_mem_outcomes, forall_mem_outcomes, outcomes_ne_nil, mem_attempted, hexp,
    Bool.false_eq_true, false_or, Outcome.isSome_report?_run hpool h hstarts,
    Outcome.error?_run hpool h hstarts, false_implies, and_true]
  constructor
  · rintro ⟨⟨op, hop, fork, ⟨hfork, -⟩, hran⟩, -, hmissing, hpass⟩
    refine ⟨⟨op, hop, fork, hfork, hran⟩, ?_, ?_⟩
    · intro op hop hsome
      obtain ⟨fork, ⟨hfork, -⟩, hran⟩ := hmissing op hop hsome
      exact ⟨fork, hfork, hran⟩
    · intro op hop fork hfork hsup
      exact (Outcome.passed_run hpool h hsup hstarts).1 (hpass op hop fork ⟨hfork, hsup⟩)
  · rintro ⟨⟨op, hop, fork, hfork, hran⟩, hmissing, hpass⟩
    refine ⟨⟨op, hop, fork, ⟨hfork, hran.1⟩, hran⟩, fun _ _ _ hsup => hsup.2, ?_, ?_⟩
    · intro op hop hsome
      obtain ⟨fork, hfork, hran⟩ := hmissing op hop hsome
      exact ⟨fork, ⟨hfork, hran.1⟩, hran⟩
    · rintro op hop fork ⟨hfork, hsup⟩
      exact (Outcome.passed_run hpool h hsup hstarts).2 (hpass op hop fork hfork hsup)

/-- A selection passes exactly if its threads can be started and the tree says so. -/
theorem passed_iff_passes (hpool : pool.Collects) (hrules : s.rules ≠ []) (hforks : s.forks ≠ []) :
    (Summary.run pool disk suite s).1.passed = true ↔ suite.Starts pool ∧ s.Passes disk suite := by
  by_cases hstarts : suite.Starts pool
  · unfold Passes
    cases h : Spec.ofName s.config with
    | error e => simp [not_passed_of_not_run hpool (.inl ⟨e, h⟩)]
    | ok spec =>
      simp only [Except.ok.injEq, exists_eq_left', hstarts, true_and]
      cases hexp : s.explicit
      · simpa using passed_iff_implicitly hpool hstarts h hexp
      · simpa using passed_iff_explicitly hpool hstarts h hexp hrules hforks
  · simp [not_passed_of_not_run hpool (.inr hstarts), hstarts]

@[simp] theorem rules_new_ne_nil (config : String) (forks : List Fork) (rules : List Operation) :
    (new config forks rules).rules ≠ [] := by
  cases rules <;> simp [new, Operation.all, Rule.all]

@[simp] theorem forks_new_ne_nil (config : String) (forks : List Fork) (rules : List Operation) :
    (new config forks rules).forks ≠ [] := by
  cases forks <;> simp [new, Fork.all]

/-- A rule that has no case at any fork that is selected and supported is not passed over. -/
theorem not_passes_of_missing (hop : op ∈ s.rules)
    (hselected : s.explicit = true ∨ ∃ fork ∈ s.forks, op.supports fork = true)
    (hforks : s.forks ≠ [])
    (hmissing : ∀ spec, Spec.ofName s.config = .ok spec → ∀ fork ∈ s.forks,
      op.supports fork = true → ¬HasCases disk suite spec op fork) : ¬s.Passes disk suite := by
  rintro ⟨spec, hname, hpass⟩
  cases hexp : s.explicit with
  | true =>
    simp only [hexp, if_true] at hpass
    obtain ⟨fork, hfork⟩ := List.exists_mem_of_ne_nil _ hforks
    obtain ⟨hsup, hcases, -⟩ := hpass op hop fork hfork
    exact hmissing spec hname fork hfork hsup hcases
  | false =>
    simp only [hexp, Bool.false_eq_true, false_or] at hselected
    simp only [hexp, Bool.false_eq_true, if_false] at hpass
    obtain ⟨-, hrule, -⟩ := hpass
    obtain ⟨fork, hfork, hsup, hcases⟩ := hrule op hop hselected
    exact hmissing spec hname fork hfork hsup hcases

end Selection

namespace Conclusion

variable {pool : Pool} {disk : Disk} {parallelism : Nat}

/-- The suite that options ask for. -/
def suite (parallelism : Nat) (o : Options) : Suite :=
  ⟨vectorsRoot o.vectors, o.concurrency.getD parallelism⟩

/-- The selection that options ask for. -/
def selection (o : Options) : Selection :=
  Selection.new (o.config.getD defaultConfig) o.forks o.rules

theorem status_ofOptions (hpool : pool.Collects) (o : Options) :
    (ofOptions pool disk parallelism o).status = 0 ↔ (suite parallelism o).Starts pool ∧
      (selection o).Passes (fixtures disk o) (suite parallelism o) := by
  have hpassed : (Summary.run pool (fixtures disk o) (suite parallelism o) (selection o)).1.passed =
      true ↔ _ := Selection.passed_iff_passes hpool (Selection.rules_new_ne_nil _ _ _)
    (Selection.forks_new_ne_nil _ _ _)
  rw [← hpassed]
  simp [ofOptions, suite, selection]

end Conclusion

namespace Selection

/-- **The verdict of a selection.** Whether a selection passes is settled by the tree, the profile
and the supported forks, as long as the threads for several cases at a time can be started: nothing
that was asked for is passed over, and no rule that is selected is left out. The program succeeds
exactly if it is asked for help or its version, or if the selection that its arguments make
passes. -/
theorem passed_iff_tree_passes (pool : Pool) (hpool : pool.Collects) :
    (∀ (disk : Disk) (suite : Suite) (config : String) (forks : List Fork) (rules : List Operation),
      let s := new config forks rules
      let passed := (Summary.run pool disk suite s).1.passed
      s.config = config ∧
      s.forks = (if forks = [] then Fork.all else forks) ∧
      s.rules = (if rules = [] then Operation.all else rules) ∧
      (s.explicit = true ↔ forks ≠ [] ∧ rules ≠ []) ∧
      (suite.concurrency ≤ 1 → suite.Starts pool) ∧
      (suite.Starts pool → (passed = true ↔ s.Passes disk suite)) ∧
      (¬suite.Starts pool → passed = false) ∧
      ∀ op ∈ s.rules, (s.explicit = true ∨ ∃ fork ∈ s.forks, op.supports fork = true) →
        (∀ spec, Spec.ofName config = .ok spec → ∀ fork ∈ s.forks, op.supports fork = true →
          ¬HasCases disk suite spec op fork) → passed = false) ∧
    ∀ (disk : Disk) (parallelism : Nat) (args : List String) (setting : Option String),
      (Conclusion.ofRequest pool disk parallelism (Request.parse args setting)).status = 0 ↔
        match Request.parse args setting with
        | .help | .version => True
        | .misuse => False
        | .run o =>
          let suite : Suite := ⟨vectorsRoot o.vectors, o.concurrency.getD parallelism⟩
          suite.Starts pool ∧ Passes (Conclusion.fixtures disk o) suite
            (new (o.config.getD "minimal") o.forks o.rules) := by
  constructor
  · intro disk suite config forks rules s passed
    have hpasses : passed = true ↔ suite.Starts pool ∧ s.Passes disk suite :=
      passed_iff_passes hpool (rules_new_ne_nil _ _ _) (forks_new_ne_nil _ _ _)
    refine ⟨rfl, ?_, ?_, ?_, Suite.starts_of_one, fun hstarts => ?_, fun hnot => ?_, ?_⟩
    · simp [s, new]
    · simp [s, new]
    · simp [s, new]
    · rw [hpasses, and_iff_right hstarts]
    · exact not_passed_of_not_run hpool (.inr hnot)
    · intro op hop hselected hmissing
      rw [← Bool.not_eq_true, hpasses]
      exact fun h => not_passes_of_missing hop hselected (forks_new_ne_nil _ _ _) hmissing h.2
  · intro disk parallelism args setting
    cases Request.parse args setting with
    | help => simp [Conclusion.ofRequest]
    | version => simp [Conclusion.ofRequest]
    | misuse => simp [Conclusion.ofRequest]
    | run o => exact Conclusion.status_ofOptions hpool o

/-- The arguments that ask for the voting rule at Capella. -/
def keptArgs : List String :=
  ["--vectors", "v", "--config", "minimal", "--fork", "capella", "--rule", "eth1_data_reset"]

theorem parse_keptArgs : Request.parse keptArgs none =
    .run ⟨false, some "v", some "minimal", [.capella], [.ofRule .eth1DataReset], none⟩ := by
  rfl

theorem passes_keptTree :
    Passes Suite.keptTree ⟨"v", 4⟩ (new "minimal" [.capella] [.ofRule .eth1DataReset]) := by
  refine ⟨.minimal, rfl, fun op hop fork hfork => ?_⟩
  obtain rfl := List.mem_singleton.1 hop
  obtain rfl := List.mem_singleton.1 hfork
  exact ⟨rfl, Suite.hasCase_keptTree, fun folder => Suite.replay_keptTree⟩

/-- The selection of the rule of a case that passes does pass, also where the program is asked for
it; that of a rule without cases does not. -/
theorem kept_case_decides :
    (Summary.run .tasks Suite.keptTree ⟨"v", 4⟩
      (new "minimal" [.capella] [.ofRule .eth1DataReset])).1.passed = true ∧
    (Summary.run .tasks Suite.keptTree ⟨"v", 4⟩
      (new "minimal" [.capella] [.ofRule .slashingsReset])).1.passed = false ∧
    (Conclusion.ofRequest .tasks Suite.keptTree 4 (Request.parse keptArgs none)).status = 0 := by
  obtain ⟨hruns, hstatus⟩ := passed_iff_tree_passes .tasks Pool.collects_tasks
  have hkept := hruns Suite.keptTree ⟨"v", 4⟩ "minimal" [.capella] [.ofRule .eth1DataReset]
  have hnone := hruns Suite.keptTree ⟨"v", 4⟩ "minimal" [.capella] [.ofRule .slashingsReset]
  refine ⟨?_, ?_, (hstatus Suite.keptTree 4 keptArgs none).2 ?_⟩
  · exact (hkept.2.2.2.2.2.1 (Suite.starts_tasks _)).2 passes_keptTree
  · refine hnone.2.2.2.2.2.2.2 (.ofRule .slashingsReset) (List.mem_singleton_self _)
      (.inl rfl) fun spec hname fork hfork _ => ?_
    obtain rfl : Spec.minimal = spec := Except.ok.inj hname
    obtain rfl := List.mem_singleton.1 hfork
    rw [HasCases, ← Suite.cases_ne_nil_iff, not_not]
    decide +kernel
  · rw [parse_keptArgs]
    exact ⟨Suite.starts_tasks _, passes_keptTree⟩

end Selection

end BeaconReplay
