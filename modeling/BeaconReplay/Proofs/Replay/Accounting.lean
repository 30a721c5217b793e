import BeaconReplay.Proofs.Replay.Verdict

/-!
# The accounting of a selection

A selection visits its pairs rule by rule, and for each rule fork by fork. Each pair that it
attempts leaves one entry, in one of three lists, and the lists keep the order of the visit; a rule
that was attempted and never reported is missing. The account is carried from one rule to the next,
so a selection of two lists of rules has the summaries of both, one behind the other.
-/
namespace BeaconReplay

namespace Selection

/-- The pairs of some rules, rule by rule, and for each rule fork by fork. -/
def pairs (s : Selection) (rules : List Operation) : List (Operation × Fork) :=
  rules.flatMap fun op => s.forks.map fun fork => (op, fork)

/-- The pairs that are attempted. -/
def attemptedPairs (s : Selection) (rules : List Operation) : List (Operation × Fork) :=
  (s.pairs rules).filter fun p => s.attempts p.1 p.2

variable {s : Selection} {rules : List Operation} {op : Operation}

theorem attemptedPairs_snoc : s.attemptedPairs (rules ++ [op]) =
    s.attemptedPairs rules ++ (s.attempted op).map fun fork => (op, fork) := by
  simp [attemptedPairs, pairs, attempted, List.filter_map, Function.comp_def]

/-- Where every pair was asked for, every pair is attempted. -/
theorem attemptedPairs_of_explicit (h : s.explicit = true) :
    s.attemptedPairs rules = s.pairs rules := by
  simp [attemptedPairs, attempts, h]

/-- Elsewhere those are attempted that are supported. -/
theorem attemptedPairs_of_implicit (h : s.explicit = false) :
    s.attemptedPairs rules = (s.pairs rules).filter fun p => p.1.supports p.2 := by
  simp [attemptedPairs, attempts, h]

end Selection

namespace Outcome

variable {pool : Pool} {disk : Disk} {suite : Suite} {s : Selection} {op : Operation} {fork : Fork}

/-- What a pair leaves behind, by what its suite gives: a report, an error, or a directory without
fixtures that may be skipped. -/
inductive Left (pool : Pool) (disk : Disk) (suite : Suite) (s : Selection) :
    Operation × Fork → Outcome → Prop
  | reported {op : Operation} {fork : Fork} {report : Report} :
      (suite.run pool disk s.config fork op).1 = .ok report →
      Left pool disk suite s (op, fork) (.reported report)
  | skipped {op : Operation} {fork : Fork} {dir : String} :
      (suite.run pool disk s.config fork op).1 = .error (.noFixtures dir) → s.explicit = false →
      Left pool disk suite s (op, fork) (.skipped dir)
  | refused {op : Operation} {fork : Fork} {error : SuiteError} :
      (suite.run pool disk s.config fork op).1 = .error error →
      (s.explicit = true ∨ ∀ dir, error ≠ .noFixtures dir) →
      Left pool disk suite s (op, fork) (.refused error)

/-- Every pair leaves one outcome behind. -/
theorem left_run (pool : Pool) (disk : Disk) (suite : Suite) (s : Selection) (op : Operation)
    (fork : Fork) : Left pool disk suite s (op, fork) (run pool disk suite s op fork).1 := by
  unfold run
  split
  · next report events hrun => exact .reported (congrArg Prod.fst hrun)
  · next dir events hrun =>
    have hsuite := congrArg Prod.fst hrun
    cases hexp : s.explicit with
    | true => exact .refused hsuite (.inl hexp)
    | false => exact .skipped hsuite hexp
  · next error events hne hrun =>
    refine .refused (congrArg Prod.fst hrun) (.inr ?_)
    rintro dir rfl
    exact hne dir rfl

/-- A pair is reported exactly if its suite gives a report. -/
theorem isNone_report?_run (pool : Pool) (disk : Disk) (suite : Suite) (s : Selection)
    (op : Operation) (fork : Fork) : (run pool disk suite s op fork).1.report?.isNone =
      !(suite.run pool disk s.config fork op).1.isOk := by
  have hleft := left_run pool disk suite s op fork
  generalize (run pool disk suite s op fork).1 = outcome at hleft
  cases hleft with
  | reported hrun => rw [hrun]; rfl
  | skipped hrun => rw [hrun]; rfl
  | refused hrun => rw [hrun]; rfl

/-- An outcome is an entry of one list. -/
theorem length_filterMap (outcomes : List Outcome) :
    (outcomes.filterMap report?).length + (outcomes.filterMap error?).length +
      (outcomes.filterMap skipped?).length = outcomes.length := by
  induction outcomes with
  | nil => rfl
  | cons outcome outcomes ih =>
    cases outcome <;>
      simp only [List.filterMap_cons, report?, error?, skipped?, List.length_cons] <;> omega

end Outcome

namespace Summary

variable {pool : Pool} {disk : Disk} {suite : Suite} {s : Selection} {rules : List Operation}
  {op : Operation} {summary : Summary}

/-- Whether a rule has a pair that is attempted and none that is reported. -/
def ranNowhere (pool : Pool) (disk : Disk) (suite : Suite) (s : Selection) (op : Operation) :
    Bool :=
  !(s.attempted op).isEmpty &&
    (s.attempted op).all fun fork => !(suite.run pool disk s.config fork op).1.isOk

/-- The outcomes of pairs, in their order. -/
def outcomesOf (pool : Pool) (disk : Disk) (suite : Suite) (s : Selection)
    (pairs : List (Operation × Fork)) : List Outcome :=
  pairs.map fun p => (Outcome.run pool disk suite s p.1 p.2).1

/-- **The invariant of a selection**, when some of its rules have been visited. -/
structure Accounts (pool : Pool) (disk : Disk) (suite : Suite) (s : Selection)
    (visited : List Operation) (summary : Summary) : Prop where
  reports_eq : summary.reports =
    (outcomesOf pool disk suite s (s.attemptedPairs visited)).filterMap Outcome.report?
  errors_eq : summary.errors =
    (outcomesOf pool disk suite s (s.attemptedPairs visited)).filterMap Outcome.error?
  skipped_eq : summary.skipped =
    (outcomesOf pool disk suite s (s.attemptedPairs visited)).filterMap Outcome.skipped?
  missing_eq : summary.missing = (visited.filter (ranNowhere pool disk suite s)).map Operation.rule

theorem outcomesOf_attempted (op : Operation) :
    outcomesOf pool disk suite s ((s.attempted op).map fun fork => (op, fork)) =
      outcomes pool disk suite s op := by
  simp [outcomesOf, outcomes, Function.comp_def]

theorem missing_ofOutcomes (op : Operation) :
    (ofOutcomes op.rule (outcomes pool disk suite s op)).missing =
      if ranNowhere pool disk suite s op then [op.rule] else [] := by
  simp only [ofOutcomes, outcomes, ranNowhere, List.isEmpty_map, List.all_map, Function.comp_def,
    Outcome.isNone_report?_run]
  rfl

/-- A list of the account grows by the entries of the rule that is visited. -/
theorem filterMap_outcomesOf_snoc {α : Type} (kind : Outcome → Option α)
    (visited : List Operation) (op : Operation) :
    (outcomesOf pool disk suite s (s.attemptedPairs (visited ++ [op]))).filterMap kind =
      (outcomesOf pool disk suite s (s.attemptedPairs visited)).filterMap kind ++
        (outcomes pool disk suite s op).filterMap kind := by
  rw [Selection.attemptedPairs_snoc, outcomesOf, List.map_append, List.filterMap_append,
    ← outcomesOf_attempted]
  rfl

namespace Accounts

/-- Before the first rule there is nothing to account for. -/
theorem start : Accounts pool disk suite s [] empty where
  reports_eq := rfl
  errors_eq := rfl
  skipped_eq := rfl
  missing_eq := rfl

/-- Visiting one more rule keeps the account. -/
theorem visit (h : Accounts pool disk suite s rules summary) (op : Operation) :
    Accounts pool disk suite s (rules ++ [op])
      (append summary (ofOutcomes op.rule (outcomes pool disk suite s op))) where
  reports_eq := by rw [filterMap_outcomesOf_snoc, ← h.reports_eq]; rfl
  errors_eq := by rw [filterMap_outcomesOf_snoc, ← h.errors_eq]; rfl
  skipped_eq := by rw [filterMap_outcomesOf_snoc, ← h.skipped_eq]; rfl
  missing_eq := by
    have hmissing : (ofOutcomes op.rule (outcomes pool disk suite s op)).missing = _ :=
      missing_ofOutcomes op
    rw [append, hmissing, h.missing_eq, List.filter_append, List.map_append, List.filter_singleton]
    cases ranNowhere pool disk suite s op <;> rfl

/-- **The account of a whole selection.** -/
theorem run (pool : Pool) (disk : Disk) (suite : Suite) (s : Selection) :
    Accounts pool disk suite s s.rules (run pool disk suite s).1 := by
  rw [run_fst]
  generalize s.rules = rules
  induction rules using List.reverseRecOn with
  | nil => exact start
  | append_singleton rules op ih =>
    rw [List.map_append, List.foldl_append]
    exact ih.visit op

end Accounts

theorem ranNowhere_iff : ranNowhere pool disk suite s op = true ↔ (∃ fork, fork ∈ s.attempted op) ∧
    ∀ fork ∈ s.attempted op, ∀ report, (suite.run pool disk s.config fork op).1 ≠ .ok report := by
  have hok : ∀ result : Except SuiteError Report,
      result.isOk = false ↔ ∀ report, result ≠ .ok report := by
    rintro (_ | _) <;> simp [Except.isOk, Except.toBool]
  simp [ranNowhere, hok, List.eq_nil_iff_forall_not_mem]

/-! ## One pass over the pairs

The same summary is found by a single pass, which puts every outcome where it belongs as it comes
and keeps two marks for the rule at hand.
-/

/-- The state of a pass: the summary so far, and whether the rule at hand has been attempted and
whether it has been reported. -/
structure Visit where
  summary : Summary
  attempted : Bool
  ran : Bool

namespace Visit

/-- Put an outcome where it belongs. -/
def enter (v : Visit) : Outcome → Visit
  | .reported report =>
    ⟨{ v.summary with reports := v.summary.reports ++ [report] }, true, true⟩
  | .refused error => ⟨{ v.summary with errors := v.summary.errors ++ [error] }, true, v.ran⟩
  | .skipped dir => ⟨{ v.summary with skipped := v.summary.skipped ++ [dir] }, true, v.ran⟩

/-- Visit a rule at one fork. -/
def pair (pool : Pool) (disk : Disk) (suite : Suite) (s : Selection) (op : Operation) (v : Visit)
    (fork : Fork) : Visit :=
  if s.attempts op fork then v.enter (Outcome.run pool disk suite s op fork).1 else v

/-- Visit a rule fork by fork; it is missing if it was attempted and has not been reported. -/
def rule (pool : Pool) (disk : Disk) (suite : Suite) (s : Selection) (summary : Summary)
    (op : Operation) : Summary :=
  let v := s.forks.foldl (pair pool disk suite s op) ⟨summary, false, false⟩
  if v.attempted && !v.ran then { v.summary with missing := v.summary.missing ++ [op.rule] }
  else v.summary

/-- Pairs that are not attempted leave no trace. -/
theorem foldl_pair (v : Visit) : s.forks.foldl (pair pool disk suite s op) v =
    (outcomes pool disk suite s op).foldl enter v := by
  rw [outcomes, List.foldl_map, Selection.attempted, List.foldl_filter]
  rfl

/-- What has been entered, in one go. -/
theorem foldl_enter (entries : List Outcome) (v : Visit) : entries.foldl enter v =
    ⟨⟨v.summary.reports ++ entries.filterMap Outcome.report?,
      v.summary.errors ++ entries.filterMap Outcome.error?,
      v.summary.skipped ++ entries.filterMap Outcome.skipped?, v.summary.missing⟩,
      v.attempted || !entries.isEmpty, v.ran || !entries.all (·.report?.isNone)⟩ := by
  induction entries generalizing v with
  | nil => simp
  | cons entry entries ih =>
    rw [List.foldl_cons, ih]
    cases entry <;> simp [enter, List.filterMap_cons, Outcome.report?, Outcome.error?,
      Outcome.skipped?]

/-- The summary grows by what the outcomes of the rule come to. -/
theorem rule_eq (summary : Summary) (op : Operation) : rule pool disk suite s summary op =
    append summary (ofOutcomes op.rule (outcomes pool disk suite s op)) := by
  rw [rule, foldl_pair, foldl_enter]
  simp only [ofOutcomes, append, Bool.false_or, Bool.not_not]
  split <;> simp

end Visit

theorem run_fst_eq_pass :
    (run pool disk suite s).1 = s.rules.foldl (Visit.rule pool disk suite s) empty := by
  have hrule : Visit.rule pool disk suite s = fun summary op =>
      append summary (ofOutcomes op.rule (outcomes pool disk suite s op)) :=
    funext fun summary => funext fun op => Visit.rule_eq summary op
  rw [run_fst, List.foldl_map, hrule]

/-! ## Selections put together -/

/-- The rules of a selection are visited one list behind the other. -/
theorem run_append (rules others : List Operation) :
    (run pool disk suite { s with rules := rules ++ others }).1 =
      append (run pool disk suite { s with rules := rules }).1
        (run pool disk suite { s with rules := others }).1 := by
  simp only [run_fst, foldl_append, List.map_append, List.flatMap_append, append, empty,
    List.nil_append]
  rfl

theorem log_append (rules others : List Operation) :
    (run pool disk suite { s with rules := rules ++ others }).2 =
      (run pool disk suite { s with rules := rules }).2 ++
        (run pool disk suite { s with rules := others }).2 := by
  simp only [run, List.map_append, List.flatMap_append]
  rfl

/-- What a rule reports comes fork by fork; behind it stands that the rule ran nowhere. -/
theorem runRule_snd : (runRule pool disk suite s op).2 =
    ((s.attempted op).flatMap fun fork => (Outcome.run pool disk suite s op fork).2) ++
      if ranNowhere pool disk suite s op then [.ruleWithoutSuite] else [] := by
  have hmissing : (ofOutcomes op.rule (outcomes pool disk suite s op)).missing = _ :=
    missing_ofOutcomes op
  rw [outcomes] at hmissing
  simp only [runRule, List.map_map, Function.comp_def, List.flatMap_map, hmissing]
  cases ranNowhere pool disk suite s op <;> simp

theorem run_snd : (run pool disk suite s).2 = s.rules.flatMap fun op =>
    ((s.attempted op).flatMap fun fork => (Outcome.run pool disk suite s op fork).2) ++
      if ranNowhere pool disk suite s op then [.ruleWithoutSuite] else [] := by
  simp only [run, List.flatMap_map, runRule_snd]

namespace Accounts

variable (h : Accounts pool disk suite s rules summary)
include h

/-- No pair is lost and none is counted twice. -/
theorem length_eq : summary.reports.length + summary.errors.length + summary.skipped.length =
    (s.attemptedPairs rules).length := by
  rw [h.reports_eq, h.errors_eq, h.skipped_eq, Outcome.length_filterMap, outcomesOf,
    List.length_map]

/-- What is skipped is a directory without fixtures, and only where pairs may be skipped. -/
theorem of_mem_skipped {dir : String} (hdir : dir ∈ summary.skipped) :
    s.explicit = false ∧ ∃ p ∈ s.attemptedPairs rules,
      (suite.run pool disk s.config p.2 p.1).1 = .error (.noFixtures dir) := by
  rw [h.skipped_eq, outcomesOf, List.mem_filterMap] at hdir
  obtain ⟨outcome, hmem, hskipped⟩ := hdir
  obtain ⟨⟨op, fork⟩, hpair, hrun⟩ := List.mem_map.1 hmem
  have hleft := Outcome.left_run pool disk suite s op fork
  rw [hrun] at hleft
  cases hleft with
  | reported => cases hskipped
  | refused => cases hskipped
  | skipped hsuite hexp =>
    obtain rfl := Option.some.inj hskipped
    exact ⟨hexp, (op, fork), hpair, hsuite⟩

theorem skipped_eq_nil (hexp : s.explicit = true) : summary.skipped = [] := by
  rw [List.eq_nil_iff_forall_not_mem]
  intro dir hdir
  have hnot := (h.of_mem_skipped hdir).1
  rw [hexp] at hnot
  cases hnot

end Accounts

theorem left_outcomesOf (pairs : List (Operation × Fork)) :
    List.Forall₂ (Outcome.Left pool disk suite s) pairs (outcomesOf pool disk suite s pairs) := by
  rw [outcomesOf, List.forall₂_map_right_iff, List.forall₂_same]
  exact fun p _ => Outcome.left_run pool disk suite s p.1 p.2

/-- **The account of a selection.** A selection is run in a single pass, rule by rule and fork by
fork. Every pair that is attempted leaves one outcome, which is one entry of one of three lists, in
the order of the pass; nothing is skipped where every pair was asked for, and elsewhere only
directories without fixtures are. A rule is missing, as often as it was selected, if it was
attempted and never reported. The rules of two selections, one behind the other, give the summaries
of both, list by list. -/
theorem run_accounts_for_pairs (pool : Pool) (disk : Disk) (suite : Suite) (s : Selection) :
    let summary := (run pool disk suite s).1
    let pairs := s.attemptedPairs s.rules
    summary = s.rules.foldl (Visit.rule pool disk suite s) empty ∧
    (run pool disk suite s).2 = (s.rules.flatMap fun op =>
      ((s.attempted op).flatMap fun fork => (Outcome.run pool disk suite s op fork).2) ++
        if ranNowhere pool disk suite s op then [.ruleWithoutSuite] else []) ∧
    pairs = (if s.explicit then s.pairs s.rules
      else (s.pairs s.rules).filter fun p => p.1.supports p.2) ∧
    (∃ outcomes, List.Forall₂ (Outcome.Left pool disk suite s) pairs outcomes ∧
      summary.reports = outcomes.filterMap Outcome.report? ∧
      summary.errors = outcomes.filterMap Outcome.error? ∧
      summary.skipped = outcomes.filterMap Outcome.skipped?) ∧
    summary.reports.length + summary.errors.length + summary.skipped.length = pairs.length ∧
    (s.explicit = true → summary.skipped = []) ∧
    (∀ dir ∈ summary.skipped, s.explicit = false ∧ ∃ p ∈ pairs,
      (suite.run pool disk s.config p.2 p.1).1 = .error (.noFixtures dir)) ∧
    summary.missing = (s.rules.filter (ranNowhere pool disk suite s)).map Operation.rule ∧
    (∀ op, ranNowhere pool disk suite s op = true ↔ (∃ fork, fork ∈ s.attempted op) ∧
      ∀ fork ∈ s.attempted op, ∀ report, (suite.run pool disk s.config fork op).1 ≠ .ok report) ∧
    ∀ rules others,
      (run pool disk suite { s with rules := rules ++ others }).1 =
        append (run pool disk suite { s with rules := rules }).1
          (run pool disk suite { s with rules := others }).1 ∧
      (run pool disk suite { s with rules := rules ++ others }).2 =
        (run pool disk suite { s with rules := rules }).2 ++
          (run pool disk suite { s with rules := others }).2 := by
  intro summary pairs
  have haccount : Accounts pool disk suite s s.rules summary := Accounts.run pool disk suite s
  refine ⟨run_fst_eq_pass, run_snd, ?_,
    ⟨outcomesOf pool disk suite s pairs, left_outcomesOf pairs, haccount.reports_eq,
      haccount.errors_eq, haccount.skipped_eq⟩,
    haccount.length_eq, haccount.skipped_eq_nil, fun dir => haccount.of_mem_skipped,
    haccount.missing_eq, fun op => ranNowhere_iff,
    fun rules others => ⟨run_append rules others, log_append rules others⟩⟩
  cases hexp : s.explicit with
  | true => exact Selection.attemptedPairs_of_explicit hexp
  | false => exact Selection.attemptedPairs_of_implicit hexp

/-- The voting rule has a case at one of two forks and the slashings rule has none; the rule of the
historical roots is defined at neither. -/
def keptSelection : Selection :=
  ⟨"minimal", [.capella, .deneb], [.ofRule .eth1DataReset, .ofRule .slashingsReset,
    .ofRule .historicalRootsUpdate, .ofRule .slashingsReset], false⟩

/-- No pair is lost: one is reported and passes, and a rule that was selected twice is missing
twice. -/
theorem account_of_kept_case :
    let summary := (run .tasks Suite.keptTree ⟨"v", 4⟩ keptSelection).1
    summary.reports.length + summary.errors.length + summary.skipped.length = 6 ∧
      (∃ report, summary.reports = [report] ∧ report.passed = true) ∧
      summary.skipped.length = 5 ∧ summary.missing = ["slashings_reset", "slashings_reset"] := by
  intro summary
  obtain ⟨-, -, -, ⟨outcomes, hleft, hreports, -, -⟩, hlength, -, -, hmissing, -⟩ :=
    run_accounts_for_pairs .tasks Suite.keptTree ⟨"v", 4⟩ keptSelection
  have hpairs : keptSelection.attemptedPairs keptSelection.rules =
      (.ofRule .eth1DataReset, .capella) :: (.ofRule .eth1DataReset, .deneb) ::
        ([.ofRule .slashingsReset, .ofRule .slashingsReset] : List Operation).flatMap fun op =>
          [(op, .capella), (op, .deneb)] := rfl
  have hone : summary.reports.length = 1 := by decide +kernel
  have hskipped : summary.skipped.length = 5 := by decide +kernel
  have hnowhere : (keptSelection.rules.filter (ranNowhere .tasks Suite.keptTree ⟨"v", 4⟩
      keptSelection)).map Operation.rule = ["slashings_reset", "slashings_reset"] := by
    decide +kernel
  refine ⟨by rw [hlength, hpairs]; rfl, ?_, hskipped, hmissing.trans hnowhere⟩
  rw [hpairs] at hleft
  cases hleft with
  | cons hfirst hrest =>
    cases hfirst with
    | skipped hrun => cases Suite.run_keptTree.symm.trans hrun
    | refused hrun => cases Suite.run_keptTree.symm.trans hrun
    | reported hrun =>
      cases Suite.run_keptTree.symm.trans hrun
      obtain ⟨others, hothers⟩ : ∃ others, summary.reports = Suite.reportOn ⟨"v", 4⟩
          Suite.keptTree "minimal" .minimal .capella (.ofRule .eth1DataReset) :: others :=
        ⟨_, hreports⟩
      rw [hothers, List.length_cons, Nat.succ_inj, List.length_eq_zero_iff] at hone
      exact ⟨_, hone ▸ hothers, Suite.passed_keptTree⟩

end Summary

end BeaconReplay
