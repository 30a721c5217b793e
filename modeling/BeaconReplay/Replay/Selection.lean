import BeaconReplay.Replay.Suite

/-!
# Selections of suites

A selection names forks and rules; an empty list stands for all of them. Where both are named,
every pair has to run. Otherwise pairs that are not defined are left out and pairs without
fixtures are skipped, but every rule that is defined at some fork has to run at least once.
-/
namespace BeaconReplay

/-- The suites to run. -/
structure Selection where
  config : String
  forks : List Fork
  rules : List Operation
  /-- Whether both forks and rules were named. -/
  explicit : Bool

namespace Selection

/-- Select forks and rules. -/
def new (config : String) (forks : List Fork) (rules : List Operation) : Selection where
  config := config
  forks := if forks.isEmpty then Fork.all else forks
  rules := if rules.isEmpty then Operation.all else rules
  explicit := !forks.isEmpty && !rules.isEmpty

/-- Whether a pair is to be run. -/
def attempts (s : Selection) (op : Operation) (fork : Fork) : Bool := s.explicit || op.supports fork

/-- The forks at which a rule is to be run. -/
def attempted (s : Selection) (op : Operation) : List Fork := s.forks.filter (s.attempts op)

end Selection

/-- The outcome of one pair of a selection. -/
inductive Outcome where
  | reported (report : Report)
  | refused (error : SuiteError)
  /-- There are no fixtures in a directory. -/
  | skipped (dir : String)

namespace Outcome

/-- Run one pair, with what the run reports. -/
def run (pool : Pool) (disk : Disk) (suite : Suite) (s : Selection) (op : Operation)
    (fork : Fork) : Outcome × List Event :=
  match suite.run pool disk s.config fork op with
  | (.ok report, events) =>
    let verdict : List Event :=
      if report.passed then [.suitePassed]
      else report.failures.map (fun _ => Event.fixtureFailed) ++ [.suiteFailed]
    (.reported report, events ++ verdict)
  | (.error (.noFixtures dir), events) =>
    if s.explicit then (.refused (.noFixtures dir), events ++ [.suiteAborted])
    else (.skipped dir, events ++ [.pairSkipped])
  | (.error e, events) => (.refused e, events ++ [.suiteAborted])

/-- The report of an outcome. -/
def report? : Outcome → Option Report
  | reported r => some r
  | _ => none

/-- The error of an outcome. -/
def error? : Outcome → Option SuiteError
  | refused e => some e
  | _ => none

/-- The directory that was skipped. -/
def skipped? : Outcome → Option String
  | skipped dir => some dir
  | _ => none

end Outcome

/-- The outcome of a selection. -/
structure Summary where
  reports : List Report
  errors : List SuiteError
  skipped : List String
  /-- The rules that were to run and ran nowhere. -/
  missing : List String

namespace Summary

/-- Nothing has been run. -/
def empty : Summary := ⟨[], [], [], []⟩

/-- One summary after another. -/
def append (a b : Summary) : Summary :=
  ⟨a.reports ++ b.reports, a.errors ++ b.errors, a.skipped ++ b.skipped, a.missing ++ b.missing⟩

/-- Whether a selection passed: something ran, and nothing went wrong. -/
def passed (s : Summary) : Bool :=
  !s.reports.isEmpty && s.errors.isEmpty && s.missing.isEmpty && s.reports.all Report.passed

/-- The summary of the outcomes of one rule. -/
def ofOutcomes (rule : String) (outcomes : List Outcome) : Summary where
  reports := outcomes.filterMap Outcome.report?
  errors := outcomes.filterMap Outcome.error?
  skipped := outcomes.filterMap Outcome.skipped?
  missing :=
    if !outcomes.isEmpty && outcomes.all (·.report?.isNone) then [rule] else []

/-- Run one rule at all its forks. -/
def runRule (pool : Pool) (disk : Disk) (suite : Suite) (s : Selection) (op : Operation) :
    Summary × List Event :=
  let runs := (s.attempted op).map (Outcome.run pool disk suite s op)
  let summary := ofOutcomes op.rule (runs.map Prod.fst)
  let events := runs.flatMap Prod.snd
  (summary, if summary.missing.isEmpty then events else events ++ [.ruleWithoutSuite])

/-- Run a selection, rule by rule. -/
def run (pool : Pool) (disk : Disk) (suite : Suite) (s : Selection) : Summary × List Event :=
  let runs := s.rules.map (runRule pool disk suite s)
  ((runs.map Prod.fst).foldl append empty, runs.flatMap Prod.snd)

end Summary

end BeaconReplay
