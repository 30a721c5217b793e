import BeaconReplay.Replay.Fixture
import BeaconReplay.Replay.Operation
import BeaconReplay.Replay.Pool

/-!
# Suites

A suite replays all cases of a rule at one fork. Each case is judged on its own, and what goes
wrong in one of them, a crash included, is a failure of that case only. The report lists the
cases in the order of their names, however many are replayed at a time.
-/
namespace BeaconReplay

namespace Fixture

/-- Judge the outcome of a transition by what a case expects. -/
def judge (rule : String) (post : Option BeaconState) (outcome : Except Failure BeaconState) :
    Except Failure Unit :=
  match post, outcome with
  | some expected, .ok actual =>
    if expected = actual then pure () else throw (.mismatch (expected.diff actual))
  | some _, .error failure => throw failure
  | none, .ok _ => throw (.unexpectedSuccess rule)
  | none, .error (.transition _ _) => pure ()
  | none, .error failure => throw failure

/-- Replay a case. A crash of the transition is passed on. -/
def replay (disk : Disk) (spec : Spec) (fork : Fork) (folder : String) (op : Operation) :
    Except (Halt Failure) Unit :=
  match load disk spec fork folder with
  | .error failure => throw (.refused failure)
  | .ok fixture =>
    match op.transition spec fixture.pre with
    | .error (.crashed crash) => throw (.crashed crash)
    | .error (.refused failure) =>
      (judge op.rule fixture.post (.error failure)).mapError .refused
    | .ok state => (judge op.rule fixture.post (.ok state)).mapError .refused

end Fixture

/-- The outcome of one case; nothing is wrong with a case that passed. -/
structure Subtest where
  name : String
  failure : Option Failure

namespace Subtest

/-- Replay a case in isolation: a crash is a failure. -/
def run (disk : Disk) (spec : Spec) (fork : Fork) (op : Operation) (folder : CaseFolder) :
    Subtest where
  name := folder.name
  failure :=
    match Fixture.replay disk spec fork folder.path op with
    | .ok () => none
    | .error (.refused failure) => some failure
    | .error (.crashed crash) => some (.crashed crash.message)

/-- What a case reports. -/
def event (t : Subtest) : Event := if t.failure.isNone then .subtestPassed else .subtestFailed

end Subtest

/-- The outcome of a suite. -/
structure Report where
  config : String
  fork : Fork
  rule : String
  subtests : List Subtest

namespace Report

/-- Whether no case failed. -/
def passed (r : Report) : Bool := r.subtests.all (·.failure.isNone)

/-- The names of all cases. -/
def names (r : Report) : List String := r.subtests.map Subtest.name

/-- The cases that failed, and why. -/
def failures (r : Report) : List (String × Failure) :=
  r.subtests.filterMap fun t => t.failure.map fun f => (t.name, f)

/-- The line that sums up a report. -/
def text (r : Report) : String :=
  let failed := r.failures.length
  r.config ++ "/" ++ r.fork.label ++ "/" ++ r.rule ++ ": " ++
    toString (r.subtests.length - failed) ++ " passed, " ++ toString failed ++ " failed"

/-- The lines on a failed case. -/
def failureText (name : String) (failure : Failure) : String :=
  "--- FAIL: " ++ name ++ "\n" ++ failure.message ++ "\n"

/-- The complaint about a report with failures; nothing if all cases passed. -/
def complaint? (r : Report) : Option String :=
  if r.passed then none
  else some (r.text ++ "\n" ++ String.join (r.failures.map fun (n, f) => failureText n f))

end Report

/-- Where a suite finds its fixtures, and how many of them it replays at a time. -/
structure Suite where
  root : String
  concurrency : Nat

namespace Suite

/-- Apply a function to all elements: one after the other, or by the threads of a pool if there are
to be several. -/
def replayAll {α β : Type} (pool : Pool) (n : Nat) (f : α → β) (xs : List α) :
    Except String (List β) :=
  if 1 < n then do
    pool.start n
    pure (pool.collect n f xs)
  else pure (xs.map f)

/-- Run all cases of an operation, with what the run reports. -/
def run (pool : Pool) (disk : Disk) (suite : Suite) (config : String) (fork : Fork)
    (op : Operation) : Except SuiteError Report × List Event :=
  match Spec.ofName config with
  | .error _ => (.error (.unknownConfig config), [])
  | .ok spec =>
    if !op.supports fork then (.error (.unsupportedFork op.rule fork), [])
    else
      let (folders, events) := CaseFolder.locate disk suite.root spec fork op.category
      if folders.isEmpty then
        (.error (.noFixtures (CaseFolder.categoryDir suite.root spec fork op.category)), events)
      else
        match replayAll pool suite.concurrency (Subtest.run disk spec fork op) folders with
        | .error reason => (.error (.threadPool reason), events ++ [.suiteRunning])
        | .ok subtests =>
          (.ok ⟨config, fork, op.rule, subtests⟩,
            events ++ .suiteRunning :: subtests.map Subtest.event)

end Suite

end BeaconReplay
