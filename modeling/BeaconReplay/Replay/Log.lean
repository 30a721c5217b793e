/-!
# What a run reports while it goes on

Each event has a level and a fixed wording.
-/
namespace BeaconReplay

/-- How important an event is. -/
inductive Level where
  | debug
  | info
  | warn
  | error
  deriving DecidableEq, Repr

namespace Level

/-- The name of a level. -/
def name : Level → String
  | debug => "DEBUG"
  | info => "INFO"
  | warn => "WARN"
  | error => "ERROR"

end Level

/-- Something worth a line in the log. -/
inductive Event where
  | categoryMissing
  | fixturesResolved
  | suiteRunning
  | subtestPassed
  | subtestFailed
  | suitePassed
  | fixtureFailed
  | suiteFailed
  | pairSkipped
  | suiteAborted
  | ruleWithoutSuite
  | nothingRan
  deriving DecidableEq, Repr

namespace Event

/-- The level of an event. -/
def level : Event → Level
  | categoryMissing | fixturesResolved => .debug
  | suiteRunning | subtestPassed | suitePassed => .info
  | subtestFailed | pairSkipped => .warn
  | fixtureFailed | suiteFailed | suiteAborted | ruleWithoutSuite | nothingRan => .error

/-- The wording of an event. -/
def message : Event → String
  | categoryMissing => "category directory missing"
  | fixturesResolved => "resolved fixtures"
  | suiteRunning => "running suite"
  | subtestPassed => "subtest passed"
  | subtestFailed => "subtest failed"
  | suitePassed => "suite passed"
  | fixtureFailed => "fixture failed"
  | suiteFailed => "suite failed"
  | pairSkipped => "no fixtures, skipping"
  | suiteAborted => "suite aborted"
  | ruleWithoutSuite => "no suite ran for rule"
  | nothingRan => "no suites ran"

end Event

end BeaconReplay
