import BeaconReplay.Chain.Rule
import BeaconReplay.Codec.Fault
import BeaconReplay.Disk.Tree
import BeaconReplay.Replay.Diff

/-!
# Why a case fails and why a suite does not run

A failure belongs to one case. A suite error stands in front of all cases: nothing has been run.
-/
namespace BeaconReplay

/-- Why a case fails. -/
inductive Failure where
  | unreadable (path : String) (fault : ReadFault)
  | unparsable (path : String) (fault : Fault)
  | invalidState (path : String) (cause : ChainError)
  | forkMismatch (expected found : Fork)
  | transition (rule : String) (cause : ChainError)
  | unexpectedSuccess (rule : String)
  | mismatch (differences : List Difference)
  | crashed (reason : String)

namespace Failure

/-- What stands for the fault of a broken YAML text. -/
def brokenYaml : String := "<yaml>"

/-- The wording of a failure. -/
def message : Failure → String
  | unreadable path fault => "failed to read " ++ path ++ ": " ++ fault.message
  | unparsable path fault => "failed to parse " ++ path ++ ": " ++ fault.message brokenYaml
  | invalidState path cause => "invalid state in " ++ path ++ ": " ++ cause.message
  | forkMismatch expected found =>
    "fixture fork mismatch: expected " ++ expected.label ++ ", found " ++ found.label
  | transition rule cause => rule ++ " failed: " ++ cause.message
  | unexpectedSuccess rule => rule ++ " succeeded but the fixture expects it to fail"
  | mismatch differences => "post-state mismatch:\n" ++ Diff.text differences
  | crashed reason => "subtest panicked: " ++ reason

end Failure

/-- Why a suite does not run. -/
inductive SuiteError where
  | unknownConfig (name : String)
  | unsupportedFork (rule : String) (fork : Fork)
  | noFixtures (dir : String)
  /-- The threads for several cases at a time cannot be started. -/
  | threadPool (reason : String)

namespace SuiteError

/-- The wording of a suite error. -/
def message : SuiteError → String
  | unknownConfig name => "unknown config: " ++ name
  | unsupportedFork rule fork => rule ++ " is not defined for " ++ fork.label
  | noFixtures dir =>
    "no fixtures found in " ++ dir ++ " (are the test vectors vendored?)"
  | threadPool reason => "failed to build thread pool: " ++ reason

end SuiteError

end BeaconReplay
