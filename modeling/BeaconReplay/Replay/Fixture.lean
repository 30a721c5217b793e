import BeaconReplay.Codec.Chain
import BeaconReplay.Replay.Failure
import BeaconReplay.Replay.Log
import BeaconReplay.Yaml.Source

/-!
# Fixtures on disk

The cases of a category are the directories in one directory, in the order of their names. A
case holds the state before a transition and, unless the transition is to fail, the state after
it. Both have to belong to the fork and to fit the profile.
-/
namespace BeaconReplay

/-- The directory of one case. -/
structure CaseFolder where
  name : String
  path : String
  deriving DecidableEq, Repr

namespace CaseFolder

/-- The directory that holds the cases of a category. -/
def casesName : String := "pyspec_tests"

/-- The directory of the cases of a category; empty parts of the category are passed over. -/
def categoryDir (root : String) (spec : Spec) (fork : Fork) (category : String) : String :=
  let top := Path.join (Path.join root spec.configName) fork.label
  Path.join ((Path.names category).foldl Path.join top) casesName

/-- The entries of a directory that are directories themselves, by name. -/
def inside (disk : Disk) (dir : String) (names : List String) : List CaseFolder :=
  let folders := (names.map fun name => CaseFolder.mk name (Path.join dir name)).filter
    fun f => disk.isDirectory f.path
  folders.mergeSort fun a b => decide (a.name ≤ b.name)

/-- The cases of a category, with what the search reports. -/
def locate (disk : Disk) (root : String) (spec : Spec) (fork : Fork) (category : String) :
    List CaseFolder × List Event :=
  let dir := categoryDir root spec fork category
  match disk.names? dir with
  | some names => (inside disk dir names, [.fixturesResolved])
  | none => ([], [.categoryMissing])

end CaseFolder

/-- The name of the variable that names the root of the fixtures. -/
def vectorsVariable : String := "CONSENSUS_SPEC_TESTS_DIR"

/-- The root of the fixtures that come with the program. -/
def vendoredVectors : String := "spectest/vectors"

/-- The root of the fixtures: the value of the variable, if it is set. -/
def vectorsRoot (setting : Option String) : String := setting.getD vendoredVectors

/-- A loaded case. -/
structure Fixture where
  pre : BeaconState
  post : Option BeaconState

namespace Fixture

/-- The file of the state before the transition. -/
def preName : String := "pre.yaml"

/-- The file of the expected state behind the transition. -/
def postName : String := "post.yaml"

/-- A state of a fork and a profile, from its text. -/
def parseState (spec : Spec) (fork : Fork) (path text : String) : Except Failure BeaconState :=
  match Yaml.decode Yaml.source.state text with
  | .error fault => throw (.unparsable path fault)
  | .ok state =>
    if state.fork ≠ fork then throw (.forkMismatch fork state.fork)
    else
      match state.validate spec with
      | .error cause => throw (.invalidState path cause)
      | .ok () => pure state

/-- Read a state of a fork and a profile. -/
def readState (disk : Disk) (spec : Spec) (fork : Fork) (path : String) :
    Except Failure BeaconState :=
  match disk.read path with
  | .error fault => throw (.unreadable path fault)
  | .ok text => parseState spec fork path text

/-- Load a case. -/
def load (disk : Disk) (spec : Spec) (fork : Fork) (folder : String) : Except Failure Fixture := do
  let pre ← readState disk spec fork (Path.join folder preName)
  let postPath := Path.join folder postName
  if disk.holds postPath then
    let post ← readState disk spec fork postPath
    pure ⟨pre, some post⟩
  else pure ⟨pre, none⟩

end Fixture

end BeaconReplay
