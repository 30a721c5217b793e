import BeaconReplay.Replay.Fixture
import BeaconReplay.Yaml.Printer

/-!
# The fixtures that come with the program

Ten cases at the minimal profile. The roots of their states are hashes of a label and a number,
so that the entries of a vector all differ. The state behind each transition is given by what the
rule should change, and not by running the rule.
-/
namespace BeaconReplay.Vendored

/-- The low eight bytes of a number, the lowest first. -/
def wordBytes (n : Nat) : List UInt8 := (List.range 8).map fun i => (n / Nat.pow 256 i).toUInt8

/-- The root of a label and a number. -/
def seeded (label : String) (n : Nat) : Root := Root.hash (label.toUTF8.toList ++ wordBytes n)

/-- As many roots as a vector of the given length has, numbered from `start` on. -/
def seededFrom (label : String) (start : Nat) (length : UInt64) : Array Root :=
  ((List.range length.toNat).map fun i => seeded label (start + i)).toArray

/-- A snapshot of the deposit contract. -/
def snapshot (n : Nat) : Eth1Data :=
  ⟨seeded "deposit" n, (16 + n).toUInt64, seeded "eth1" n⟩

/-- The state of a fork at a slot. -/
def state (spec : Spec) (fork : Fork) (slot : Nat) : BeaconState where
  fork := fork
  slot := slot.toUInt64
  blockRoots := seededFrom "block" slot spec.slotsPerHistoricalRoot
  stateRoots := seededFrom "state" slot spec.slotsPerHistoricalRoot
  historicalRoots := #[]
  historicalSummaries := #[]
  eth1Data := snapshot 0
  eth1DataVotes := #[]
  randaoMixes := seededFrom "randao" 0 spec.epochsPerHistoricalVector
  slashings :=
    ((List.range spec.epochsPerSlashingsVector.toNat).map fun i =>
      ((i + 1) * 1000000000).toUInt64).toArray

/-- A case: the state before and the state behind a transition. -/
structure Case where
  rule : Rule
  name : String
  pre : BeaconState
  post : BeaconState

/-- A case whose transition changes nothing. -/
def unchanged (rule : Rule) (name : String) (s : BeaconState) : Case := ⟨rule, name, s, s⟩

/-- The case of one summary at the end of the first period. -/
def oneSummary (spec : Spec) (fork : Fork) : Case :=
  let s := state spec fork 63
  ⟨.historicalSummariesUpdate, "success_one_summary", s,
    { s with historicalSummaries := #[Rule.summary s] }⟩

/-- The case of a summary at the end of the second period. -/
def twoSummaries (spec : Spec) : Case :=
  let first := Rule.summary (state spec .capella 63)
  let s := { state spec .capella 127 with historicalSummaries := #[first] }
  ⟨.historicalSummariesUpdate, "historical_summaries_accumulator", s,
    { s with historicalSummaries := #[first, Rule.summary s] }⟩

/-- The case of a batch root at the end of the first period. -/
def oneRoot (spec : Spec) : Case :=
  let s := state spec .bellatrix 63
  ⟨.historicalRootsUpdate, "historical_root_accumulator", s,
    { s with historicalRoots := #[Rule.batchRoot s] }⟩

/-- A state with two votes. -/
def withVotes (spec : Spec) (slot : Nat) : BeaconState :=
  { state spec .capella slot with eth1DataVotes := #[snapshot 1, snapshot 2] }

/-- The case of votes that are dropped at the end of a voting period. -/
def votesDropped (spec : Spec) : Case :=
  ⟨.eth1DataReset, "eth1_vote_reset", withVotes spec 31, state spec .capella 31⟩

/-- The case of a mix that is carried over to the next epoch. -/
def mixCarried (spec : Spec) : Case :=
  let s := state spec .capella 7
  ⟨.randaoMixesReset, "updated_randao_mixes", s,
    { s with randaoMixes := s.randaoMixes.setIfInBounds 1 (seeded "randao" 0) }⟩

/-- The case of slashings that are cleared for the next epoch. -/
def slashingsCleared (spec : Spec) : Case :=
  let s := state spec .capella 15
  ⟨.slashingsReset, "flush_slashings", s, { s with slashings := s.slashings.setIfInBounds 2 0 }⟩

/-- All cases. -/
def cases (spec : Spec) : List Case :=
  [oneRoot spec, unchanged .historicalRootsUpdate "no_update_mid_period" (state spec .bellatrix 39),
   unchanged .eth1DataReset "eth1_vote_no_reset" (withVotes spec 23), votesDropped spec,
   oneSummary spec .capella, oneSummary spec .deneb, twoSummaries spec,
   unchanged .historicalSummariesUpdate "no_update_mid_period" (state spec .capella 31),
   mixCarried spec, slashingsCleared spec]

namespace Case

/-- The directory of a case. -/
def folder (root : String) (spec : Spec) (c : Case) : String :=
  let category := "epoch_processing/" ++ c.rule.name
  Path.join (CaseFolder.categoryDir root spec c.pre.fork category) c.name

/-- The two files of a case. -/
def files (spec : Spec) (c : Case) : List (String × String) :=
  [(Path.join (c.folder "" spec) Fixture.preName, c.pre.yaml),
   (Path.join (c.folder "" spec) Fixture.postName, c.post.yaml)]

end Case

/-- The fixtures of a profile below a directory; only the minimal profile has any. -/
def disk (mount : String) (spec : Spec) : Disk :=
  let files := if spec = Spec.minimal then (cases spec).flatMap (Case.files spec) else []
  files.foldl (fun d (path, text) => d.insert path (.file (some text))) ⟨mount, []⟩

end BeaconReplay.Vendored
