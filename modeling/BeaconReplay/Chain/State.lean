import BeaconReplay.Chain.Root
import BeaconReplay.Chain.Spec

/-!
# Beacon states

The part of the beacon state that epoch processing reads and writes. Four vectors have lengths
fixed by the profile; `validate` checks them.
-/
namespace BeaconReplay

/-- The summary of one historical period, appended from Capella onwards. -/
structure HistoricalSummary where
  blockSummaryRoot : Root
  stateSummaryRoot : Root
  deriving DecidableEq, Inhabited

/-- A snapshot of the deposit contract that proposers vote on. -/
structure Eth1Data where
  depositRoot : Root
  depositCount : UInt64
  blockHash : Root
  deriving DecidableEq, Inhabited

/-- The part of a beacon state touched by epoch processing. -/
structure BeaconState where
  fork : Fork
  slot : UInt64
  blockRoots : Array Root
  stateRoots : Array Root
  historicalRoots : Array Root
  historicalSummaries : Array HistoricalSummary
  eth1Data : Eth1Data
  eth1DataVotes : Array Eth1Data
  randaoMixes : Array Root
  slashings : Array UInt64
  deriving DecidableEq, Inhabited

namespace BeaconState

/-- The empty state at slot zero with vectors sized for a profile. -/
def new (spec : Spec) (fork : Fork) : BeaconState where
  fork := fork
  slot := 0
  blockRoots := Array.replicate spec.slotsPerHistoricalRoot.toNat Root.zero
  stateRoots := Array.replicate spec.slotsPerHistoricalRoot.toNat Root.zero
  historicalRoots := #[]
  historicalSummaries := #[]
  eth1Data := ⟨Root.zero, 0, Root.zero⟩
  eth1DataVotes := #[]
  randaoMixes := Array.replicate spec.epochsPerHistoricalVector.toNat Root.zero
  slashings := Array.replicate spec.epochsPerSlashingsVector.toNat 0

/-- Require a vector to have the length that the profile gives. -/
def checkLength (field : String) (expected : UInt64) (found : Nat) : Except ChainError Unit :=
  if expected.toNat = found then .ok () else .error (.invalidLength field expected.toNat found)

/-- Check every vector of fixed length; the first that is off is named. -/
def validate (state : BeaconState) (spec : Spec) : Except ChainError Unit := do
  checkLength "block_roots" spec.slotsPerHistoricalRoot state.blockRoots.size
  checkLength "state_roots" spec.slotsPerHistoricalRoot state.stateRoots.size
  checkLength "randao_mixes" spec.epochsPerHistoricalVector state.randaoMixes.size
  checkLength "slashings" spec.epochsPerSlashingsVector state.slashings.size

end BeaconState

end BeaconReplay
