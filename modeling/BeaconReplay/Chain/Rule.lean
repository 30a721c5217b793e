import BeaconReplay.Chain.Merkle
import BeaconReplay.Chain.State

/-!
# The epoch rules

Five updates are applied at the end of an epoch. A rule takes a profile and a state and gives
the next state, or halts and leaves nothing behind. The two historical rules share one
schedule: a period ends when the next epoch is a multiple of its length.
-/
namespace BeaconReplay

/-- The rules of epoch processing. -/
inductive Rule where
  | eth1DataReset
  | historicalRootsUpdate
  | historicalSummariesUpdate
  | randaoMixesReset
  | slashingsReset
  deriving DecidableEq, Repr

namespace Rule

/-- All rules in the order of their names. -/
def all : List Rule :=
  [eth1DataReset, historicalRootsUpdate, historicalSummariesUpdate, randaoMixesReset,
   slashingsReset]

/-- The name of a rule in paths and messages. -/
def name : Rule → String
  | eth1DataReset => "eth1_data_reset"
  | historicalRootsUpdate => "historical_roots_update"
  | historicalSummariesUpdate => "historical_summaries_update"
  | randaoMixesReset => "randao_mixes_reset"
  | slashingsReset => "slashings_reset"

/-- The rule with a name. -/
def ofName? (s : String) : Option Rule := all.find? (·.name == s)

/-- Whether a rule is defined at a fork: summaries replace roots at Capella. -/
def supports : Rule → Fork → Bool
  | historicalRootsUpdate, fork => fork.before .capella
  | historicalSummariesUpdate, fork => !fork.before .capella
  | _, _ => true

/-- A step of a rule. -/
abbrev Step := Except (Halt ChainError)

/-- A check as a step. -/
def checked {α : Type} : Except ChainError α → Step α
  | .ok a => .ok a
  | .error e => .error (.refused e)

/-- Arithmetic as a step. -/
def computed {α : Type} : Except Crash α → Step α
  | .ok a => .ok a
  | .error c => .error (.crashed c)

/-- The epoch after the state's own; the last epoch of all has none. -/
def nextEpoch (spec : Spec) (state : BeaconState) : Step UInt64 := do
  let epoch ← computed (spec.epochAt state.slot)
  if epoch = 0xffffffffffffffff then .error (.refused (.slotOverflow state.slot))
  else pure (epoch + 1)

/-- Refuse a fork that lies outside of those of a rule. -/
def gate (outside : Bool) (rule : Rule) (fork : Fork) : Step Unit :=
  if outside then .error (.refused (.unsupportedFork rule.name fork)) else pure ()

/-- Whether the epoch after the state's own starts a new historical period. -/
def startsPeriod (spec : Spec) (state : BeaconState) : Step Bool := do
  let next ← nextEpoch spec state
  let period ← computed spec.epochsPerHistoricalRoot
  let r ← computed (Spec.remainder next period)
  pure (r == 0)

/-- Refuse to append to a list at its limit. -/
def room (list : String) (size : Nat) : Step Unit :=
  if size < historicalRootsLimit then pure ()
  else .error (.refused (.listFull list historicalRootsLimit))

/-- The summary of the state's two historical vectors. -/
def summary (state : BeaconState) : HistoricalSummary :=
  ⟨Merkle.root state.blockRoots.toList, Merkle.root state.stateRoots.toList⟩

/-- The root of the batch of the state's two historical vectors. -/
def batchRoot (state : BeaconState) : Root :=
  Root.hashPair (Merkle.root state.blockRoots.toList) (Merkle.root state.stateRoots.toList)

/-- Append a summary when the next epoch starts a new period. -/
def updateSummaries (spec : Spec) (state : BeaconState) : Step BeaconState := do
  gate (state.fork.before .capella) .historicalSummariesUpdate state.fork
  checked (state.validate spec)
  if ← startsPeriod spec state then
    room "historical_summaries" state.historicalSummaries.size
    pure { state with historicalSummaries := state.historicalSummaries.push (summary state) }
  else pure state

/-- Append a batch root when the next epoch starts a new period. -/
def updateRoots (spec : Spec) (state : BeaconState) : Step BeaconState := do
  gate (state.fork.reaches .capella) .historicalRootsUpdate state.fork
  checked (state.validate spec)
  if ← startsPeriod spec state then
    room "historical_roots" state.historicalRoots.size
    pure { state with historicalRoots := state.historicalRoots.push (batchRoot state) }
  else pure state

/-- Drop the votes when the next epoch starts a new voting period. -/
def resetVotes (spec : Spec) (state : BeaconState) : Step BeaconState := do
  let next ← nextEpoch spec state
  let r ← computed (Spec.remainder next spec.epochsPerEth1VotingPeriod)
  if r == 0 then pure { state with eth1DataVotes := #[] } else pure state

/-- Zero the slashings entry of the next epoch. -/
def resetSlashings (spec : Spec) (state : BeaconState) : Step BeaconState := do
  checked (state.validate spec)
  let next ← nextEpoch spec state
  let i ← computed (Spec.remainder next spec.epochsPerSlashingsVector)
  pure { state with slashings := state.slashings.setIfInBounds i.toNat 0 }

/-- Carry the mix of the current epoch forward into the entry of the next one. -/
def resetMixes (spec : Spec) (state : BeaconState) : Step BeaconState := do
  checked (state.validate spec)
  let current ← computed (spec.epochAt state.slot)
  let next ← nextEpoch spec state
  let i ← computed (Spec.remainder current spec.epochsPerHistoricalVector)
  let j ← computed (Spec.remainder next spec.epochsPerHistoricalVector)
  let mix := state.randaoMixes.getD i.toNat Root.zero
  pure { state with randaoMixes := state.randaoMixes.setIfInBounds j.toNat mix }

/-- Apply a rule. -/
def apply : Rule → Spec → BeaconState → Step BeaconState
  | eth1DataReset => resetVotes
  | historicalRootsUpdate => updateRoots
  | historicalSummariesUpdate => updateSummaries
  | randaoMixesReset => resetMixes
  | slashingsReset => resetSlashings

end Rule

end BeaconReplay
