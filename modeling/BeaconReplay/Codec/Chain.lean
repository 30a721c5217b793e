import BeaconReplay.Chain.State
import BeaconReplay.Codec.Source

/-!
# Decoders of chain data

Profiles, roots and states from a text of any format. The two historical lists and the votes of
a state may be left out and are empty then.
-/
namespace BeaconReplay.Source

variable {ν : Type} (src : Source ν)

/-- A root from its text. -/
def root (v : ν) : Decoded Root := do
  let s ← src.text v
  match Root.parse? s with
  | some r => pure r
  | none => throw (.ofCause (.invalidHex s))

/-- A profile. -/
def spec (v : ν) : Decoded Spec := src.inside v do
  let e ← src.entries "ChainSpec"
    [.of "config_name" src.text, .of "slots_per_epoch" src.word,
     .of "slots_per_historical_root" src.word, .of "epochs_per_eth1_voting_period" src.word,
     .of "epochs_per_slashings_vector" src.word, .of "epochs_per_historical_vector" src.word] v
  pure {
    configName := ← e.required 0 "config_name" src.text
    slotsPerEpoch := ← e.required 1 "slots_per_epoch" src.word
    slotsPerHistoricalRoot := ← e.required 2 "slots_per_historical_root" src.word
    epochsPerEth1VotingPeriod := ← e.required 3 "epochs_per_eth1_voting_period" src.word
    epochsPerSlashingsVector := ← e.required 4 "epochs_per_slashings_vector" src.word
    epochsPerHistoricalVector := ← e.required 5 "epochs_per_historical_vector" src.word }

/-- A historical summary. -/
def historicalSummary (v : ν) : Decoded HistoricalSummary := src.inside v do
  let e ← src.entries "HistoricalSummary"
    [.of "block_summary_root" src.root, .of "state_summary_root" src.root] v
  pure {
    blockSummaryRoot := ← e.required 0 "block_summary_root" src.root
    stateSummaryRoot := ← e.required 1 "state_summary_root" src.root }

/-- A deposit contract snapshot. -/
def eth1Data (v : ν) : Decoded Eth1Data := src.inside v do
  let e ← src.entries "Eth1Data"
    [.of "deposit_root" src.root, .of "deposit_count" src.word, .of "block_hash" src.root] v
  pure {
    depositRoot := ← e.required 0 "deposit_root" src.root
    depositCount := ← e.required 1 "deposit_count" src.word
    blockHash := ← e.required 2 "block_hash" src.root }

/-- The fields of a state in order. -/
def stateFields : List (Field ν) :=
  [.of "fork" src.fork, .of "slot" src.word, .of "block_roots" (src.list src.root),
   .of "state_roots" (src.list src.root), .of "historical_roots" (src.list src.root),
   .of "historical_summaries" (src.list src.historicalSummary), .of "eth1_data" src.eth1Data,
   .of "eth1_data_votes" (src.list src.eth1Data), .of "randao_mixes" (src.list src.root),
   .of "slashings" (src.list src.word)]

/-- A state. -/
def state (v : ν) : Decoded BeaconState := src.inside v do
  let e ← src.entries "BeaconState" src.stateFields v
  pure {
    fork := ← e.required 0 "fork" src.fork
    slot := ← e.required 1 "slot" src.word
    blockRoots := ← e.required 2 "block_roots" (src.list src.root)
    stateRoots := ← e.required 3 "state_roots" (src.list src.root)
    historicalRoots := ← e.optional "historical_roots" #[] (src.list src.root)
    historicalSummaries :=
      ← e.optional "historical_summaries" #[] (src.list src.historicalSummary)
    eth1Data := ← e.required 6 "eth1_data" src.eth1Data
    eth1DataVotes := ← e.optional "eth1_data_votes" #[] (src.list src.eth1Data)
    randaoMixes := ← e.required 8 "randao_mixes" (src.list src.root)
    slashings := ← e.required 9 "slashings" (src.list src.word) }

end BeaconReplay.Source
