import BeaconReplay.Chain.State
import BeaconReplay.Text.Decimal
import BeaconReplay.Json.Value

/-!
# Chain data as JSON

Every record lists its members in the order of its fields. As a value it has them in the order
of their names; as a text of its own it keeps the order of the fields.
-/
namespace BeaconReplay

namespace Root

/-- A root as a JSON string. -/
def json (r : Root) : Json := .string r.text

end Root

namespace Fork

/-- A fork as a JSON string. -/
def json (fork : Fork) : Json := .string fork.label

end Fork

/-- An array of encoded elements. -/
def Json.ofArray {α : Type} (encode : α → Json) (xs : Array α) : Json :=
  .array (xs.toList.map encode)

namespace Spec

/-- The members of a profile. -/
def members (spec : Spec) : List (String × Json) :=
  [("config_name", .string spec.configName),
   ("slots_per_epoch", .word spec.slotsPerEpoch),
   ("slots_per_historical_root", .word spec.slotsPerHistoricalRoot),
   ("epochs_per_eth1_voting_period", .word spec.epochsPerEth1VotingPeriod),
   ("epochs_per_slashings_vector", .word spec.epochsPerSlashingsVector),
   ("epochs_per_historical_vector", .word spec.epochsPerHistoricalVector)]

/-- A profile as a JSON value. -/
def json (spec : Spec) : Json := .ofMembers spec.members

end Spec

namespace HistoricalSummary

/-- The members of a summary. -/
def members (s : HistoricalSummary) : List (String × Json) :=
  [("block_summary_root", s.blockSummaryRoot.json), ("state_summary_root", s.stateSummaryRoot.json)]

/-- A summary as a JSON value. -/
def json (s : HistoricalSummary) : Json := .ofMembers s.members

end HistoricalSummary

namespace Eth1Data

/-- The members of a snapshot. -/
def members (d : Eth1Data) : List (String × Json) :=
  [("deposit_root", d.depositRoot.json), ("deposit_count", .word d.depositCount),
   ("block_hash", d.blockHash.json)]

/-- A snapshot as a JSON value. -/
def json (d : Eth1Data) : Json := .ofMembers d.members

end Eth1Data

namespace BeaconState

/-- The members of a state. -/
def members (s : BeaconState) : List (String × Json) :=
  [("fork", s.fork.json), ("slot", .word s.slot),
   ("block_roots", .ofArray Root.json s.blockRoots),
   ("state_roots", .ofArray Root.json s.stateRoots),
   ("historical_roots", .ofArray Root.json s.historicalRoots),
   ("historical_summaries", .ofArray HistoricalSummary.json s.historicalSummaries),
   ("eth1_data", s.eth1Data.json),
   ("eth1_data_votes", .ofArray Eth1Data.json s.eth1DataVotes),
   ("randao_mixes", .ofArray Root.json s.randaoMixes),
   ("slashings", .ofArray Json.word s.slashings)]

/-- A state as a JSON value. -/
def json (s : BeaconState) : Json := .ofMembers s.members

end BeaconState

end BeaconReplay
