import BeaconReplay.Chain.State
import BeaconReplay.Text.Decimal

/-!
# States as YAML texts

Block style: a member on a line, items behind a dash at the indentation of their list, roots in
single quotes, and an empty list as a pair of brackets.
-/
namespace BeaconReplay

namespace Root

/-- A root in quotes. -/
def yaml (r : Root) : String := "'" ++ r.text ++ "'"

end Root

namespace HistoricalSummary

/-- The lines of a summary behind an indentation; the first line starts with `first`. -/
def yaml (first indent : String) (s : HistoricalSummary) : String :=
  first ++ "block_summary_root: " ++ s.blockSummaryRoot.yaml ++ "\n" ++
    indent ++ "state_summary_root: " ++ s.stateSummaryRoot.yaml ++ "\n"

end HistoricalSummary

namespace Eth1Data

/-- The lines of a snapshot behind an indentation; the first line starts with `first`. -/
def yaml (first indent : String) (d : Eth1Data) : String :=
  first ++ "deposit_root: " ++ d.depositRoot.yaml ++ "\n" ++
    indent ++ "deposit_count: " ++ Decimal.text d.depositCount ++ "\n" ++
    indent ++ "block_hash: " ++ d.blockHash.yaml ++ "\n"

end Eth1Data

namespace BeaconState

/-- A member that is a list; each item gives its own lines. -/
def yamlList {α : Type} (name : String) (item : α → String) (xs : Array α) : String :=
  if xs.isEmpty then name ++ ": []\n" else name ++ ":\n" ++ String.join (xs.toList.map item)

/-- An item on one line. -/
def yamlItem (text : String) : String := "- " ++ text ++ "\n"

/-- A state as a YAML text. -/
def yaml (s : BeaconState) : String :=
  "fork: " ++ s.fork.label ++ "\n" ++
    "slot: " ++ Decimal.text s.slot ++ "\n" ++
    yamlList "block_roots" (fun r => yamlItem r.yaml) s.blockRoots ++
    yamlList "state_roots" (fun r => yamlItem r.yaml) s.stateRoots ++
    yamlList "historical_roots" (fun r => yamlItem r.yaml) s.historicalRoots ++
    yamlList "historical_summaries" (HistoricalSummary.yaml "- " "  ") s.historicalSummaries ++
    "eth1_data:\n" ++ s.eth1Data.yaml "  " "  " ++
    yamlList "eth1_data_votes" (Eth1Data.yaml "- " "  ") s.eth1DataVotes ++
    yamlList "randao_mixes" (fun r => yamlItem r.yaml) s.randaoMixes ++
    yamlList "slashings" (fun n => yamlItem (Decimal.text n)) s.slashings

end BeaconState

end BeaconReplay
