import BeaconReplay.Codec.Chain
import BeaconReplay.Json.Encode

/-!
# What a beacon node answers

The answers that a validator needs, in their JSON shape: words are written as quoted decimals
and byte strings as hexadecimal text. Beside them stand the feature flags of the process.
-/
namespace BeaconReplay

/-- The version of a fork: four bytes. -/
structure ForkVersion where
  bytes : Vector UInt8 4
  deriving DecidableEq

namespace ForkVersion

/-- A version from exactly four bytes. -/
def ofList? (bs : List UInt8) : Option ForkVersion :=
  if h : bs.length = 4 then some ⟨⟨bs.toArray, by simpa using h⟩⟩ else none

/-- The text of a version. -/
def text (v : ForkVersion) : String := Hex.encode v.bytes.toList

/-- Read a version: eight digits are read as one number, whose bytes are taken apart. -/
def parse? (s : String) : Option ForkVersion :=
  let digits := Hex.digitBytes s
  if digits.length = 8 && digits.all Hex.isDigit then
    (Hex.word32? digits).bind fun w => ofList? (Hex.bigEndian w)
  else none

end ForkVersion

/-- The genesis parameters of the chain. -/
structure Genesis where
  genesisTime : UInt64
  genesisValidatorsRoot : Root
  genesisForkVersion : ForkVersion
  deriving DecidableEq

/-- How far a node has synchronised. -/
structure SyncStatus where
  headSlot : UInt64
  syncDistance : UInt64
  isSyncing : Bool
  isOptimistic : Bool
  deriving DecidableEq

/-- The duty to propose the block of one slot. -/
structure ProposerDuty where
  pubkey : String
  validatorIndex : UInt64
  slot : UInt64
  deriving DecidableEq

/-- The feature flags. -/
structure Flags where
  enableBeaconRestApi : Bool
  deriving DecidableEq, Inhabited, Repr

namespace Flags

/-- The flags where nothing is set. -/
def default : Flags := ⟨false⟩

/-- The members of the flags. -/
def members (f : Flags) : List (String × Json) :=
  [("enable_beacon_rest_api", .boolean f.enableBeaconRestApi)]

/-- The flags as a JSON value. -/
def json (f : Flags) : Json := .ofMembers f.members

end Flags

/-- A word as a quoted decimal. -/
def Json.quotedWord (n : UInt64) : Json := .string (Decimal.text n)

namespace Genesis

/-- The members of the genesis parameters. -/
def members (g : Genesis) : List (String × Json) :=
  [("genesis_time", .quotedWord g.genesisTime),
   ("genesis_validators_root", g.genesisValidatorsRoot.json),
   ("genesis_fork_version", .string g.genesisForkVersion.text)]

/-- The genesis parameters as a JSON value. -/
def json (g : Genesis) : Json := .ofMembers g.members

end Genesis

namespace SyncStatus

/-- The members of a sync status. -/
def members (s : SyncStatus) : List (String × Json) :=
  [("head_slot", .quotedWord s.headSlot), ("sync_distance", .quotedWord s.syncDistance),
   ("is_syncing", .boolean s.isSyncing), ("is_optimistic", .boolean s.isOptimistic)]

/-- A sync status as a JSON value. -/
def json (s : SyncStatus) : Json := .ofMembers s.members

end SyncStatus

namespace ProposerDuty

/-- The members of a duty. -/
def members (d : ProposerDuty) : List (String × Json) :=
  [("pubkey", .string d.pubkey), ("validator_index", .quotedWord d.validatorIndex),
   ("slot", .quotedWord d.slot)]

/-- A duty as a JSON value. -/
def json (d : ProposerDuty) : Json := .ofMembers d.members

end ProposerDuty

namespace Source

variable {ν : Type} (src : Source ν)

/-- A fork version from its text. -/
def forkVersion (v : ν) : Decoded ForkVersion := do
  let s ← src.text v
  match ForkVersion.parse? s with
  | some version => pure version
  | none => throw (.ofCause (.invalidForkVersion s))

/-- Genesis parameters. -/
def genesis (v : ν) : Decoded Genesis := src.inside v do
  let e ← src.entries "Genesis"
    [.of "genesis_time" src.quotedWord, .of "genesis_validators_root" src.root,
     .of "genesis_fork_version" src.forkVersion] v
  pure {
    genesisTime := ← e.required 0 "genesis_time" src.quotedWord
    genesisValidatorsRoot := ← e.required 1 "genesis_validators_root" src.root
    genesisForkVersion := ← e.required 2 "genesis_fork_version" src.forkVersion }

/-- A sync status; `is_optimistic` may be left out. -/
def syncStatus (v : ν) : Decoded SyncStatus := src.inside v do
  let e ← src.entries "SyncStatus"
    [.of "head_slot" src.quotedWord, .of "sync_distance" src.quotedWord,
     .of "is_syncing" src.flag, .of "is_optimistic" src.flag] v
  pure {
    headSlot := ← e.required 0 "head_slot" src.quotedWord
    syncDistance := ← e.required 1 "sync_distance" src.quotedWord
    isSyncing := ← e.required 2 "is_syncing" src.flag
    isOptimistic := ← e.optional "is_optimistic" false src.flag }

/-- A proposer duty. -/
def proposerDuty (v : ν) : Decoded ProposerDuty := src.inside v do
  let e ← src.entries "ProposerDuty"
    [.of "pubkey" src.text, .of "validator_index" src.quotedWord, .of "slot" src.quotedWord] v
  pure {
    pubkey := ← e.required 0 "pubkey" src.text
    validatorIndex := ← e.required 1 "validator_index" src.quotedWord
    slot := ← e.required 2 "slot" src.quotedWord }

/-- The feature flags; each may be left out. -/
def flags (v : ν) : Decoded Flags := src.inside v do
  let e ← src.entries "Flags" [.of "enable_beacon_rest_api" src.flag] v
  pure { enableBeaconRestApi := ← e.optional "enable_beacon_rest_api" false src.flag }

/-- The payload of an answer, which is the one member `data`. -/
def payload {α : Type} (read : ν → Decoded α) (v : ν) : Decoded α := src.inside v do
  let e ← src.entries "Data" [.of "data" read] v
  e.required 0 "data" read

/-- The software version of a node. -/
def version (v : ν) : Decoded String := src.inside v do
  let e ← src.entries "Version" [.of "version" src.text] v
  e.required 0 "version" src.text

end Source

end BeaconReplay
