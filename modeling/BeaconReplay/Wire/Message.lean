import BeaconReplay.Client.Api
import BeaconReplay.Wire.Format

/-!
# The messages of the RPC backend

What a node is asked and what it answers, with the bytes of each message. Byte strings may have
any length on the wire; genesis parameters are made of them only if the lengths are right.
-/
namespace BeaconReplay.Wire

/-- The request that says nothing. -/
structure Empty where
  deriving DecidableEq

namespace Empty

/-- There are no known fields. -/
def schema : Schema Empty := ⟨"Empty", []⟩

/-- The bytes of a message. -/
def encode (_ : Empty) : List UInt8 := []

/-- Read a message. -/
def decode (bs : List UInt8) : Except WireFault Empty := schema.decode ⟨⟩ bs

end Empty

/-- The genesis parameters. -/
structure GenesisResponse where
  genesisTime : UInt64
  genesisValidatorsRoot : List UInt8
  genesisForkVersion : List UInt8
  deriving DecidableEq

namespace GenesisResponse

/-- The known fields. -/
def schema : Schema GenesisResponse := ⟨"GenesisResponse",
  [(1, .word "genesis_time" fun n m => { m with genesisTime := n }),
   (2, .bytes "genesis_validators_root" fun b m => { m with genesisValidatorsRoot := b }),
   (3, .bytes "genesis_fork_version" fun b m => { m with genesisForkVersion := b })]⟩

/-- The bytes of a message. -/
def encode (m : GenesisResponse) : List UInt8 :=
  wordField 1 m.genesisTime ++ bytesField 2 m.genesisValidatorsRoot ++
    bytesField 3 m.genesisForkVersion

/-- Read a message. -/
def decode (bs : List UInt8) : Except WireFault GenesisResponse := schema.decode ⟨0, [], []⟩ bs

end GenesisResponse

/-- The software version. -/
structure VersionResponse where
  version : String
  deriving DecidableEq

namespace VersionResponse

/-- The known fields. -/
def schema : Schema VersionResponse :=
  ⟨"VersionResponse", [(1, .text "version" fun s m => { m with version := s })]⟩

/-- The bytes of a message. -/
def encode (m : VersionResponse) : List UInt8 := textField 1 m.version

/-- Read a message. -/
def decode (bs : List UInt8) : Except WireFault VersionResponse := schema.decode ⟨""⟩ bs

end VersionResponse

/-- The sync status. -/
structure SyncStatusResponse where
  headSlot : UInt64
  syncDistance : UInt64
  isSyncing : Bool
  isOptimistic : Bool
  deriving DecidableEq

namespace SyncStatusResponse

/-- The known fields. -/
def schema : Schema SyncStatusResponse := ⟨"SyncStatusResponse",
  [(1, .word "head_slot" fun n m => { m with headSlot := n }),
   (2, .word "sync_distance" fun n m => { m with syncDistance := n }),
   (3, .flag "is_syncing" fun b m => { m with isSyncing := b }),
   (4, .flag "is_optimistic" fun b m => { m with isOptimistic := b })]⟩

/-- The bytes of a message. -/
def encode (m : SyncStatusResponse) : List UInt8 :=
  wordField 1 m.headSlot ++ wordField 2 m.syncDistance ++ flagField 3 m.isSyncing ++
    flagField 4 m.isOptimistic

/-- Read a message. -/
def decode (bs : List UInt8) : Except WireFault SyncStatusResponse :=
  schema.decode ⟨0, 0, false, false⟩ bs

/-- The status that a message gives. -/
def status (m : SyncStatusResponse) : SyncStatus :=
  ⟨m.headSlot, m.syncDistance, m.isSyncing, m.isOptimistic⟩

end SyncStatusResponse

/-- The request for the duties of an epoch. -/
structure ProposerDutiesRequest where
  epoch : UInt64
  deriving DecidableEq

namespace ProposerDutiesRequest

/-- The known fields. -/
def schema : Schema ProposerDutiesRequest :=
  ⟨"ProposerDutiesRequest", [(1, .word "epoch" fun n m => { m with epoch := n })]⟩

/-- The bytes of a message. -/
def encode (m : ProposerDutiesRequest) : List UInt8 := wordField 1 m.epoch

/-- Read a message. -/
def decode (bs : List UInt8) : Except WireFault ProposerDutiesRequest := schema.decode ⟨0⟩ bs

end ProposerDutiesRequest

/-- One duty. -/
structure ProposerDutyMessage where
  pubkey : List UInt8
  validatorIndex : UInt64
  slot : UInt64
  deriving DecidableEq

namespace ProposerDutyMessage

/-- A message without fields. -/
def zero : ProposerDutyMessage := ⟨[], 0, 0⟩

/-- The known fields. -/
def schema : Schema ProposerDutyMessage := ⟨"ProposerDutyMessage",
  [(1, .bytes "pubkey" fun b m => { m with pubkey := b }),
   (2, .word "validator_index" fun n m => { m with validatorIndex := n }),
   (3, .word "slot" fun n m => { m with slot := n })]⟩

/-- The bytes of a message. -/
def encode (m : ProposerDutyMessage) : List UInt8 :=
  bytesField 1 m.pubkey ++ wordField 2 m.validatorIndex ++ wordField 3 m.slot

/-- Read a message. -/
def decode (bs : List UInt8) : Except WireFault ProposerDutyMessage := schema.decode zero bs

/-- The duty that a message gives. -/
def duty (m : ProposerDutyMessage) : ProposerDuty := ⟨Hex.encode m.pubkey, m.validatorIndex, m.slot⟩

end ProposerDutyMessage

/-- The duties of an epoch. -/
structure ProposerDutiesResponse where
  duties : List ProposerDutyMessage
  deriving DecidableEq

namespace ProposerDutiesResponse

/-- The known fields. -/
def schema : Schema ProposerDutiesResponse := ⟨"ProposerDutiesResponse",
  [(1, .message "duties" ProposerDutyMessage.schema ProposerDutyMessage.zero
    fun d m => { m with duties := m.duties ++ [d] })]⟩

/-- The bytes of a message. -/
def encode (m : ProposerDutiesResponse) : List UInt8 :=
  m.duties.flatMap fun d => messageField 1 d.encode

/-- Read a message. -/
def decode (bs : List UInt8) : Except WireFault ProposerDutiesResponse := schema.decode ⟨[]⟩ bs

end ProposerDutiesResponse

end BeaconReplay.Wire
