import BeaconReplay.Proofs.Wire.Fields
import BeaconReplay.Wire.Message

/-!
# Messages read back

Every answer of the RPC backend is read back from its bytes, as long as no length in it is beyond
a word. The fields come in the order of their tags; each is set once, and those that are left out
keep their defaults.
-/
namespace BeaconReplay.Wire

open Schema

/-- The field of a byte string is no shorter than its content. -/
theorem length_bytesField (tag : ℕ) (bs : List UInt8) : bs.length ≤ (bytesField tag bs).length := by
  rw [bytesField]
  split_ifs with hempty
  · simp [List.isEmpty_iff.1 hempty]
  · simp only [delimited, List.length_append]
    omega

theorem Empty.decode_encode (m : Empty) : decode m.encode = .ok m := by
  have hfills : schema.Fills nestingLimit [] m m := .nil m
  exact hfills.decode

/-- **An epoch that is asked for is read back.** -/
theorem ProposerDutiesRequest.decode_encode (m : ProposerDutiesRequest) :
    decode m.encode = .ok m := by
  have hepoch : schema.Fills nestingLimit (wordField 1 m.epoch) ⟨0⟩ m :=
    fills_word (by decide) rfl rfl rfl
  exact hepoch.decode

/-- Only the default epoch is not written. -/
theorem ProposerDutiesRequest.encode_eq_nil_iff (m : ProposerDutiesRequest) :
    m.encode = [] ↔ m.epoch = 0 := by
  rw [encode, wordField]
  split_ifs with hzero <;> simp [hzero, varint_ne_nil]

/-- **Genesis parameters are read back.** -/
theorem GenesisResponse.decode_encode (m : GenesisResponse)
    (hroot : m.genesisValidatorsRoot.length < UInt64.size)
    (hversion : m.genesisForkVersion.length < UInt64.size) : decode m.encode = .ok m := by
  have htime : schema.Fills nestingLimit (wordField 1 m.genesisTime) ⟨0, [], []⟩
      ⟨m.genesisTime, [], []⟩ := fills_word (by decide) rfl rfl rfl
  have hroots : schema.Fills nestingLimit (bytesField 2 m.genesisValidatorsRoot)
      ⟨m.genesisTime, [], []⟩ ⟨m.genesisTime, m.genesisValidatorsRoot, []⟩ :=
    fills_bytes (by decide) rfl hroot rfl rfl
  have hversions : schema.Fills nestingLimit (bytesField 3 m.genesisForkVersion)
      ⟨m.genesisTime, m.genesisValidatorsRoot, []⟩ m := fills_bytes (by decide) rfl hversion rfl rfl
  exact ((htime.append hroots).append hversions).decode

/-- **A version is read back.** -/
theorem VersionResponse.decode_encode (m : VersionResponse)
    (hversion : m.version.utf8ByteSize < UInt64.size) : decode m.encode = .ok m := by
  have htext : schema.Fills nestingLimit (textField 1 m.version) ⟨""⟩ m :=
    fills_text (by decide) rfl hversion rfl rfl
  exact htext.decode

/-- **A sync status is read back.** -/
theorem SyncStatusResponse.decode_encode (m : SyncStatusResponse) : decode m.encode = .ok m := by
  have hhead : schema.Fills nestingLimit (wordField 1 m.headSlot) ⟨0, 0, false, false⟩
      ⟨m.headSlot, 0, false, false⟩ := fills_word (by decide) rfl rfl rfl
  have hdistance : schema.Fills nestingLimit (wordField 2 m.syncDistance)
      ⟨m.headSlot, 0, false, false⟩ ⟨m.headSlot, m.syncDistance, false, false⟩ :=
    fills_word (by decide) rfl rfl rfl
  have hsyncing : schema.Fills nestingLimit (flagField 3 m.isSyncing)
      ⟨m.headSlot, m.syncDistance, false, false⟩
      ⟨m.headSlot, m.syncDistance, m.isSyncing, false⟩ := fills_flag (by decide) rfl rfl rfl
  have hoptimistic : schema.Fills nestingLimit (flagField 4 m.isOptimistic)
      ⟨m.headSlot, m.syncDistance, m.isSyncing, false⟩ m := fills_flag (by decide) rfl rfl rfl
  exact (((hhead.append hdistance).append hsyncing).append hoptimistic).decode

namespace ProposerDutyMessage

theorem length_pubkey_le (m : ProposerDutyMessage) : m.pubkey.length ≤ m.encode.length := by
  have hkey := length_bytesField 1 m.pubkey
  simp only [encode, List.length_append]
  omega

theorem fills_encode (m : ProposerDutyMessage) (depth : ℕ)
    (hpubkey : m.pubkey.length < UInt64.size) : schema.Fills depth m.encode zero m := by
  have hkey : schema.Fills depth (bytesField 1 m.pubkey) zero ⟨m.pubkey, 0, 0⟩ :=
    fills_bytes (by decide) rfl hpubkey rfl rfl
  have hindex : schema.Fills depth (wordField 2 m.validatorIndex) ⟨m.pubkey, 0, 0⟩
      ⟨m.pubkey, m.validatorIndex, 0⟩ := fills_word (by decide) rfl rfl rfl
  have hslot : schema.Fills depth (wordField 3 m.slot) ⟨m.pubkey, m.validatorIndex, 0⟩ m :=
    fills_word (by decide) rfl rfl rfl
  exact (hkey.append hindex).append hslot

end ProposerDutyMessage

namespace ProposerDutiesResponse

/-- The duties of a list are added to those before, in their order. -/
theorem fills_duties (before : List ProposerDutyMessage) {ds : List ProposerDutyMessage}
    (h : ∀ d ∈ ds, d.encode.length < UInt64.size) :
    schema.Fills nestingLimit (ds.flatMap fun d => messageField 1 d.encode) ⟨before⟩
      ⟨before ++ ds⟩ := by
  induction ds generalizing before with
  | nil =>
    rw [List.append_nil]
    exact .nil _
  | cons d ds ih =>
    have hd : d.encode.length < UInt64.size := h d (List.mem_cons_self ..)
    have hinner := d.fills_encode (nestingLimit - 1) (d.length_pubkey_le.trans_lt hd)
    have hfirst : schema.Fills nestingLimit (messageField 1 d.encode) ⟨before⟩ ⟨before ++ [d]⟩ :=
      fills_message (by decide) rfl hinner hd rfl
    have hrest := ih (before ++ [d]) fun e he => h e (List.mem_cons_of_mem _ he)
    rw [List.append_cons]
    exact hfirst.append hrest

/-- **The duties of an epoch are read back, in their order.** -/
theorem decode_encode (m : ProposerDutiesResponse)
    (h : ∀ d ∈ m.duties, d.encode.length < UInt64.size) : decode m.encode = .ok m :=
  (fills_duties [] h).decode

end ProposerDutiesResponse

end BeaconReplay.Wire
