import BeaconReplay.Proofs.Json.Decoding
import BeaconReplay.Proofs.Text.Radix

/-!
# Answers in JSON

The payload of an answer is the object of its fields, the words in quoted decimals and the byte
strings in hexadecimal digits. Each payload is read as what it was written for; genesis
parameters whose byte strings have other lengths than theirs are written alike but not read.
-/
namespace BeaconReplay

open Json (Node Reads)
open Json.Document (ofValue)

namespace ForkVersion

variable {v : ForkVersion}

theorem ofList?_toList : ofList? v.bytes.toList = some v := by
  obtain ⟨⟨bytes, hsize⟩⟩ := v
  simp [ofList?, hsize]

theorem ofList?_eq_some {bs : List UInt8} (h : ofList? bs = some v) :
    bs.length = 4 ∧ v.bytes.toList = bs := by
  unfold ofList? at h
  split_ifs at h with hlength
  cases h
  exact ⟨hlength, by simp⟩

/-- Eight digits read as one number are the bytes that they are read as pair by pair. -/
theorem parse?_eq (s : String) : parse? s = (Hex.decode? 4 s).bind ofList? := by
  have hcheck := Hex.all_isDigit_iff (n := 4) (s := s)
  rw [parse?]
  cases hread : Hex.decode? 4 s with
  | some bs =>
    obtain ⟨hlength, hall⟩ := hcheck.2 ⟨bs, hread⟩
    rw [Hex.decode?, if_pos hlength] at hread
    have hbytes : bs.length = 4 := by
      have htwice := Hex.length_of_pairs? hread
      omega
    simp [hlength, hall, Hex.word32?_of_pairs? hread hbytes, Hex.bigEndian_number hbytes]
  | none =>
    have hrefused : ¬((Hex.digitBytes s).length = 8 ∧ (Hex.digitBytes s).all Hex.isDigit = true) :=
      fun h => by simpa [hread] using hcheck.1 h
    simp only [Bool.and_eq_true, decide_eq_true_eq, hrefused, if_false, Option.bind_none]

/-- The text of a byte string is that of a version if the bytes are. -/
theorem parse?_encode (bs : List UInt8) : parse? (Hex.encode bs) = ofList? bs := by
  rw [parse?_eq, Hex.decode?_encode]
  split_ifs with hlength
  · rfl
  · simp [ofList?, hlength]

end ForkVersion

namespace Json

variable {n : Node}

/-- The text of a byte string is read as a version if the bytes are one. -/
theorem forkVersion_eq_ok_iff {bs : List UInt8} {v : ForkVersion}
    (hn : n.document = ofValue (.string (Hex.encode bs))) :
    source.forkVersion n = .ok v ↔ ForkVersion.ofList? bs = some v := by
  rw [Source.forkVersion, reads_text _ n hn, Result.ok_bind, ForkVersion.parse?_encode]
  cases ForkVersion.ofList? bs <;> simp

theorem reads_forkVersion (v : ForkVersion) : Reads source.forkVersion (.string v.text) v :=
  fun _ hn => (forkVersion_eq_ok_iff hn).2 ForkVersion.ofList?_toList

theorem reads_genesis (g : Genesis) {v : Json} (hv : v.Lists g.members) :
    Reads source.genesis v g := by
  have htime := reads_quotedWord g.genesisTime
  have hroot := reads_root g.genesisValidatorsRoot
  have hversion := reads_forkVersion g.genesisForkVersion
  refine reads_record hv (by simp [Genesis.members]) (fun n => ?_) (fun n e hlookup => ?_)
  · simp only [Genesis.members, List.forall_mem_cons]
    exact ⟨accepts_field (by simp [Field.find?]) htime,
      accepts_field (by simp [Field.find?]) hroot,
      accepts_field (by simp [Field.find?]) hversion, List.forall_mem_nil _⟩
  · simp only [Genesis.members, List.forall_mem_cons] at hlookup
    simp [Entries.required, hlookup, htime.below, hroot.below, hversion.below]

theorem reads_syncStatus (s : SyncStatus) {v : Json} (hv : v.Lists s.members) :
    Reads source.syncStatus v s := by
  have hhead := reads_quotedWord s.headSlot
  have hdistance := reads_quotedWord s.syncDistance
  have hsyncing := reads_flag s.isSyncing
  have hoptimistic := reads_flag s.isOptimistic
  refine reads_record hv (by simp [SyncStatus.members]) (fun n => ?_) (fun n e hlookup => ?_)
  · simp only [SyncStatus.members, List.forall_mem_cons]
    exact ⟨accepts_field (by simp [Field.find?]) hhead,
      accepts_field (by simp [Field.find?]) hdistance,
      accepts_field (by simp [Field.find?]) hsyncing,
      accepts_field (by simp [Field.find?]) hoptimistic, List.forall_mem_nil _⟩
  · simp only [SyncStatus.members, List.forall_mem_cons] at hlookup
    simp [Entries.required, Entries.optional, hlookup, hhead.below, hdistance.below,
      hsyncing.below, hoptimistic.below]

theorem reads_duty (d : ProposerDuty) {v : Json} (hv : v.Lists d.members) :
    Reads source.proposerDuty v d := by
  have hpubkey := reads_text d.pubkey
  have hindex := reads_quotedWord d.validatorIndex
  have hslot := reads_quotedWord d.slot
  refine reads_record hv (by simp [ProposerDuty.members]) (fun n => ?_) (fun n e hlookup => ?_)
  · simp only [ProposerDuty.members, List.forall_mem_cons]
    exact ⟨accepts_field (by simp [Field.find?]) hpubkey,
      accepts_field (by simp [Field.find?]) hindex,
      accepts_field (by simp [Field.find?]) hslot, List.forall_mem_nil _⟩
  · simp only [ProposerDuty.members, List.forall_mem_cons] at hlookup
    simp [Entries.required, hlookup, hpubkey.below, hindex.below, hslot.below]

/-- The members of genesis parameters that are read are read one by one. -/
theorem members_of_genesis {time root version : Json} {g : Genesis}
    (hn : n.document = ofValue (.object [("genesis_time", time), ("genesis_validators_root", root),
      ("genesis_fork_version", version)]))
    (h : source.genesis n = .ok g) :
    source.quotedWord (n.below (ofValue time)) = .ok g.genesisTime ∧
      source.root (n.below (ofValue root)) = .ok g.genesisValidatorsRoot ∧
        source.forkVersion (n.below (ofValue version)) = .ok g.genesisForkVersion := by
  rw [Source.genesis, Source.inside_eq_ok_iff] at h
  obtain ⟨e, he, hfields⟩ := Result.bind_eq_ok_iff.1 h
  obtain ⟨t, htime, hfields⟩ := Result.bind_eq_ok_iff.1 hfields
  obtain ⟨r, hroot, hfields⟩ := Result.bind_eq_ok_iff.1 hfields
  obtain ⟨v, hversion, hmade⟩ := Result.bind_eq_ok_iff.1 hfields
  cases hmade
  have hvalues := Source.values_of_entries (record_object "Genesis" hn) he
  simp only [Entries.required, hvalues, Node.field, List.map_cons, List.map_nil]
    at htime hroot hversion
  exact ⟨htime, hroot, hversion⟩

theorem reads_version (s : String) :
    Reads source.version (.object [("version", .string s)]) s := by
  have htext := reads_text s
  refine reads_record (lists_object _) (List.nodup_singleton _) (fun n => ?_)
    (fun n e hlookup => ?_)
  · simp only [List.forall_mem_cons]
    exact ⟨accepts_field (by simp [Field.find?]) htext, List.forall_mem_nil _⟩
  · simp [Entries.required, hlookup _ (List.mem_singleton_self _), htext.below]

theorem reads_payload {α : Type} {read : Node → Decoded α} {v : Json} {a : α} (h : Reads read v a) :
    Reads (source.payload read) (.object [("data", v)]) a := by
  refine reads_record (lists_object _) (List.nodup_singleton _) (fun n => ?_)
    (fun n e hlookup => ?_)
  · simp only [List.forall_mem_cons]
    exact ⟨accepts_field (by simp [Field.find?]) h, List.forall_mem_nil _⟩
  · simp [Entries.required, hlookup _ (List.mem_singleton_self _), h.below]

/-- A payload that is read is read by itself. -/
theorem data_of_payload {α : Type} {read : Node → Decoded α} {v : Json} {a : α}
    (hn : n.document = ofValue (.object [("data", v)])) (h : source.payload read n = .ok a) :
    read (n.below (ofValue v)) = .ok a := by
  rw [Source.payload, Source.inside_eq_ok_iff] at h
  obtain ⟨e, he, hdata⟩ := Result.bind_eq_ok_iff.1 h
  have hvalues := Source.values_of_entries (record_object "Data" hn) he
  simpa [Entries.required, hvalues, Node.field] using hdata

end Json

end BeaconReplay
