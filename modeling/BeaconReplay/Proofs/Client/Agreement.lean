import BeaconReplay.Client.Selection
import BeaconReplay.Http.Builtin
import BeaconReplay.Proofs.Client.Answers
import BeaconReplay.Proofs.Client.Origins
import BeaconReplay.Proofs.Wire.Messages

/-!
# The backends agree

A node that answers over HTTP with the JSON payload of a message, and over RPC with the bytes of
that message, gives a client the same answer on both ways. Genesis parameters are an answer on
either way exactly if their byte strings are a root and a version; all other messages always are.
A length on the wire is a word, as is that of every byte string that a node can hold.
-/
namespace BeaconReplay

open Json.Document (ofValue)

/-! ## What a node serves -/

namespace Wire

/-- Genesis parameters as a payload, whatever the lengths of their byte strings. -/
def GenesisResponse.payload (m : GenesisResponse) : Json := .object
  [("genesis_time", .quotedWord m.genesisTime),
   ("genesis_validators_root", .string (Hex.encode m.genesisValidatorsRoot)),
   ("genesis_fork_version", .string (Hex.encode m.genesisForkVersion))]

/-- A version as a payload. -/
def VersionResponse.payload (m : VersionResponse) : Json :=
  .object [("version", .string m.version)]

/-- A sync status as a payload. -/
def SyncStatusResponse.payload (m : SyncStatusResponse) : Json := .object
  [("head_slot", .quotedWord m.headSlot), ("sync_distance", .quotedWord m.syncDistance),
   ("is_syncing", .boolean m.isSyncing), ("is_optimistic", .boolean m.isOptimistic)]

/-- A duty as a payload. -/
def ProposerDutyMessage.payload (m : ProposerDutyMessage) : Json := .object
  [("pubkey", .string (Hex.encode m.pubkey)), ("validator_index", .quotedWord m.validatorIndex),
   ("slot", .quotedWord m.slot)]

/-- The duties of an epoch as a payload. -/
def ProposerDutiesResponse.payload (m : ProposerDutiesResponse) : Json :=
  .array (m.duties.map ProposerDutyMessage.payload)

end Wire

/-- The text of an answer over HTTP: an object whose one member is the payload. -/
def Reply.bodyText (payload : Json) : String := (Json.object [("data", payload)]).text

/-- The text that serves genesis parameters. -/
theorem Wire.GenesisResponse.bodyText_payload (m : GenesisResponse) :
    Reply.bodyText m.payload =
      "\x7b\"data\":\x7b\"genesis_time\":\"" ++ Decimal.text m.genesisTime ++
        "\",\"genesis_validators_root\":\"" ++ Hex.encode m.genesisValidatorsRoot ++
        "\",\"genesis_fork_version\":\"" ++ Hex.encode m.genesisForkVersion ++
        "\"\x7d\x7d" := by
  rw [← String.toList_inj]
  simp only [Reply.bodyText, Json.text, payload, Json.chars, Json.memberChars, Json.quotedWord,
    Json.Document.quoted_decimal, Json.Document.quoted_hex]
  simp [Json.quoted, Json.escape]

section Served

variable [Tables]

/-- A node at a base serves a payload over HTTP, in a whole answer of status 200, and a message
over RPC. -/
structure Peers.Serve (p : Peers) (base : String) (d : Duty) (payload : Json)
    (message : List UInt8) : Prop where
  reached : ∃ r, Rest.request base d = .ok r ∧ r.origin = p.server.origin
  answered : ∃ response rest, p.server.answers = .respond response :: rest ∧
    response.status = 200 ∧ response.received = some (Utf8.encode (Reply.bodyText payload))
  called : ∃ rest, p.channel = .ok message :: rest

variable {κ : Type} {p : Peers} {base : String} {d : Duty} {payload : Json}
  {message : List UInt8}

/-- The answer that a client gets. -/
def Client.answer (client : Client κ) (d : Duty) (p : Peers) : Except ClientError Reply :=
  (client.call d p).1.reply

/-- Over HTTP the answer is read from the payload. -/
theorem Peers.Serve.rest_answer (h : p.Serve base d payload message) (timeout : ℕ) :
    (Client.rest base timeout : Client κ).answer d p =
      Reply.ofBody d (Utf8.encode (Reply.bodyText payload)) := by
  obtain ⟨r, hrequest, horigin⟩ := h.reached
  obtain ⟨response, rest, hanswers, hstatus, hreceived⟩ := h.answered
  have hfinal : ∀ other, p.server.answers.head? = some (.respond other) →
      other.redirect? = none := by
    intro other hother
    obtain rfl : response = other := by simpa [hanswers] using hother
    simp [Http.Response.redirect?, Http.Response.redirections, hstatus]
  rw [Client.answer, Client.call, Rest.call_of_request hrequest,
    Http.Server.get_of_final horigin hfinal]
  simp [hanswers, Http.outcome, Rest.replyOf, Rest.reply, Http.Response.isSuccess, hstatus,
    hreceived]

/-- Over RPC the answer is read from the message. -/
theorem Peers.Serve.rpc_answer (h : p.Serve base d payload message) (handle : κ) :
    (Client.rpc handle).answer d p = Reply.ofMessage d message := by
  obtain ⟨rest, hchannel⟩ := h.called
  simp [Client.answer, Client.call, Rpc.call, Rpc.Channel.unary, hchannel]

end Served

/-! ## Genesis parameters -/

namespace Wire.GenesisResponse

variable {m : GenesisResponse} {g : Genesis}

/-- A message gives genesis parameters if its byte strings are a root and a version. -/
theorem genesis_eq_ok_iff : m.genesis = .ok g ↔
    Root.ofList? m.genesisValidatorsRoot = some g.genesisValidatorsRoot ∧
      ForkVersion.ofList? m.genesisForkVersion = some g.genesisForkVersion ∧
        m.genesisTime = g.genesisTime := by
  obtain ⟨time, root, version⟩ := g
  cases hroot : Root.ofList? m.genesisValidatorsRoot with
  | none => simp [genesis, hroot]
  | some r =>
    cases hversion : ForkVersion.ofList? m.genesisForkVersion with
    | none => simp [genesis, hroot, hversion]
    | some v =>
      simp only [genesis, hroot, hversion, Result.pure_eq_ok, Except.ok.injEq, Genesis.mk.injEq,
        Option.some.injEq]
      tauto

/-- A message gives genesis parameters if the lengths of its byte strings are right. -/
theorem exists_genesis_iff : (∃ g, m.genesis = .ok g) ↔
    m.genesisValidatorsRoot.length = 32 ∧ m.genesisForkVersion.length = 4 := by
  constructor
  · rintro ⟨g, hg⟩
    obtain ⟨hroot, hversion, -⟩ := genesis_eq_ok_iff.1 hg
    exact ⟨(Root.ofList?_eq_some hroot).1, (ForkVersion.ofList?_eq_some hversion).1⟩
  · rintro ⟨hroot, hversion⟩
    exact ⟨⟨m.genesisTime, _, _⟩, genesis_eq_ok_iff.2 ⟨dif_pos hroot, dif_pos hversion, rfl⟩⟩

/-- The payload of a message is that of the genesis parameters that it gives. -/
theorem payload_of_genesis (h : m.genesis = .ok g) : m.payload = .object g.members := by
  obtain ⟨hroot, hversion, htime⟩ := genesis_eq_ok_iff.1 h
  obtain ⟨-, hroot⟩ := Root.ofList?_eq_some hroot
  obtain ⟨-, hversion⟩ := ForkVersion.ofList?_eq_some hversion
  rw [payload, Genesis.members, Root.json, Root.text_eq_encode, ForkVersion.text, hroot, hversion,
    htime]

/-- What is read from the payload of a message is what the message gives. -/
theorem genesis_of_payload {n : Json.Node} (hn : n.document = ofValue m.payload)
    (h : Json.source.genesis n = .ok g) : m.genesis = .ok g := by
  obtain ⟨htime, hroot, hversion⟩ := Json.members_of_genesis hn h
  rw [Json.reads_quotedWord m.genesisTime _ rfl, Except.ok.injEq] at htime
  exact genesis_eq_ok_iff.2
    ⟨(Json.root_eq_ok_iff rfl).1 hroot, (Json.forkVersion_eq_ok_iff rfl).1 hversion, htime⟩

end Wire.GenesisResponse

/-! ## Answers on both ways -/

namespace Reply

/-- A payload is decoded from the text that serves it. -/
theorem decodeBody_bodyText {α : Type} {v : Json} (hv : v.wordsOnly = true)
    (read : Json.Node → Decoded α) : Json.decodeBody read (Utf8.encode (bodyText v)) =
      read (.ofText (ofValue (.object [("data", v)]))) :=
  Json.decodeBody_text (by simp [Json.wordsOnly, Json.wordsOnlyMembers, hv]) read

/-- What a reader takes a payload for is decoded from the text that serves it. -/
theorem decodeBody_of_reads {α : Type} {read : Json.Node → Decoded α} {v : Json} {a : α}
    (h : Json.Reads read v a) (hv : v.wordsOnly = true) :
    Json.decodeBody (Json.source.payload read) (Utf8.encode (bodyText v)) = .ok a := by
  rw [decodeBody_bodyText hv]
  exact Json.reads_payload h _ rfl

/-- Over HTTP genesis parameters are answered as their message gives them. -/
theorem ofBody_genesis_eq_ok_iff (m : Wire.GenesisResponse) {reply : Reply} :
    ofBody .genesis (Utf8.encode (bodyText m.payload)) = .ok reply ↔
      ∃ g, m.genesis = .ok g ∧ .genesis g = reply := by
  have hwords : m.payload.wordsOnly = true := rfl
  constructor
  · intro h
    cases hbody : Json.decodeBody (Json.source.payload Json.source.genesis)
        (Utf8.encode (bodyText m.payload)) with
    | error fault => simp [ofBody, hbody] at h
    | ok g =>
      have hreply : Reply.genesis g = reply := by simpa [ofBody, hbody] using h
      rw [decodeBody_bodyText hwords] at hbody
      exact ⟨g, Wire.GenesisResponse.genesis_of_payload rfl (Json.data_of_payload rfl hbody),
        hreply⟩
  · rintro ⟨g, hg, rfl⟩
    have hpayload := Wire.GenesisResponse.payload_of_genesis hg
    have hread := Json.reads_genesis g (Json.lists_object _)
    have hbody := decodeBody_of_reads hread (hpayload ▸ hwords)
    rw [← hpayload] at hbody
    simp [ofBody, hbody]

/-- Over RPC genesis parameters are answered as their message gives them. -/
theorem ofMessage_genesis_eq_ok_iff {m : Wire.GenesisResponse}
    (hroot : m.genesisValidatorsRoot.length < UInt64.size)
    (hversion : m.genesisForkVersion.length < UInt64.size) {reply : Reply} :
    ofMessage .genesis m.encode = .ok reply ↔ ∃ g, m.genesis = .ok g ∧ .genesis g = reply := by
  rw [ofMessage, m.decode_encode hroot hversion]
  simp [Except.mapError, Result.bind_eq_ok_iff]

/-- A sync status is answered field by field. -/
theorem ofBody_syncing (m : Wire.SyncStatusResponse) :
    ofBody .syncing (Utf8.encode (bodyText m.payload)) =
      .ok (.syncing ⟨m.headSlot, m.syncDistance, m.isSyncing, m.isOptimistic⟩) := by
  have hread : Json.Reads Json.source.syncStatus m.payload _ :=
    Json.reads_syncStatus ⟨m.headSlot, m.syncDistance, m.isSyncing, m.isOptimistic⟩
      (Json.lists_object _)
  have hbody := decodeBody_of_reads hread rfl
  simp [ofBody, hbody]

theorem ofMessage_syncing (m : Wire.SyncStatusResponse) :
    ofMessage .syncing m.encode =
      .ok (.syncing ⟨m.headSlot, m.syncDistance, m.isSyncing, m.isOptimistic⟩) := by
  rw [ofMessage, m.decode_encode]
  rfl

theorem ofBody_version (m : Wire.VersionResponse) :
    ofBody .nodeVersion (Utf8.encode (bodyText m.payload)) = .ok (.version m.version) := by
  have hbody := decodeBody_of_reads (Json.reads_version m.version) rfl
  simp [ofBody, Wire.VersionResponse.payload, hbody]

theorem ofMessage_version {m : Wire.VersionResponse} (h : m.version.utf8ByteSize < UInt64.size) :
    ofMessage .nodeVersion m.encode = .ok (.version m.version) := by
  rw [ofMessage, m.decode_encode h]
  rfl

/-- The duty that the fields of a message tell. -/
def dutyOf (m : Wire.ProposerDutyMessage) : ProposerDuty :=
  ⟨Hex.encode m.pubkey, m.validatorIndex, m.slot⟩

/-- Duties are answered one by one and field by field. -/
theorem ofBody_duties (epoch : UInt64) (m : Wire.ProposerDutiesResponse) :
    ofBody (.proposerDuties epoch) (Utf8.encode (bodyText m.payload)) =
      .ok (.duties (m.duties.map dutyOf)) := by
  have hwords : m.payload.wordsOnly = true := Json.wordsOnlyItems_map (fun _ => rfl) m.duties
  have hduty := fun d => Json.reads_duty d (Json.lists_object _)
  have hlist := Json.reads_list hduty (m.duties.map dutyOf)
  have hitems : (m.duties.map dutyOf).map (fun d => Json.object d.members) =
      m.duties.map Wire.ProposerDutyMessage.payload := by
    rw [List.map_map]
    rfl
  rw [hitems] at hlist
  have hbody := decodeBody_of_reads hlist hwords
  simp [ofBody, Wire.ProposerDutiesResponse.payload, hbody]

theorem ofMessage_duties (epoch : UInt64) {m : Wire.ProposerDutiesResponse}
    (h : ∀ d ∈ m.duties, d.encode.length < UInt64.size) :
    ofMessage (.proposerDuties epoch) m.encode = .ok (.duties (m.duties.map dutyOf)) := by
  rw [ofMessage, m.decode_encode h]
  rfl

end Reply

/-- **The backends agree.** A node serves a client over HTTP and over RPC. Genesis parameters,
served in a quoted decimal and in hexadecimal digits, are an answer on the one way exactly if they
are the same answer on the other, which is the case exactly if their byte strings have the lengths
of a root and of a version, and the answer holds these bytes. A sync status, a version and the
duties of an epoch are always the same answer, which holds the fields that are served. Byte strings
may have any length that the wire can tell. -/
theorem backends_agree [Tables] {κ : Type} (base : String) (timeout : ℕ) (handle : κ) (p : Peers) :
    (∀ m : Wire.GenesisResponse, Reply.bodyText m.payload =
      "\x7b\"data\":\x7b\"genesis_time\":\"" ++ Decimal.text m.genesisTime ++
        "\",\"genesis_validators_root\":\"" ++ Hex.encode m.genesisValidatorsRoot ++
        "\",\"genesis_fork_version\":\"" ++ Hex.encode m.genesisForkVersion ++ "\"\x7d\x7d") ∧
    (∀ m : Wire.GenesisResponse, m.genesisValidatorsRoot.length < UInt64.size →
      m.genesisForkVersion.length < UInt64.size → p.Serve base .genesis m.payload m.encode →
      (∀ reply, (Client.rest base timeout : Client κ).answer .genesis p = .ok reply ↔
        (Client.rpc handle).answer .genesis p = .ok reply) ∧
      ((∃ reply, (Client.rpc handle).answer .genesis p = .ok reply) ↔
        m.genesisValidatorsRoot.length = 32 ∧ m.genesisForkVersion.length = 4) ∧
      ∀ reply, (Client.rpc handle).answer .genesis p = .ok reply →
        ∃ g : Genesis, reply = .genesis g ∧ g.genesisTime = m.genesisTime ∧
          g.genesisValidatorsRoot.toList = m.genesisValidatorsRoot ∧
            g.genesisForkVersion.bytes.toList = m.genesisForkVersion) ∧
    (∀ m : Wire.SyncStatusResponse, p.Serve base .syncing m.payload m.encode →
      (Client.rest base timeout : Client κ).answer .syncing p =
        .ok (.syncing ⟨m.headSlot, m.syncDistance, m.isSyncing, m.isOptimistic⟩) ∧
      (Client.rpc handle).answer .syncing p =
        .ok (.syncing ⟨m.headSlot, m.syncDistance, m.isSyncing, m.isOptimistic⟩)) ∧
    (∀ m : Wire.VersionResponse, m.version.utf8ByteSize < UInt64.size →
      p.Serve base .nodeVersion m.payload m.encode →
      (Client.rest base timeout : Client κ).answer .nodeVersion p = .ok (.version m.version) ∧
      (Client.rpc handle).answer .nodeVersion p = .ok (.version m.version)) ∧
    ∀ (epoch : UInt64) (m : Wire.ProposerDutiesResponse),
      (∀ d ∈ m.duties, d.encode.length < UInt64.size) →
      p.Serve base (.proposerDuties epoch) m.payload m.encode →
      (Client.rest base timeout : Client κ).answer (.proposerDuties epoch) p =
        .ok (.duties (m.duties.map fun d => ⟨Hex.encode d.pubkey, d.validatorIndex, d.slot⟩)) ∧
      (Client.rpc handle).answer (.proposerDuties epoch) p =
        .ok (.duties (m.duties.map fun d => ⟨Hex.encode d.pubkey, d.validatorIndex, d.slot⟩)) := by
  refine ⟨fun m => m.bodyText_payload, fun m hroot hversion hserve => ?_, fun m hserve => ?_,
    fun m hsize hserve => ?_, fun epoch m hsizes hserve => ?_⟩
  · rw [hserve.rest_answer, hserve.rpc_answer]
    have hrpc : ∀ {reply}, _ := @Reply.ofMessage_genesis_eq_ok_iff m hroot hversion
    refine ⟨fun reply => (Reply.ofBody_genesis_eq_ok_iff m).trans hrpc.symm, ?_, ?_⟩
    · rw [← Wire.GenesisResponse.exists_genesis_iff]
      constructor
      · rintro ⟨reply, hreply⟩
        obtain ⟨g, hg, -⟩ := hrpc.1 hreply
        exact ⟨g, hg⟩
      · rintro ⟨g, hg⟩
        exact ⟨.genesis g, hrpc.2 ⟨g, hg, rfl⟩⟩
    · intro reply hreply
      obtain ⟨g, hg, rfl⟩ := hrpc.1 hreply
      obtain ⟨hr, hv, htime⟩ := Wire.GenesisResponse.genesis_eq_ok_iff.1 hg
      exact ⟨g, rfl, htime.symm, (Root.ofList?_eq_some hr).2, (ForkVersion.ofList?_eq_some hv).2⟩
  · rw [hserve.rest_answer, hserve.rpc_answer]
    exact ⟨Reply.ofBody_syncing m, Reply.ofMessage_syncing m⟩
  · rw [hserve.rest_answer, hserve.rpc_answer]
    exact ⟨Reply.ofBody_version m, Reply.ofMessage_version hsize⟩
  · rw [hserve.rest_answer, hserve.rpc_answer]
    exact ⟨Reply.ofBody_duties epoch m, Reply.ofMessage_duties epoch hsizes⟩

/-! A node that serves one answer. -/

/-- The base of the node. -/
def localBase : String := "http://node:5052"

/-- The node, with a payload and a message to serve. -/
def localNode (payload : Json) (message : List UInt8) : Peers where
  channel := [.ok message]
  server := ⟨⟨"http", .domain "node", 5052⟩,
    [.respond ⟨200, Utf8.encode (Reply.bodyText payload), none, none, none⟩]⟩

theorem serve_localNode {d : Duty} {target : String} (payload : Json) (message : List UInt8)
    (h : Rest.request localBase d = .ok ⟨⟨"http", .domain "node", 5052⟩, target⟩) :
    (localNode payload message).Serve localBase d payload message where
  reached := ⟨_, h, rfl⟩
  answered := ⟨_, [], rfl, rfl, rfl⟩
  called := ⟨[], rfl⟩

/-- The node is asked for its parameters, with a whole root and with one byte too few, for its
sync status, for its version and for the duties of an epoch. -/
theorem backends_agree_on_localNode :
    let rest : Client Unit := .rest localBase 1000
    let rpc : Client Unit := .rpc ()
    let whole : Wire.GenesisResponse := ⟨1606824023, List.replicate 32 0xAB, [0, 0, 0, 1]⟩
    let cut : Wire.GenesisResponse := ⟨0, List.replicate 31 0xAB, [0, 0, 0, 1]⟩
    let status : Wire.SyncStatusResponse := ⟨0, 3, true, false⟩
    let version : Wire.VersionResponse := ⟨"node/\"v1\"\n"⟩
    let duties : Wire.ProposerDutiesResponse := ⟨[⟨[0xA1], 7, 224⟩, ⟨[], 0, 0⟩]⟩
    (∃ reply, rest.answer .genesis (localNode whole.payload whole.encode) = .ok reply ∧
      rpc.answer .genesis (localNode whole.payload whole.encode) = .ok reply) ∧
    (¬∃ reply, rest.answer .genesis (localNode cut.payload cut.encode) = .ok reply) ∧
    rest.answer .syncing (localNode status.payload status.encode) =
      .ok (.syncing ⟨0, 3, true, false⟩) ∧
    rpc.answer .nodeVersion (localNode version.payload version.encode) =
      .ok (.version "node/\"v1\"\n") ∧
    rest.answer (.proposerDuties 7) (localNode duties.payload duties.encode) =
      .ok (.duties [⟨"0xa1", 7, 224⟩, ⟨"0x", 0, 0⟩]) := by
  intro rest rpc whole cut status version duties
  have hgenesis : Rest.request localBase .genesis =
      .ok ⟨⟨"http", .domain "node", 5052⟩, "/eth/v1/beacon/genesis"⟩ := by decide +kernel
  have hsyncing : Rest.request localBase .syncing =
      .ok ⟨⟨"http", .domain "node", 5052⟩, "/eth/v1/node/syncing"⟩ := by decide +kernel
  have hversion : Rest.request localBase .nodeVersion =
      .ok ⟨⟨"http", .domain "node", 5052⟩, "/eth/v1/node/version"⟩ := by decide +kernel
  have hduties : Rest.request localBase (.proposerDuties 7) =
      .ok ⟨⟨"http", .domain "node", 5052⟩, "/eth/v1/validator/duties/proposer/7"⟩ := by
    decide +kernel
  have hwhole := (backends_agree localBase 1000 () (localNode whole.payload whole.encode)).2.1 whole
    (by decide) (by decide) (serve_localNode _ _ hgenesis)
  have hcut := (backends_agree localBase 1000 () (localNode cut.payload cut.encode)).2.1 cut
    (by decide) (by decide) (serve_localNode _ _ hgenesis)
  have hstatus := (backends_agree localBase 1000 () (localNode status.payload status.encode)).2.2.1
    status (serve_localNode _ _ hsyncing)
  have htext := (backends_agree localBase 1000 ()
    (localNode version.payload version.encode)).2.2.2.1 version (by decide)
    (serve_localNode _ _ hversion)
  have hlist := (backends_agree localBase 1000 ()
    (localNode duties.payload duties.encode)).2.2.2.2 7 duties (by decide)
    (serve_localNode _ _ hduties)
  refine ⟨?_, ?_, hstatus.1, htext.2, hlist.1⟩
  · obtain ⟨reply, hreply⟩ := hwhole.2.1.2 ⟨rfl, rfl⟩
    exact ⟨reply, (hwhole.1 reply).2 hreply, hreply⟩
  · rintro ⟨reply, hreply⟩
    obtain ⟨hlength, -⟩ := hcut.2.1.1 ⟨reply, (hcut.1 reply).1 hreply⟩
    exact absurd hlength (by decide)

end BeaconReplay
