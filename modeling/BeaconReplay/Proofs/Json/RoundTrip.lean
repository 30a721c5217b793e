import BeaconReplay.Proofs.Client.Answers

/-!
# Compact texts of records

A record has two compact texts. Written by itself it keeps its members in the order of its fields,
and so do the records inside it; as a value it has them in the order of their names. Either text is
decoded to the record, so what any other text decodes to is decoded again from both.
-/
namespace BeaconReplay

/-! ## Records as they are written -/

/-- A profile as it is written. -/
def Spec.written (spec : Spec) : Json := .object spec.members

/-- A summary as it is written. -/
def HistoricalSummary.written (s : HistoricalSummary) : Json := .object s.members

/-- A snapshot as it is written. -/
def Eth1Data.written (d : Eth1Data) : Json := .object d.members

/-- The members of a state whose summaries and snapshots are encoded in the given ways. -/
def BeaconState.membersBy (summary : HistoricalSummary → Json) (eth1 : Eth1Data → Json)
    (s : BeaconState) : List (String × Json) :=
  [("fork", s.fork.json), ("slot", .word s.slot),
   ("block_roots", .ofArray Root.json s.blockRoots),
   ("state_roots", .ofArray Root.json s.stateRoots),
   ("historical_roots", .ofArray Root.json s.historicalRoots),
   ("historical_summaries", .ofArray summary s.historicalSummaries),
   ("eth1_data", eth1 s.eth1Data),
   ("eth1_data_votes", .ofArray eth1 s.eth1DataVotes),
   ("randao_mixes", .ofArray Root.json s.randaoMixes),
   ("slashings", .ofArray Json.word s.slashings)]

/-- A state as it is written. -/
def BeaconState.written (s : BeaconState) : Json :=
  .object (s.membersBy HistoricalSummary.written Eth1Data.written)

/-- Genesis parameters as they are written. -/
def Genesis.written (g : Genesis) : Json := .object g.members

/-- A sync status as it is written. -/
def SyncStatus.written (s : SyncStatus) : Json := .object s.members

/-- A duty as it is written. -/
def ProposerDuty.written (d : ProposerDuty) : Json := .object d.members

/-- The flags as they are written. -/
def Flags.written (f : Flags) : Json := .object f.members

namespace Json

open Document (ofValue)

/-! ## Numbers of records -/

theorem wordsOnlyMembers_iff {ms : List (String × Json)} :
    wordsOnlyMembers ms = true ↔ ∀ m ∈ ms, m.2.wordsOnly = true := by
  induction ms with
  | nil => simp [wordsOnlyMembers]
  | cons m ms ih => simp [wordsOnlyMembers, ih]

/-- The order of members does not matter to their numbers. -/
theorem Lists.wordsOnly {v : Json} {ms : List (String × Json)} (hv : v.Lists ms)
    (h : ∀ m ∈ ms, m.2.wordsOnly = true) : v.wordsOnly = true := by
  obtain ⟨listed, rfl, hperm⟩ := hv
  rw [Json.wordsOnly, wordsOnlyMembers_iff]
  exact fun m hm => h m (hperm.mem_iff.1 hm)

@[simp] theorem wordsOnly_word (n : UInt64) : (word n).wordsOnly = true := by
  simp [word, wordsOnly, n.toNat_lt_size]

theorem wordsOnly_ofArray {α : Type} {item : α → Json} (h : ∀ a, (item a).wordsOnly = true)
    (xs : Array α) : (ofArray item xs).wordsOnly = true :=
  wordsOnlyItems_map h xs.toList

/-! ## Readers of chain data -/

theorem reads_word (m : UInt64) : Reads source.word (.word m) m := by
  intro n hn
  change n.word = .ok m
  simp [Node.word, hn, word, ofValue]

theorem reads_fork (fork : Fork) : Reads source.fork fork.json fork := by
  intro n hn
  have hlabel : Node.labelled fork.label = .ok fork := by cases fork <;> rfl
  change n.fork = .ok fork
  simp [Node.fork, Node.forkOfText, Node.forkOfValue, hn, Fork.json, ofValue, hlabel]

theorem reads_array {α : Type} {read : Node → Decoded α} {item : α → Json}
    (h : ∀ a, Reads read (item a) a) (xs : Array α) :
    Reads (source.list read) (.ofArray item xs) xs := by
  have hlist := reads_list h xs.toList
  rwa [Array.toArray_toList] at hlist

theorem reads_spec (s : Spec) {v : Json} (hv : v.Lists s.members) : Reads source.spec v s := by
  have hname := reads_text s.configName
  have hslots := reads_word s.slotsPerEpoch
  have hroots := reads_word s.slotsPerHistoricalRoot
  have hvoting := reads_word s.epochsPerEth1VotingPeriod
  have hslashings := reads_word s.epochsPerSlashingsVector
  have hmixes := reads_word s.epochsPerHistoricalVector
  refine reads_record hv (by simp [Spec.members]) (fun n => ?_) (fun n e hlookup => ?_)
  · simp only [Spec.members, List.forall_mem_cons]
    exact ⟨accepts_field (by simp [Field.find?]) hname,
      accepts_field (by simp [Field.find?]) hslots,
      accepts_field (by simp [Field.find?]) hroots,
      accepts_field (by simp [Field.find?]) hvoting,
      accepts_field (by simp [Field.find?]) hslashings,
      accepts_field (by simp [Field.find?]) hmixes, List.forall_mem_nil _⟩
  · simp only [Spec.members, List.forall_mem_cons] at hlookup
    simp [Entries.required, hlookup, hname.below, hslots.below, hroots.below, hvoting.below,
      hslashings.below, hmixes.below]

theorem reads_summary (s : HistoricalSummary) {v : Json} (hv : v.Lists s.members) :
    Reads source.historicalSummary v s := by
  have hblock := reads_root s.blockSummaryRoot
  have hstate := reads_root s.stateSummaryRoot
  refine reads_record hv (by simp [HistoricalSummary.members]) (fun n => ?_)
    (fun n e hlookup => ?_)
  · simp only [HistoricalSummary.members, List.forall_mem_cons]
    exact ⟨accepts_field (by simp [Field.find?]) hblock,
      accepts_field (by simp [Field.find?]) hstate, List.forall_mem_nil _⟩
  · simp only [HistoricalSummary.members, List.forall_mem_cons] at hlookup
    simp [Entries.required, hlookup, hblock.below, hstate.below]

theorem reads_eth1 (d : Eth1Data) {v : Json} (hv : v.Lists d.members) :
    Reads source.eth1Data v d := by
  have hroot := reads_root d.depositRoot
  have hcount := reads_word d.depositCount
  have hhash := reads_root d.blockHash
  refine reads_record hv (by simp [Eth1Data.members]) (fun n => ?_) (fun n e hlookup => ?_)
  · simp only [Eth1Data.members, List.forall_mem_cons]
    exact ⟨accepts_field (by simp [Field.find?]) hroot,
      accepts_field (by simp [Field.find?]) hcount,
      accepts_field (by simp [Field.find?]) hhash, List.forall_mem_nil _⟩
  · simp only [Eth1Data.members, List.forall_mem_cons] at hlookup
    simp [Entries.required, hlookup, hroot.below, hcount.below, hhash.below]

/-- A state is read if the records inside it are. -/
theorem reads_state (s : BeaconState) {v : Json} {summary : HistoricalSummary → Json}
    {eth1 : Eth1Data → Json} (hsummary : ∀ a, Reads source.historicalSummary (summary a) a)
    (heth1 : ∀ d, Reads source.eth1Data (eth1 d) d) (hv : v.Lists (s.membersBy summary eth1)) :
    Reads source.state v s := by
  have hfork := reads_fork s.fork
  have hslot := reads_word s.slot
  have hblockRoots := reads_array reads_root s.blockRoots
  have hstateRoots := reads_array reads_root s.stateRoots
  have hhistorical := reads_array reads_root s.historicalRoots
  have hsummaries := reads_array hsummary s.historicalSummaries
  have hdata := heth1 s.eth1Data
  have hvotes := reads_array heth1 s.eth1DataVotes
  have hmixes := reads_array reads_root s.randaoMixes
  have hslashings := reads_array reads_word s.slashings
  refine reads_record hv (by simp [BeaconState.membersBy]) (fun n => ?_) (fun n e hlookup => ?_)
  · simp only [BeaconState.membersBy, List.forall_mem_cons]
    exact ⟨accepts_field (by simp [Source.stateFields, Field.find?]) hfork,
      accepts_field (by simp [Source.stateFields, Field.find?]) hslot,
      accepts_field (by simp [Source.stateFields, Field.find?]) hblockRoots,
      accepts_field (by simp [Source.stateFields, Field.find?]) hstateRoots,
      accepts_field (by simp [Source.stateFields, Field.find?]) hhistorical,
      accepts_field (by simp [Source.stateFields, Field.find?]) hsummaries,
      accepts_field (by simp [Source.stateFields, Field.find?]) hdata,
      accepts_field (by simp [Source.stateFields, Field.find?]) hvotes,
      accepts_field (by simp [Source.stateFields, Field.find?]) hmixes,
      accepts_field (by simp [Source.stateFields, Field.find?]) hslashings,
      List.forall_mem_nil _⟩
  · simp only [BeaconState.membersBy, List.forall_mem_cons] at hlookup
    simp [Entries.required, Entries.optional, hlookup, hfork.below, hslot.below,
      hblockRoots.below, hstateRoots.below, hhistorical.below, hsummaries.below, hdata.below,
      hvotes.below, hmixes.below, hslashings.below]

theorem reads_flags (f : Flags) {v : Json} (hv : v.Lists f.members) : Reads source.flags v f := by
  have hflag := reads_flag f.enableBeaconRestApi
  refine reads_record hv (by simp [Flags.members]) (fun n => ?_) (fun n e hlookup => ?_)
  · simp only [Flags.members, List.forall_mem_cons]
    exact ⟨accepts_field (by simp [Field.find?]) hflag, List.forall_mem_nil _⟩
  · simp only [Flags.members, List.forall_mem_cons] at hlookup
    simp [Entries.optional, hlookup, hflag.below]

/-! ## Both texts -/

/-- The text of a value is decoded as what the value is read for. -/
theorem decode_text {α : Type} {read : Node → Decoded α} {v : Json} {a : α} (h : Reads read v a)
    (hv : v.wordsOnly = true) : decode read v.text = .ok a := by
  have hreading : Document.ofString v.text = ⟨ofValue v, true⟩ := by
    rw [Document.ofString, text, String.toList_ofList, Document.ofChars_chars hv]
  have hread : read (.ofText (ofValue v)) = .ok a := h _ rfl
  simp [decode, decodeReading, hreading, hread]

/-- Everything is read from its encoding, in which all numbers are words. -/
def Encodes {α : Type} (encode : α → Json) (read : Node → Decoded α) : Prop :=
  ∀ a, Reads read (encode a) a ∧ (encode a).wordsOnly = true

/-- A record that is read from its members in any order is read from both of its encodings. -/
theorem encodes_members {α : Type} {members : α → List (String × Json)} {read : Node → Decoded α}
    (hnodup : ∀ a, ((members a).map Prod.fst).Nodup)
    (hwords : ∀ a, ∀ m ∈ members a, m.2.wordsOnly = true)
    (hreads : ∀ a v, v.Lists (members a) → Reads read v a) :
    Encodes (fun a => .object (members a)) read ∧
      Encodes (fun a => .ofMembers (members a)) read := by
  have hlists : ∀ a v, v.Lists (members a) → Reads read v a ∧ v.wordsOnly = true :=
    fun a v hv => ⟨hreads a v hv, hv.wordsOnly (hwords a)⟩
  exact ⟨fun a => hlists a _ (lists_object _), fun a => hlists a _ (lists_ofMembers (hnodup a))⟩

theorem encodes_root : Encodes Root.json source.root := fun r => ⟨reads_root r, rfl⟩

theorem encodes_fork : Encodes Fork.json source.fork := fun fork => ⟨reads_fork fork, rfl⟩

theorem encodes_spec : Encodes Spec.written source.spec ∧ Encodes Spec.json source.spec :=
  encodes_members (by simp [Spec.members]) (by simp [Spec.members, wordsOnly])
    fun s _ => reads_spec s

theorem encodes_summary : Encodes HistoricalSummary.written source.historicalSummary ∧
    Encodes HistoricalSummary.json source.historicalSummary :=
  encodes_members (by simp [HistoricalSummary.members])
    (by simp [HistoricalSummary.members, Root.json, wordsOnly]) fun s _ => reads_summary s

theorem encodes_eth1 : Encodes Eth1Data.written source.eth1Data ∧
    Encodes Eth1Data.json source.eth1Data :=
  encodes_members (by simp [Eth1Data.members])
    (by simp [Eth1Data.members, Root.json, wordsOnly]) fun d _ => reads_eth1 d

/-- The encodings of a state are made of those of its summaries and snapshots. -/
theorem encodes_state {summary : HistoricalSummary → Json} {eth1 : Eth1Data → Json}
    (hsummary : Encodes summary source.historicalSummary) (heth1 : Encodes eth1 source.eth1Data) :
    Encodes (fun s => .object (s.membersBy summary eth1)) source.state ∧
      Encodes (fun s => .ofMembers (s.membersBy summary eth1)) source.state := by
  have hroots : ∀ rs, (ofArray Root.json rs).wordsOnly = true := wordsOnly_ofArray fun _ => rfl
  have hwords : ∀ ns, (ofArray word ns).wordsOnly = true := wordsOnly_ofArray wordsOnly_word
  have hsummaries : ∀ xs, (ofArray summary xs).wordsOnly = true :=
    wordsOnly_ofArray fun a => (hsummary a).2
  have hvotes : ∀ ds, (ofArray eth1 ds).wordsOnly = true := wordsOnly_ofArray fun d => (heth1 d).2
  refine encodes_members (fun s => by simp [BeaconState.membersBy]) (fun s => ?_)
    fun s v hv => reads_state s (fun a => (hsummary a).1) (fun d => (heth1 d).1) hv
  simp [BeaconState.membersBy, Fork.json, wordsOnly, hroots, hwords, hsummaries, hvotes,
    (heth1 s.eth1Data).2]

theorem encodes_genesis : Encodes Genesis.written source.genesis ∧
    Encodes Genesis.json source.genesis :=
  encodes_members (by simp [Genesis.members])
    (by simp [Genesis.members, Json.quotedWord, Root.json, wordsOnly]) fun g _ => reads_genesis g

theorem encodes_syncStatus : Encodes SyncStatus.written source.syncStatus ∧
    Encodes SyncStatus.json source.syncStatus :=
  encodes_members (by simp [SyncStatus.members])
    (by simp [SyncStatus.members, Json.quotedWord, wordsOnly]) fun s _ => reads_syncStatus s

theorem encodes_duty : Encodes ProposerDuty.written source.proposerDuty ∧
    Encodes ProposerDuty.json source.proposerDuty :=
  encodes_members (by simp [ProposerDuty.members])
    (by simp [ProposerDuty.members, Json.quotedWord, wordsOnly]) fun d _ => reads_duty d

theorem encodes_flags : Encodes Flags.written source.flags ∧ Encodes Flags.json source.flags :=
  encodes_members (by simp [Flags.members]) (by simp [Flags.members, wordsOnly])
    fun f _ => reads_flags f

/-- Everything comes back from its two compact texts, wherever it was decoded from. -/
structure RoundTrips {α : Type} (written value : α → Json) (read : Node → Decoded α) : Prop where
  decode_written : ∀ a, decode read (written a).text = .ok a
  decode_value : ∀ a, decode read (value a).text = .ok a
  decode_again : ∀ s a, decode read s = .ok a →
    decode read (written a).text = .ok a ∧ decode read (value a).text = .ok a

theorem Encodes.roundTrips {α : Type} {written value : α → Json} {read : Node → Decoded α}
    (hwritten : Encodes written read) (hvalue : Encodes value read) :
    RoundTrips written value read := by
  have hw : ∀ a, decode read (written a).text = .ok a :=
    fun a => decode_text (hwritten a).1 (hwritten a).2
  have hv : ∀ a, decode read (value a).text = .ok a :=
    fun a => decode_text (hvalue a).1 (hvalue a).2
  exact ⟨hw, hv, fun _ a _ => ⟨hw a, hv a⟩⟩

/-- **Compact texts read back.** Whatever its words and strings are, every root, fork, profile,
summary, snapshot and state and every answer of a node is decoded from its compact text, and so are
the flags. What any other text decodes to is therefore decoded again from what is written for it. -/
theorem compact_texts_read_back :
    RoundTrips Root.json Root.json source.root ∧
    RoundTrips Fork.json Fork.json source.fork ∧
    RoundTrips Spec.written Spec.json source.spec ∧
    RoundTrips HistoricalSummary.written HistoricalSummary.json source.historicalSummary ∧
    RoundTrips Eth1Data.written Eth1Data.json source.eth1Data ∧
    RoundTrips BeaconState.written BeaconState.json source.state ∧
    RoundTrips Genesis.written Genesis.json source.genesis ∧
    RoundTrips SyncStatus.written SyncStatus.json source.syncStatus ∧
    RoundTrips ProposerDuty.written ProposerDuty.json source.proposerDuty ∧
    RoundTrips Flags.written Flags.json source.flags := by
  have hwritten := (encodes_state encodes_summary.1 encodes_eth1.1).1
  have hvalue := (encodes_state encodes_summary.2 encodes_eth1.2).2
  exact ⟨encodes_root.roundTrips encodes_root, encodes_fork.roundTrips encodes_fork,
    encodes_spec.1.roundTrips encodes_spec.2, encodes_summary.1.roundTrips encodes_summary.2,
    encodes_eth1.1.roundTrips encodes_eth1.2, Encodes.roundTrips hwritten hvalue,
    encodes_genesis.1.roundTrips encodes_genesis.2,
    encodes_syncStatus.1.roundTrips encodes_syncStatus.2,
    encodes_duty.1.roundTrips encodes_duty.2, encodes_flags.1.roundTrips encodes_flags.2⟩

end Json

end BeaconReplay
