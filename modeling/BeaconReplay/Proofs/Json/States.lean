import BeaconReplay.Proofs.Json.RoundTrip
import BeaconReplay.Proofs.Json.Shapes

/-!
# States in any layout

An object is decoded to a state if it gives the fields of that state, wherever they stand in it and
whatever else it lists. The historical lists and the votes may be left out where they are empty. The
first of the other fields that is left out is blamed, and so is a field that is given again, so an
object that has lost or repeated a part is never taken for a state.
-/
namespace BeaconReplay

/-- The names of the fields that a state has to be given, in order. -/
def BeaconState.requiredNames : List String :=
  ["fork", "slot", "block_roots", "state_roots", "eth1_data", "randao_mixes", "slashings"]

namespace Json

open Document (ofValue)

variable {n : Node} {listed : List (String × Document)} {text : String} {k : String}

/-- Whatever is listed for the fields of a state is well formed. -/
structure FitsState (listed : List (String × Document)) : Prop where
  fork : ∀ d, ("fork", d) ∈ listed → ∃ a, IsFork d a
  slot : ∀ d, ("slot", d) ∈ listed → ∃ a, IsWord d a
  blockRoots : ∀ d, ("block_roots", d) ∈ listed → ∃ a, IsList IsRoot d a
  stateRoots : ∀ d, ("state_roots", d) ∈ listed → ∃ a, IsList IsRoot d a
  historicalRoots : ∀ d, ("historical_roots", d) ∈ listed → ∃ a, IsList IsRoot d a
  historicalSummaries : ∀ d, ("historical_summaries", d) ∈ listed → ∃ a, IsList IsSummary d a
  eth1Data : ∀ d, ("eth1_data", d) ∈ listed → ∃ a, IsEth1 d a
  eth1DataVotes : ∀ d, ("eth1_data_votes", d) ∈ listed → ∃ a, IsList IsEth1 d a
  randaoMixes : ∀ d, ("randao_mixes", d) ∈ listed → ∃ a, IsList IsRoot d a
  slashings : ∀ d, ("slashings", d) ∈ listed → ∃ a, IsList IsWord d a

theorem FitsState.checks (h : FitsState listed) (hn : n.Lists listed) :
    ∀ field ∈ source.stateFields, Checks n listed field := by
  have hroots := decides_list decides_root
  simp only [Source.stateFields, List.forall_mem_cons]
  exact ⟨(decides_fork.checks_iff hn).2 h.fork, (decides_word.checks_iff hn).2 h.slot,
    (hroots.checks_iff hn).2 h.blockRoots, (hroots.checks_iff hn).2 h.stateRoots,
    (hroots.checks_iff hn).2 h.historicalRoots,
    ((decides_list decides_summary).checks_iff hn).2 h.historicalSummaries,
    (decides_eth1.checks_iff hn).2 h.eth1Data,
    ((decides_list decides_eth1).checks_iff hn).2 h.eth1DataVotes,
    (hroots.checks_iff hn).2 h.randaoMixes,
    ((decides_list decides_word).checks_iff hn).2 h.slashings, List.forall_mem_nil _⟩

theorem GivesState.mem_names {s : BeaconState} (h : GivesState listed s) :
    ∀ k ∈ BeaconState.requiredNames, k ∈ listed.map Prod.fst := by
  simp only [BeaconState.requiredNames, List.forall_mem_cons]
  exact ⟨h.fork.mem_names, h.slot.mem_names, h.blockRoots.mem_names, h.stateRoots.mem_names,
    h.eth1Data.mem_names, h.randaoMixes.mem_names, h.slashings.mem_names, List.forall_mem_nil _⟩

/-- The first field that is left out is the fault of an object that gives no other field
ill-formed. -/
theorem state_of_absent (hn : n.Textual) (hd : n.document = .ofNamed listed)
    (hlaid : Laid BeaconState.names listed) (hfits : FitsState listed)
    (hk : BeaconState.requiredNames.find? (· ∉ listed.map Prod.fst) = some k) :
    source.state n = .error (.ofCause (.missingField k)) := by
  have hnodup : (source.stateFields.map Field.name).Nodup := by simp [Source.stateFields]
  have hchecks := hfits.checks (hn.lists hd)
  rw [Source.state, inside_eq, entries_ofNamed hnodup hd hlaid hchecks, Result.ok_bind]
  simp only [Source.stateFields, List.forall_mem_cons] at hchecks
  obtain ⟨hfork, hslot, hblockRoots, hstateRoots, hhistorical, hsummaries, heth1, hvotes, hmixes,
    hslashings, -⟩ := hchecks
  generalize he : (⟨listed.map n.part, fun _ k => .ofCause (.missingField k)⟩ : Entries Node) = e
  have hvalues : e.values = listed.map n.part := he ▸ rfl
  have habsent (i : ℕ) (k : String) : e.absent i k = .ofCause (.missingField k) := he ▸ rfl
  refine (?_ : e.BlamesAbsent (fun k => .ofCause (.missingField k))
    BeaconState.requiredNames _) k ?_
  · exact .required (habsent _ _) (fun _ => hfork.exists_ok hvalues) fun _ =>
      .required (habsent _ _) (fun _ => hslot.exists_ok hvalues) fun _ =>
      .required (habsent _ _) (fun _ => hblockRoots.exists_ok hvalues) fun _ =>
      .required (habsent _ _) (fun _ => hstateRoots.exists_ok hvalues) fun _ =>
      .optional (fun _ => hhistorical.exists_ok hvalues) fun _ =>
      .optional (fun _ => hsummaries.exists_ok hvalues) fun _ =>
      .required (habsent _ _) (fun _ => heth1.exists_ok hvalues) fun _ =>
      .optional (fun _ => hvotes.exists_ok hvalues) fun _ =>
      .required (habsent _ _) (fun _ => hmixes.exists_ok hvalues) fun _ =>
      .required (habsent _ _) (fun _ => hslashings.exists_ok hvalues) fun _ =>
      Entries.blamesAbsent_nil _
  · rw [← hk, hvalues]
    refine List.find?_congr fun l _ => ?_
    rw [Bool.eq_iff_iff, Option.isNone_iff_eq_none, Node.Holds.lookup_eq_none_iff]
    simp

/-- **Layout does not matter, and loss is noticed.** An object text is decoded to a state exactly if
it gives the fields of that state, in any order and with anything well formed between them; the
historical lists and the votes may be left out where they are empty. If one of the other fields is
left out, the first of them is the fault, and if a field is given twice, one that is given twice is;
no such text is ever decoded to a state. -/
theorem state_decodes_in_any_layout (htext : Document.ofString text = ⟨.ofNamed listed, true⟩) :
    (∀ s, decode source.state text = .ok s ↔ Laid BeaconState.names listed ∧ GivesState listed s) ∧
    (Laid BeaconState.names listed → FitsState listed →
      ∀ k, BeaconState.requiredNames.find? (· ∉ listed.map Prod.fst) = some k →
        decode source.state text = .error (.ofCause (.missingField k))) ∧
    ((∀ m ∈ listed, m.1 ∉ BeaconState.names → m.2.intact = true) → FitsState listed →
      ∀ k ∈ BeaconState.names, 2 ≤ (listed.map Prod.fst).count k →
        ∃ l ∈ BeaconState.names, 2 ≤ (listed.map Prod.fst).count l ∧
          decode source.state text = .error (.ofCause (.duplicateField l))) ∧
    ((∃ k ∈ BeaconState.requiredNames, k ∉ listed.map Prod.fst) ∨
        (∃ k ∈ BeaconState.names, 2 ≤ (listed.map Prod.fst).count k) →
      ∀ s, decode source.state text ≠ .ok s) := by
  have hnode : (Node.ofText (Document.ofString text).root).Textual := textual_ofChars _
  have hdocument : (Node.ofText (Document.ofString text).root).document = .ofNamed listed := by
    rw [htext]
    rfl
  have htwice {k : String} (hk : k ∈ BeaconState.names)
      (hcount : 2 ≤ (listed.map Prod.fst).count k) :
      ¬((listed.map Prod.fst).filter (· ∈ BeaconState.names)).Nodup := by
    intro hnodup
    have honce := List.nodup_iff_count_le_one.1 hnodup k
    rw [List.count_filter (by simpa using hk)] at honce
    omega
  have hdecoded (s : BeaconState) :
      decode source.state text = .ok s ↔ Laid BeaconState.names listed ∧ GivesState listed s := by
    rw [decode_eq_ok_iff decides_state, htext]
    constructor
    · rintro ⟨d, hd, given, hgives, hstate⟩
      cases hd
      obtain ⟨rfl, hlaid⟩ := gives_ofNamed_iff.1 hgives
      exact ⟨hlaid, hstate⟩
    · rintro ⟨hlaid, hstate⟩
      exact ⟨_, rfl, listed, .named hlaid, hstate⟩
  refine ⟨hdecoded, fun hlaid hfits k hk => ?_, fun hothers hfits k hk hcount => ?_, ?_⟩
  · exact decode_eq_error (state_of_absent hnode hdocument hlaid hfits hk)
  · have hnodup : (source.stateFields.map Field.name).Nodup := by simp [Source.stateFields]
    obtain ⟨l, hl, hmore, hentries⟩ := exists_repeated "BeaconState" hnodup hdocument hothers
      (hfits.checks (hnode.lists hdocument)) (htwice hk hcount)
    refine ⟨l, hl, hmore, decode_eq_error ?_⟩
    rw [Source.state, inside_eq, hentries, Result.error_bind]
  · rintro hlost s hs
    obtain ⟨hlaid, hstate⟩ := (hdecoded s).1 hs
    obtain ⟨k, hk, habsent⟩ | ⟨k, hk, hcount⟩ := hlost
    · exact habsent (hstate.mem_names k hk)
    · exact htwice hk hcount hlaid.once

/-- The members of an object, as documents. -/
def parts (ms : List (String × Json)) : List (String × Document) :=
  ms.map fun m => (m.1, ofValue m.2)

theorem ofString_object {ms : List (String × Json)} (hwords : ∀ m ∈ ms, m.2.wordsOnly = true) :
    Document.ofString (object ms).text = ⟨.ofNamed (parts ms), true⟩ := by
  have hdocument : ofValue (object ms) = .ofNamed (parts ms) := by
    rw [ofValue, Document.ofNamed, parts, List.map_map]
    congr 1
    clear hwords
    induction ms with
    | nil => rfl
    | cons m ms ih => rw [Document.ofMembers, ih]; rfl
  rw [Document.ofString, text, String.toList_ofList, Document.ofChars_chars, hdocument]
  rw [wordsOnly, wordsOnlyMembers_iff]
  exact hwords

/-- A member that is read as a value is given for it. -/
theorem given_of_reads {α : Type} {read : Node → Decoded α} {P : Document → α → Prop} {v : Json}
    {a : α} {ms : List (String × Json)} (hread : Decides read P) (h : Reads read v a)
    (hwords : ∀ m ∈ ms, m.2.wordsOnly = true) (hmem : (k, v) ∈ ms) : Given (parts ms) k P a := by
  have hv : v.wordsOnly = true := hwords _ hmem
  obtain ⟨d, hd, hvalue⟩ := (decode_eq_ok_iff hread).1 (decode_text h hv)
  rw [Document.ofString, text, String.toList_ofList, Document.ofChars_chars hv] at hd
  cases hd
  exact ⟨_, List.mem_map_of_mem hmem, hvalue⟩

/-- A snapshot without deposits. -/
def noDeposits : Eth1Data := ⟨Root.zero, 0, Root.zero⟩

/-- The members of a state out of order, without two of the lists, with a note between them. -/
def shuffledMembers : List (String × Json) :=
  [("slashings", ofArray word #[7]), ("randao_mixes", ofArray Root.json #[Root.zero]),
   ("note", .object [("slot", .null)]), ("eth1_data_votes", ofArray Eth1Data.written #[]),
   ("eth1_data", noDeposits.written), ("state_roots", ofArray Root.json #[]),
   ("block_roots", ofArray Root.json #[]), ("slot", word 5), ("fork", Fork.deneb.json)]

/-- The state of these members. -/
def shuffledState : BeaconState :=
  ⟨.deneb, 5, #[], #[], #[], #[], noDeposits, #[], #[Root.zero], #[7]⟩

theorem wordsOnly_shuffledMembers : ∀ m ∈ shuffledMembers, m.2.wordsOnly = true := by
  have hroots : ∀ rs, (ofArray Root.json rs).wordsOnly = true := wordsOnly_ofArray fun _ => rfl
  have hwords : ∀ ns, (ofArray word ns).wordsOnly = true := wordsOnly_ofArray wordsOnly_word
  have hvotes : ∀ ds, (ofArray Eth1Data.written ds).wordsOnly = true :=
    wordsOnly_ofArray fun d => (encodes_eth1.1 d).2
  simp [shuffledMembers, hroots, hwords, hvotes, (encodes_eth1.1 noDeposits).2, wordsOnly,
    wordsOnlyMembers, Fork.json]

theorem gives_shuffledState : GivesState (parts shuffledMembers) shuffledState := by
  have hwords := wordsOnly_shuffledMembers
  have hroots (rs : Array Root) := reads_array reads_root rs
  have hvotes (ds : Array Eth1Data) := reads_array (fun d => (encodes_eth1.1 d).1) ds
  have hnotes (l : String) (hl : l ∉ shuffledMembers.map Prod.fst) :
      l ∉ (parts shuffledMembers).map Prod.fst := by
    rwa [parts, List.map_map]
  exact {
    fork := given_of_reads decides_fork (reads_fork _) hwords
      (by simp [shuffledMembers, shuffledState])
    slot := given_of_reads decides_word (reads_word _) hwords
      (by simp [shuffledMembers, shuffledState])
    blockRoots := given_of_reads (decides_list decides_root) (hroots _) hwords
      (by simp [shuffledMembers, shuffledState])
    stateRoots := given_of_reads (decides_list decides_root) (hroots _) hwords
      (by simp [shuffledMembers, shuffledState])
    historicalRoots := .inr ⟨hnotes _ (by simp [shuffledMembers]), rfl⟩
    historicalSummaries := .inr ⟨hnotes _ (by simp [shuffledMembers]), rfl⟩
    eth1Data := given_of_reads decides_eth1 (encodes_eth1.1 _).1 hwords
      (by simp [shuffledMembers, shuffledState])
    eth1DataVotes := .inl (given_of_reads (decides_list decides_eth1) (hvotes _) hwords
      (by simp [shuffledMembers, shuffledState]))
    randaoMixes := given_of_reads (decides_list decides_root) (hroots _) hwords
      (by simp [shuffledMembers, shuffledState])
    slashings := given_of_reads (decides_list decides_word) (reads_array reads_word _) hwords
      (by simp [shuffledMembers, shuffledState]) }

theorem laid_shuffledMembers : Laid BeaconState.names (parts shuffledMembers) := by
  constructor
  · simp [BeaconState.names, parts, shuffledMembers]
  · simp [BeaconState.names, parts, shuffledMembers, Document.intact, Document.intactMembers,
      ofValue, Document.ofMembers]

/-- Nothing but slots fits a state, however often they are listed. -/
theorem fitsState_of_slots (ws : List UInt64) :
    FitsState (parts (ws.map fun w => ("slot", word w))) := by
  have hslot (l : String) (d : Document)
      (hd : (l, d) ∈ parts (ws.map fun w => ("slot", word w))) : l = "slot" ∧ ∃ w, IsWord d w := by
    rw [parts, List.map_map] at hd
    obtain ⟨w, -, hw⟩ := List.mem_map.1 hd
    cases hw
    exact ⟨rfl, w, rfl⟩
  have hother (l : String) (hl : l ≠ "slot") (d : Document)
      (hd : (l, d) ∈ parts (ws.map fun w => ("slot", word w))) : False :=
    hl (hslot l d hd).1
  constructor
  case slot => exact fun d hd => (hslot _ d hd).2
  all_goals exact fun d hd => (hother _ (by simp) d hd).elim

theorem shuffled_state_decodes :
    decode source.state (object shuffledMembers).text = .ok shuffledState ∧
    decode source.state (object [("slot", word 5)]).text =
      .error (.ofCause (.missingField "fork")) ∧
    decode source.state (object [("slot", word 5), ("slot", word 6)]).text =
      .error (.ofCause (.duplicateField "slot")) := by
  have hslots (ws : List UInt64) :
      ∀ m ∈ ws.map fun w => ("slot", word w), m.2.wordsOnly = true := by
    simp
  refine ⟨?_, ?_, ?_⟩
  · have hshuffled := state_decodes_in_any_layout (ofString_object wordsOnly_shuffledMembers)
    exact (hshuffled.1 _).2 ⟨laid_shuffledMembers, gives_shuffledState⟩
  · have honce := state_decodes_in_any_layout (ofString_object (hslots [5]))
    refine honce.2.1 ⟨?_, ?_⟩ (fitsState_of_slots [5]) "fork" ?_
    · simp [parts, BeaconState.names]
    · simp [parts, BeaconState.names]
    · simp [parts, BeaconState.requiredNames]
  · have htwice := state_decodes_in_any_layout (ofString_object (hslots [5, 6]))
    have hothers : ∀ m ∈ parts ([5, 6].map fun w => ("slot", word w)),
        m.1 ∉ BeaconState.names → m.2.intact = true := by
      simp [parts, BeaconState.names]
    obtain ⟨l, -, hcount, hfault⟩ := htwice.2.2.1 hothers (fitsState_of_slots [5, 6]) "slot"
      (by simp [BeaconState.names]) (by simp [parts])
    have hname : l ∈ (parts ([5, 6].map fun w => ("slot", word w))).map Prod.fst :=
      List.count_pos_iff.1 (by omega)
    obtain rfl : l = "slot" := by simpa [parts] using hname
    exact hfault

end Json

end BeaconReplay
