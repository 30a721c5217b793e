import BeaconReplay.Proofs.Codec.Records
import BeaconReplay.Proofs.Yaml.Documents
import BeaconReplay.Proofs.Yaml.Printing
import BeaconReplay.Yaml.Source

/-!
# Decoding what was printed

A reader takes a node for a value if it gives the value wherever the node stands. The readers of
roots, words and forks take the scalars that are printed for them, and those of lists and records
what is put together from these; so the text of a state decodes to the state.
-/
namespace BeaconReplay

namespace Yaml.Plain

/-- A decimal digit has its value. -/
theorem digit?_of_isDigit {c : Char} (h : c.isDigit = true) :
    digit? 10 c = some (c.toNat - 48) := by
  simp only [Char.isDigit, Bool.and_eq_true, decide_eq_true_eq, ge_iff_le,
    UInt32.le_iff_toNat_le] at h
  have hlow : '0' ≤ c := h.1
  have hhigh : c ≤ '9' := h.2
  have hvalue : c.toNat ≤ 57 := h.2
  have hten : c.toNat - 48 < 10 := by omega
  simp [digit?, hlow, hhigh, hten]

/-- Digits are taken together as in any decimal numeral. -/
theorem foldlM_digits {cs : List Char} (h : ∀ c ∈ cs, c.isDigit = true) (n : ℕ) :
    cs.foldlM (fun n c => (digit? 10 c).map (n * 10 + ·)) n = some (Nat.ofDigitChars 10 cs n) := by
  induction cs generalizing n with
  | nil => simp
  | cons c cs ih =>
    have hcs : ∀ d ∈ cs, d.isDigit = true := fun d hd => h d (List.mem_cons_of_mem _ hd)
    rw [List.foldlM_cons, digit?_of_isDigit (h c (List.mem_cons_self ..)), Nat.ofDigitChars_cons]
    simp only [Option.map_some, Option.bind_eq_bind, Option.bind_some, ih hcs, Nat.mul_comm]
    rfl

theorem isDigit_toDigits (n : ℕ) : ∀ c ∈ Nat.toDigits 10 n, c.isDigit = true :=
  fun _ hc => Nat.isDigit_of_mem_toDigits (by omega) (by omega) hc

theorem digits?_toDigits (n : ℕ) : digits? 10 (Nat.toDigits 10 n) = some n := by
  have hfold := foldlM_digits (isDigit_toDigits n) 0
  rw [Nat.ofDigitChars_ten_toDigits] at hfold
  unfold digits?
  split
  · rename_i hnil
    exact absurd hnil Nat.toDigits_ne_nil
  · exact hfold

/-- The decimal text of a number is that of an integer. -/
theorem natural?_toDigits (n : ℕ) : natural? (Nat.toDigits 10 n) = some n := by
  have hdigits := isDigit_toDigits n
  have hvalue := digits?_toDigits n
  cases hcs : Nat.toDigits 10 n with
  | nil => exact absurd hcs Nat.toDigits_ne_nil
  | cons c cs =>
    rw [hcs] at hdigits hvalue
    have hc : c.isDigit = true := hdigits c (List.mem_cons_self ..)
    have hplus : c ≠ '+' := by rintro rfl; cases hc
    have hminus : c ≠ '-' := by rintro rfl; cases hc
    by_cases hzero : c = '0'
    · -- only the numeral of zero starts with a zero
      subst hzero
      obtain ⟨rfl, rfl⟩ := Decimal.toDigits_eq_zero_cons hcs
      rfl
    · have hplain : isZeroPadded (c :: cs) = false := by
        simp [isZeroPadded, hplus, hminus, hzero]
      have hmagnitude : magnitude? (c :: cs) = some n := by
        simp [magnitude?, hzero, hvalue]
      simp [natural?, hplain, hplus, hmagnitude]

/-- **The decimal text of a word stands for the word.** -/
theorem word?_text (n : UInt64) : word? (Decimal.text n) = some n := by
  simp [word?, Decimal.toList_text, natural?_toDigits, n.toNat_lt_size]

end Yaml.Plain

namespace Yaml

section Reads

variable {α : Type} {read : Part → Decoded α} {v : Part}

/-- A reader takes a node for a value if it gives the value wherever the node stands. -/
def Reads (read : Part → Decoded α) (n : Node) (a : α) : Prop :=
  ∀ v : Part, v.node = n → read v = .ok a

theorem Reads.below {n : Node} {a : α} (h : Reads read n a) (v : Part) (step : PlaceStep) :
    read (v.below step n) = .ok a :=
  h _ rfl

namespace Part

/-- The member of a record with a name. -/
def field (v : Part) (name : String) (n : Node) : String × Part := (name, v.below (.key name) n)

theorem resolved_of_leaf {l : Leaf} (h : v.node = l.node) : v.resolved = l.node := by
  simp [resolved, h, Leaf.node]

/-- Items that are read one by one are read together. -/
theorem mapM_items {node : α → Node} (h : ∀ a, Reads read (node a) a) (xs : List α) (i : ℕ) :
    (v.items i (xs.map node)).mapM read = .ok xs := by
  induction xs generalizing i with
  | nil => rfl
  | cons x xs ih =>
    have hx : read (v.below (.index i) (node x)) = .ok x := h x _ rfl
    simp [items, hx, ih]

end Part

theorem reads_text (l : Leaf) : Reads Part.text l.node l.content.text := by
  intro v hv
  simp [Part.text, Part.resolved_of_leaf hv, Leaf.node]

theorem reads_root (r : Root) : Reads source.root (rootLeaf r).node r := by
  intro v hv
  have htext : source.text v = .ok r.text := reads_text (rootLeaf r) v hv
  simp [Source.root, htext, Root.parse?_text]

theorem reads_word (n : UInt64) : Reads source.word (wordLeaf n).node n := by
  intro v hv
  have hresolved : v.resolved = .scalar (Decimal.text n) .plain none none :=
    Part.resolved_of_leaf hv
  change Part.word v = .ok n
  simp [Part.word, hresolved, Part.mayBe, Plain.word?_text]

theorem reads_fork (fork : Fork) : Reads source.fork (Leaf.node ⟨.ofFork fork, false⟩) fork := by
  intro v hv
  have hresolved : v.resolved = .scalar fork.label .plain none none := Part.resolved_of_leaf hv
  have hlabel : Part.labelled fork.label = .ok fork := by cases fork <;> rfl
  change Part.fork v = .ok fork
  simp [Part.fork, hresolved, Part.localTag?, hlabel]
  rfl

/-- A list is read if each of its items is. -/
theorem reads_list {item : α → Item} (h : ∀ a, Reads read (item a).node a) (xs : Array α) :
    Reads (source.list read) (listOf item xs).node xs := by
  intro v hv
  have hsequence : source.sequence v =
      .ok ⟨v.items 0 (xs.toList.map fun a => (item a).node), none⟩ := by
    change Part.sequence v = _
    simp [Part.sequence, Part.resolved, hv, listOf, Content.node, Part.ending, Function.comp_def]
  simpa using Source.list_eq_ok hsequence (Part.mapM_items h xs.toList 0)

/-- A mapping gives its members by name. -/
theorem record_mapping {ms : List (Node × Node)} (name : String)
    (h : v.node = .mapping ms true none none) :
    source.record name v = .ok (.named (v.members ms true)) := by
  change Part.record name v = _
  simp [Part.record, Part.resolved, h]

theorem reads_summary (s : HistoricalSummary) :
    Reads source.historicalSummary (summaryBlock s).node s := by
  intro v hv
  have hrecord : source.record "HistoricalSummary" v = .ok (.named ⟨
      [v.field "block_summary_root" (rootLeaf s.blockSummaryRoot).node,
       v.field "state_summary_root" (rootLeaf s.stateSummaryRoot).node], none⟩) :=
    record_mapping _ hv
  have hblock := (reads_root s.blockSummaryRoot).below v (.key "block_summary_root")
  have hstate := (reads_root s.stateSummaryRoot).below v (.key "state_summary_root")
  refine Source.inside_ok ?_
  rw [Source.entries_eq_ok hrecord]
  · simp [Entries.required, Part.field, List.lookup, hblock, hstate]
  · simp [Part.field]
  · simp only [List.forall_mem_cons]
    exact ⟨Field.accepts_of (by simp [Field.find?]) hblock,
      Field.accepts_of (by simp [Field.find?]) hstate, List.forall_mem_nil _⟩

theorem reads_eth1 (d : Eth1Data) : Reads source.eth1Data (eth1Block d).node d := by
  intro v hv
  have hrecord : source.record "Eth1Data" v = .ok (.named ⟨
      [v.field "deposit_root" (rootLeaf d.depositRoot).node,
       v.field "deposit_count" (wordLeaf d.depositCount).node,
       v.field "block_hash" (rootLeaf d.blockHash).node], none⟩) :=
    record_mapping _ hv
  have hroot := (reads_root d.depositRoot).below v (.key "deposit_root")
  have hcount := (reads_word d.depositCount).below v (.key "deposit_count")
  have hhash := (reads_root d.blockHash).below v (.key "block_hash")
  refine Source.inside_ok ?_
  rw [Source.entries_eq_ok hrecord]
  · simp [Entries.required, Part.field, List.lookup, hroot, hcount, hhash]
  · simp [Part.field]
  · simp only [List.forall_mem_cons]
    exact ⟨Field.accepts_of (by simp [Field.find?]) hroot,
      Field.accepts_of (by simp [Field.find?]) hcount,
      Field.accepts_of (by simp [Field.find?]) hhash, List.forall_mem_nil _⟩

theorem reads_roots (rs : Array Root) :
    Reads (source.list source.root) (listOf rootItem rs).node rs :=
  reads_list reads_root rs

theorem reads_words (ns : Array UInt64) :
    Reads (source.list source.word) (listOf wordItem ns).node ns :=
  reads_list reads_word ns

theorem reads_summaries (xs : Array HistoricalSummary) :
    Reads (source.list source.historicalSummary) (listOf summaryItem xs).node xs :=
  reads_list reads_summary xs

theorem reads_votes (ds : Array Eth1Data) :
    Reads (source.list source.eth1Data) (listOf eth1Item ds).node ds :=
  reads_list reads_eth1 ds

theorem reads_state (s : BeaconState) : Reads source.state (statePage s).node s := by
  intro v hv
  have hrecord : source.record "BeaconState" v = .ok (.named ⟨
      [v.field "fork" (Leaf.node ⟨.ofFork s.fork, false⟩),
       v.field "slot" (wordLeaf s.slot).node,
       v.field "block_roots" (listOf rootItem s.blockRoots).node,
       v.field "state_roots" (listOf rootItem s.stateRoots).node,
       v.field "historical_roots" (listOf rootItem s.historicalRoots).node,
       v.field "historical_summaries" (listOf summaryItem s.historicalSummaries).node,
       v.field "eth1_data" (eth1Block s.eth1Data).node,
       v.field "eth1_data_votes" (listOf eth1Item s.eth1DataVotes).node,
       v.field "randao_mixes" (listOf rootItem s.randaoMixes).node,
       v.field "slashings" (listOf wordItem s.slashings).node], none⟩) :=
    record_mapping _ hv
  have hfork := (reads_fork s.fork).below v (.key "fork")
  have hslot := (reads_word s.slot).below v (.key "slot")
  have hblockRoots := (reads_roots s.blockRoots).below v (.key "block_roots")
  have hstateRoots := (reads_roots s.stateRoots).below v (.key "state_roots")
  have hhistorical := (reads_roots s.historicalRoots).below v (.key "historical_roots")
  have hsummaries :=
    (reads_summaries s.historicalSummaries).below v (.key "historical_summaries")
  have heth1 := (reads_eth1 s.eth1Data).below v (.key "eth1_data")
  have hvotes := (reads_votes s.eth1DataVotes).below v (.key "eth1_data_votes")
  have hmixes := (reads_roots s.randaoMixes).below v (.key "randao_mixes")
  have hslashings := (reads_words s.slashings).below v (.key "slashings")
  refine Source.inside_ok ?_
  rw [Source.entries_eq_ok hrecord]
  · simp [Entries.required, Entries.optional, Part.field, List.lookup, hfork, hslot, hblockRoots,
      hstateRoots, hhistorical, hsummaries, heth1, hvotes, hmixes, hslashings]
  · simp [Part.field]
  · simp only [List.forall_mem_cons]
    exact ⟨Field.accepts_of (by simp [Source.stateFields, Field.find?]) hfork,
      Field.accepts_of (by simp [Source.stateFields, Field.find?]) hslot,
      Field.accepts_of (by simp [Source.stateFields, Field.find?]) hblockRoots,
      Field.accepts_of (by simp [Source.stateFields, Field.find?]) hstateRoots,
      Field.accepts_of (by simp [Source.stateFields, Field.find?]) hhistorical,
      Field.accepts_of (by simp [Source.stateFields, Field.find?]) hsummaries,
      Field.accepts_of (by simp [Source.stateFields, Field.find?]) heth1,
      Field.accepts_of (by simp [Source.stateFields, Field.find?]) hvotes,
      Field.accepts_of (by simp [Source.stateFields, Field.find?]) hmixes,
      Field.accepts_of (by simp [Source.stateFields, Field.find?]) hslashings,
      List.forall_mem_nil _⟩

end Reads

/-- **The text of a state decodes to the state.** -/
theorem decode_state (s : BeaconState) : decode source.state s.yaml = .ok s := by
  have htext : s.yaml = String.ofList (statePage s).chars := by
    rw [← toList_state, String.ofList_toList]
  have hdocument : Document.ofString s.yaml = _ := htext ▸ Document.ofString_page (statePage s)
  have hread : source.state (.ofDocument (Document.ofString s.yaml)) = .ok s := by
    refine reads_state s _ ?_
    rw [hdocument]
    rfl
  rw [decode, hread, hdocument]
  simp [Node.intact_page]

end Yaml

end BeaconReplay
