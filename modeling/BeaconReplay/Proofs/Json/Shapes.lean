import BeaconReplay.Codec.Chain
import BeaconReplay.Proofs.Json.Layout

/-!
# Shapes of chain data

Which documents stand for a word, a root, a fork, a list, a summary, a snapshot and a state. Each
shape is what the reader of its name decides: a list is an array of documents of one shape, and a
record is whatever gives its fields documents of theirs.
-/
namespace BeaconReplay

/-- The names of the fields of a summary. -/
def HistoricalSummary.names : List String := ["block_summary_root", "state_summary_root"]

/-- The names of the fields of a snapshot. -/
def Eth1Data.names : List String := ["deposit_root", "deposit_count", "block_hash"]

/-- The names of the fields of a state. -/
def BeaconState.names : List String :=
  ["fork", "slot", "block_roots", "state_roots", "historical_roots", "historical_summaries",
    "eth1_data", "eth1_data_votes", "randao_mixes", "slashings"]

namespace Json

/-! ## Scalars -/

/-- A document that is a word. -/
def IsWord (d : Document) (w : UInt64) : Prop := d = .number (some (.integer w.toNat))

/-- A document that is a string. -/
def IsText (d : Document) (s : String) : Prop := d = .string (some s)

/-- A document that is a boolean. -/
def IsFlag (d : Document) (b : Bool) : Prop := d = .boolean b

/-- A document that spells a root. -/
def IsRoot (d : Document) (r : Root) : Prop := ∃ s, IsText d s ∧ Root.parse? s = some r

/-- A document that is the label of a fork, or an object with the label as its one name. -/
inductive IsFork : Document → Fork → Prop
  | label (fork : Fork) : IsFork (.string (some fork.label)) fork
  | tagged (fork : Fork) : IsFork (.object [(some fork.label, .null)] .closed) fork

/-- An integer that fits a word is that word. -/
theorem toUInt64_eq_iff {i : ℤ} (hpos : 0 ≤ i) (hi : i < UInt64.size) {w : UInt64} :
    i.toNat.toUInt64 = w ↔ i = w.toNat := by
  have hnat : i.toNat < UInt64.size := by omega
  rw [← UInt64.toNat_inj, Nat.toUInt64_eq, UInt64.toNat_ofNat_of_lt' hnat]
  omega

theorem decides_word : Decides source.word IsWord := by
  intro n w hn
  change n.word = .ok w ↔ _
  obtain ⟨-, hsized⟩ := hn
  rw [Node.word, IsWord]
  generalize n.document = d at hsized
  split
  · next i =>
    cases hsized with
    | number lt =>
      split_ifs with hpos
      · simp [toUInt64_eq_iff hpos (lt i rfl)]
      · refine iff_of_false (by simp) fun h => hpos ?_
        cases h
        exact Int.natCast_nonneg _
  · next hother =>
    refine iff_of_false (by simp) ?_
    rintro rfl
    exact hother _ rfl

theorem decides_text : Decides source.text IsText := by
  intro n s hn
  change n.text = .ok s ↔ _
  rw [Node.text, IsText]
  split
  · simp_all
  · next hother =>
    refine iff_of_false (by simp) (hother s)

theorem decides_flag : Decides source.flag IsFlag := by
  intro n b hn
  change n.flag = .ok b ↔ _
  rw [Node.flag, IsFlag]
  split
  · simp_all
  · next hother =>
    refine iff_of_false (by simp) (hother b)

theorem decides_root : Decides source.root IsRoot := by
  intro n r hn
  rw [Source.root, Result.bind_eq_ok_iff]
  refine exists_congr fun s => ?_
  rw [decides_text n s hn]
  cases Root.parse? s <;> simp

theorem labelled_eq_ok_iff {s : String} {fork : Fork} :
    Node.labelled s = .ok fork ↔ s = fork.label := by
  constructor
  · intro h
    rw [Node.labelled] at h
    split at h
    · next found hfound =>
      cases h
      have hlabel := List.find?_some hfound
      exact (beq_iff_eq.1 hlabel).symm
    · cases h
  · rintro rfl
    cases fork <;> rfl

theorem unit_eq_ok_iff {d : Document} : Node.unit d = .ok () ↔ d = .null := by
  cases d <;> simp [Node.unit]

theorem decides_fork : Decides source.fork IsFork := by
  intro n fork hn
  change n.fork = .ok fork ↔ _
  rw [Node.fork, if_pos hn.fromText]
  generalize n.document = d
  constructor
  · intro h
    rw [Node.forkOfText.eq_def] at h
    split at h
    · next s =>
      obtain rfl := labelled_eq_ok_iff.1 h
      exact .label fork
    · next k d rest ending =>
      obtain ⟨found, hlabel, h⟩ := Result.bind_eq_ok_iff.1 h
      obtain ⟨hunit, h⟩ := Result.check_bind_eq_ok_iff.1 h
      obtain rfl := unit_eq_ok_iff.1 hunit
      split at h
      · cases h
        obtain rfl := labelled_eq_ok_iff.1 hlabel
        exact .tagged fork
      · cases h
    · cases h
    · cases h
  · intro h
    have hlabel : Node.labelled fork.label = .ok fork := labelled_eq_ok_iff.2 rfl
    cases h with
    | label => exact hlabel
    | tagged => simp [Node.forkOfText, hlabel, Node.unit]

/-! ## Lists -/

/-- A document that is an array of documents of one shape. -/
def IsList {α : Type} (P : Document → α → Prop) (d : Document) (xs : Array α) : Prop :=
  ∃ items, d = .array items true ∧ List.Forall₂ P items xs.toList

section IsList

variable {α : Type} {read : Node → Decoded α} {P : Document → α → Prop}

theorem mapM_eq_ok_iff (hread : Decides read P) {n : Node} (hfrom : n.fromText = true)
    {items : List Document} (hsized : ∀ d ∈ items, d.Sized) {xs : List α} :
    (items.map n.below).mapM read = .ok xs ↔ List.Forall₂ P items xs := by
  induction items generalizing xs with
  | nil => simp [eq_comm]
  | cons d items ih =>
    obtain ⟨hd, hrest⟩ := List.forall_mem_cons.1 hsized
    have hfirst (a : α) : read (n.below d) = .ok a ↔ P d a := hread _ a ⟨hfrom, hd⟩
    rw [List.map_cons, List.mapM_cons, Result.bind_eq_ok_iff]
    simp only [hfirst, Result.bind_eq_ok_iff, ih hrest, Result.pure_eq_ok, Except.ok.injEq]
    constructor
    · rintro ⟨a, ha, as, has, rfl⟩
      exact .cons ha has
    · rintro (_ | ⟨ha, has⟩)
      exact ⟨_, ha, _, has, rfl⟩

theorem decides_list (hread : Decides read P) : Decides (source.list read) (IsList P) := by
  intro n xs hn
  obtain ⟨hfrom, hsized⟩ := hn
  rw [Source.list, Source.inside_eq_ok_iff]
  cases hd : n.document with
  | array items closed =>
    have hsequence : source.sequence n = .ok ⟨items.map n.below, Node.ending closed⟩ := by
      change n.sequence = _
      rw [Node.sequence, hd]
      rfl
    have hitems : ∀ d ∈ items, d.Sized := by
      rw [hd] at hsized
      cases hsized
      assumption
    rw [hsequence, Result.ok_bind, Result.bind_eq_ok_iff]
    simp only [mapM_eq_ok_iff hread hfrom hitems]
    cases closed with
    | false => simp [Node.ending, IsList]
    | true =>
      constructor
      · rintro ⟨ys, hys, hsame⟩
        cases hsame
        exact ⟨items, rfl, hys⟩
      · rintro ⟨items', hsame, hxs⟩
        cases hsame
        exact ⟨xs.toList, hxs, by simp [Node.ending]⟩
  | _ =>
    change (n.sequence >>= _) = _ ↔ _
    simp [Node.sequence, hd, IsList]

end IsList

/-! ## Records -/

/-- A document that gives the fields of a summary. -/
def IsSummary (d : Document) (s : HistoricalSummary) : Prop :=
  ∃ listed, d.Gives HistoricalSummary.names listed ∧
    Given listed "block_summary_root" IsRoot s.blockSummaryRoot ∧
      Given listed "state_summary_root" IsRoot s.stateSummaryRoot

/-- A document that gives the fields of a snapshot. -/
def IsEth1 (d : Document) (s : Eth1Data) : Prop :=
  ∃ listed, d.Gives Eth1Data.names listed ∧
    Given listed "deposit_root" IsRoot s.depositRoot ∧
      Given listed "deposit_count" IsWord s.depositCount ∧
        Given listed "block_hash" IsRoot s.blockHash

/-- What is listed gives the fields of a state; the historical lists and the votes are left out
only where they are empty. -/
structure GivesState (listed : List (String × Document)) (s : BeaconState) : Prop where
  fork : Given listed "fork" IsFork s.fork
  slot : Given listed "slot" IsWord s.slot
  blockRoots : Given listed "block_roots" (IsList IsRoot) s.blockRoots
  stateRoots : Given listed "state_roots" (IsList IsRoot) s.stateRoots
  historicalRoots : GivenOr listed "historical_roots" (IsList IsRoot) #[] s.historicalRoots
  historicalSummaries :
    GivenOr listed "historical_summaries" (IsList IsSummary) #[] s.historicalSummaries
  eth1Data : Given listed "eth1_data" IsEth1 s.eth1Data
  eth1DataVotes : GivenOr listed "eth1_data_votes" (IsList IsEth1) #[] s.eth1DataVotes
  randaoMixes : Given listed "randao_mixes" (IsList IsRoot) s.randaoMixes
  slashings : Given listed "slashings" (IsList IsWord) s.slashings

/-- A document that gives the fields of a state. -/
def IsState (d : Document) (s : BeaconState) : Prop :=
  ∃ listed, d.Gives BeaconState.names listed ∧ GivesState listed s

theorem decides_summary : Decides source.historicalSummary IsSummary := by
  refine decides_record (by simp) (fun n listed e s h he => ?_) fun n listed s h hgiven => ?_
  · simp (disch := simp) only [Result.bind_eq_ok_iff, decides_root.required_eq_ok_iff h he]
    constructor
    · rintro ⟨a, ha, b, hb, hs⟩
      cases hs
      exact ⟨ha, hb⟩
    · rintro ⟨ha, hb⟩
      exact ⟨_, ha, _, hb, rfl⟩
  · obtain ⟨hblock, hstate⟩ := hgiven
    simp only [List.forall_mem_cons]
    exact ⟨decides_root.checks_of_given h (by simp) hblock,
      decides_root.checks_of_given h (by simp) hstate, List.forall_mem_nil _⟩

theorem decides_eth1 : Decides source.eth1Data IsEth1 := by
  refine decides_record (by simp) (fun n listed e s h he => ?_) fun n listed s h hgiven => ?_
  · simp (disch := simp) only [Result.bind_eq_ok_iff, decides_root.required_eq_ok_iff h he,
      decides_word.required_eq_ok_iff h he]
    constructor
    · rintro ⟨a, ha, b, hb, c, hc, hs⟩
      cases hs
      exact ⟨ha, hb, hc⟩
    · rintro ⟨ha, hb, hc⟩
      exact ⟨_, ha, _, hb, _, hc, rfl⟩
  · obtain ⟨hroot, hcount, hhash⟩ := hgiven
    simp only [List.forall_mem_cons]
    exact ⟨decides_root.checks_of_given h (by simp) hroot,
      decides_word.checks_of_given h (by simp) hcount,
      decides_root.checks_of_given h (by simp) hhash, List.forall_mem_nil _⟩

theorem decides_state : Decides source.state IsState := by
  have hroots := decides_list decides_root
  have hsummaries := decides_list decides_summary
  have hvotes := decides_list decides_eth1
  have hwords := decides_list decides_word
  refine decides_record (by simp [Source.stateFields]) (fun n listed e s h he => ?_)
    fun n listed s h hgiven => ?_
  · simp (disch := simp [Source.stateFields]) only [Result.bind_eq_ok_iff,
      decides_fork.required_eq_ok_iff h he, decides_word.required_eq_ok_iff h he,
      hroots.required_eq_ok_iff h he, hroots.optional_eq_ok_iff h he,
      hsummaries.optional_eq_ok_iff h he, decides_eth1.required_eq_ok_iff h he,
      hvotes.optional_eq_ok_iff h he, hwords.required_eq_ok_iff h he]
    constructor
    · rintro ⟨a, ha, b, hb, c, hc, d, hd, e, he, f, hf, g, hg, i, hi, j, hj, k, hk, hs⟩
      cases hs
      exact ⟨ha, hb, hc, hd, he, hf, hg, hi, hj, hk⟩
    · intro hs
      exact ⟨_, hs.fork, _, hs.slot, _, hs.blockRoots, _, hs.stateRoots, _, hs.historicalRoots,
        _, hs.historicalSummaries, _, hs.eth1Data, _, hs.eth1DataVotes, _, hs.randaoMixes,
        _, hs.slashings, rfl⟩
  · simp only [Source.stateFields, List.forall_mem_cons]
    exact ⟨decides_fork.checks_of_given h (by simp [Source.stateFields]) hgiven.fork,
      decides_word.checks_of_given h (by simp [Source.stateFields]) hgiven.slot,
      hroots.checks_of_given h (by simp [Source.stateFields]) hgiven.blockRoots,
      hroots.checks_of_given h (by simp [Source.stateFields]) hgiven.stateRoots,
      hroots.checks_of_givenOr h (by simp [Source.stateFields]) hgiven.historicalRoots,
      hsummaries.checks_of_givenOr h (by simp [Source.stateFields]) hgiven.historicalSummaries,
      decides_eth1.checks_of_given h (by simp [Source.stateFields]) hgiven.eth1Data,
      hvotes.checks_of_givenOr h (by simp [Source.stateFields]) hgiven.eth1DataVotes,
      hroots.checks_of_given h (by simp [Source.stateFields]) hgiven.randaoMixes,
      hwords.checks_of_given h (by simp [Source.stateFields]) hgiven.slashings,
      List.forall_mem_nil _⟩

end Json

end BeaconReplay
