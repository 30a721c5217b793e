import BeaconReplay.Proofs.Text.Numerals
import BeaconReplay.Proofs.Yaml.Page
import BeaconReplay.Yaml.Printer

/-!
# The page of a printed state

Roots stand in quotes, and numbers and forks in plain style. The text of a state is that of its
page, which gives the members of the state in the order of its fields.
-/
namespace BeaconReplay

namespace Yaml

theorem isSafe_of_isDigit {c : Char} (h : c.isDigit = true) : isSafe c = true := by
  simp only [Char.isDigit, Bool.and_eq_true, decide_eq_true_eq, ge_iff_le] at h
  have hlow : '0' ≤ c := h.1
  have hhigh : c ≤ '9' := h.2
  simp [isSafe, hlow, hhigh]

theorem isSafe_hexDigit {n : UInt8} (h : n.toNat < 16) : isSafe (Hex.digit n) = true := by
  have hall : ∀ k < 16, isSafe (Hex.digit (UInt8.ofNat k)) = true := by decide
  simpa using hall n.toNat h

namespace SafeText

/-- The text of a root. -/
def ofRoot (r : Root) : SafeText where
  text := r.text
  nonempty := by simp [Root.toList_text]
  safe := by
    intro c hc
    rw [Root.toList_text, List.mem_cons, List.mem_cons] at hc
    rcases hc with rfl | rfl | hc
    · decide
    · decide
    · obtain ⟨n, hn, rfl⟩ := Hex.exists_digit_of_mem hc
      exact isSafe_hexDigit hn
  short := by simp [Root.toList_text, Hex.length_digits, Root.length_toList]

/-- The decimal text of a word. -/
def ofWord (n : UInt64) : SafeText where
  text := Decimal.text n
  nonempty := by rw [Decimal.toList_text]; exact Nat.toDigits_ne_nil
  safe := by
    intro c hc
    rw [Decimal.toList_text] at hc
    exact isSafe_of_isDigit (Nat.isDigit_of_mem_toDigits (by omega) (by omega) hc)
  short := by
    have hlength : (Nat.toDigits 10 n.toNat).length ≤ 20 :=
      (Nat.length_toDigits_le_iff (by omega) (by omega)).2 (n.toNat_lt.trans (by decide))
    rw [Decimal.toList_text]
    omega

/-- Whether a text is safe. -/
def check (text : String) : Bool :=
  !text.toList.isEmpty && text.toList.all isSafe && text.toList.length ≤ 1000

/-- A text that has been checked. -/
def ofText (text : String) (h : check text = true) : SafeText where
  text := text
  nonempty := by
    simp only [check, Bool.and_eq_true] at h
    simpa using h.1.1
  safe := by
    simp only [check, Bool.and_eq_true] at h
    simpa using h.1.2
  short := by
    simp only [check, Bool.and_eq_true] at h
    simpa using h.2

/-- The label of a fork. -/
def ofFork (fork : Fork) : SafeText := ofText fork.label (by cases fork <;> rfl)

end SafeText

/-- A root in quotes. -/
def rootLeaf (r : Root) : Leaf := ⟨.ofRoot r, true⟩

/-- A word in plain style. -/
def wordLeaf (n : UInt64) : Leaf := ⟨.ofWord n, false⟩

/-- The rows of a summary. -/
def summaryBlock (s : HistoricalSummary) : Block where
  first := ⟨.ofText "block_summary_root" (by decide), rootLeaf s.blockSummaryRoot⟩
  others := [⟨.ofText "state_summary_root" (by decide), rootLeaf s.stateSummaryRoot⟩]

/-- The rows of a deposit contract snapshot. -/
def eth1Block (d : Eth1Data) : Block where
  first := ⟨.ofText "deposit_root" (by decide), rootLeaf d.depositRoot⟩
  others :=
    [⟨.ofText "deposit_count" (by decide), wordLeaf d.depositCount⟩,
     ⟨.ofText "block_hash" (by decide), rootLeaf d.blockHash⟩]

/-- A root as an item of a list. -/
def rootItem (r : Root) : Item := .leaf (rootLeaf r)

/-- A word as an item of a list. -/
def wordItem (n : UInt64) : Item := .leaf (wordLeaf n)

/-- A summary as an item of a list. -/
def summaryItem (s : HistoricalSummary) : Item := .block (summaryBlock s)

/-- A deposit contract snapshot as an item of a list. -/
def eth1Item (d : Eth1Data) : Item := .block (eth1Block d)

/-- A list of printed items. -/
def listOf {α : Type} (item : α → Item) (xs : Array α) : Content := .list (xs.toList.map item)

/-- The page of a state. -/
def statePage (s : BeaconState) : Page where
  first := ⟨.ofText "fork" (by decide), .leaf ⟨.ofFork s.fork, false⟩⟩
  others :=
    [⟨.ofText "slot" (by decide), .leaf (wordLeaf s.slot)⟩,
     ⟨.ofText "block_roots" (by decide), listOf rootItem s.blockRoots⟩,
     ⟨.ofText "state_roots" (by decide), listOf rootItem s.stateRoots⟩,
     ⟨.ofText "historical_roots" (by decide), listOf rootItem s.historicalRoots⟩,
     ⟨.ofText "historical_summaries" (by decide), listOf summaryItem s.historicalSummaries⟩,
     ⟨.ofText "eth1_data" (by decide), .block (eth1Block s.eth1Data)⟩,
     ⟨.ofText "eth1_data_votes" (by decide), listOf eth1Item s.eth1DataVotes⟩,
     ⟨.ofText "randao_mixes" (by decide), listOf rootItem s.randaoMixes⟩,
     ⟨.ofText "slashings" (by decide), listOf wordItem s.slashings⟩]

@[simp] theorem chars_rootLeaf (r : Root) : (rootLeaf r).chars = r.yaml.toList := by
  simp [rootLeaf, Leaf.chars, SafeText.ofRoot, Root.yaml]

@[simp] theorem chars_wordLeaf (n : UInt64) : (wordLeaf n).chars = (Decimal.text n).toList := rfl

@[simp] theorem chars_ofText (text : String) (h : SafeText.check text = true) :
    Leaf.chars ⟨.ofText text h, false⟩ = text.toList := rfl

@[simp] theorem chars_ofFork (fork : Fork) :
    Leaf.chars ⟨.ofFork fork, false⟩ = fork.label.toList := rfl

/-- A list is printed as its items are. -/
theorem toList_yamlList {α : Type} (name : String) (hname : SafeText.check name = true)
    {item : α → String} {form : α → Item} (h : ∀ x, (item x).toList = (form x).chars)
    (xs : Array α) : (BeaconState.yamlList name item xs).toList =
      Member.chars ⟨.ofText name hname, listOf form xs⟩ := by
  obtain ⟨xs⟩ := xs
  cases xs with
  | nil => simp [BeaconState.yamlList, listOf, Member.chars, Member.key, Content.chars]
  | cons x xs =>
    simp [BeaconState.yamlList, listOf, Member.chars, Member.key, Content.chars, h,
      List.flatMap_map]

theorem toList_summary (s : HistoricalSummary) :
    (s.yaml "- " "  ").toList = '-' :: ' ' :: (summaryBlock s).chars := by
  simp [HistoricalSummary.yaml, summaryBlock, Block.chars, Row.chars, Row.key, Block.otherChars]

theorem toList_eth1 (d : Eth1Data) (first : String) :
    (d.yaml first "  ").toList = first.toList ++ (eth1Block d).chars := by
  simp [Eth1Data.yaml, eth1Block, Block.chars, Row.chars, Row.key, Block.otherChars]

/-- **The text of a state is that of its page.** -/
theorem toList_state (s : BeaconState) : s.yaml.toList = (statePage s).chars := by
  have hroot : ∀ r : Root, (BeaconState.yamlItem r.yaml).toList =
      (rootItem r).chars := by
    intro r
    simp [BeaconState.yamlItem, rootItem, Item.chars]
  have hword : ∀ n, (BeaconState.yamlItem (Decimal.text n)).toList =
      (wordItem n).chars := by
    intro n
    simp [BeaconState.yamlItem, wordItem, Item.chars]
  have hsummary : ∀ x : HistoricalSummary, (x.yaml "- " "  ").toList =
      (summaryItem x).chars := toList_summary
  have hvote : ∀ d : Eth1Data, (d.yaml "- " "  ").toList = (eth1Item d).chars :=
    fun d => toList_eth1 d "- "
  have hfork : ("fork: " ++ s.fork.label ++ "\n").toList =
      Member.chars ⟨.ofText "fork" (by decide), .leaf ⟨.ofFork s.fork, false⟩⟩ := by
    simp [Member.chars, Member.key, Content.chars]
  have hslot : ("slot: " ++ Decimal.text s.slot ++ "\n").toList =
      Member.chars ⟨.ofText "slot" (by decide), .leaf (wordLeaf s.slot)⟩ := by
    simp [Member.chars, Member.key, Content.chars]
  have heth1 : ("eth1_data:\n" ++ s.eth1Data.yaml "  " "  ").toList =
      Member.chars ⟨.ofText "eth1_data" (by decide), .block (eth1Block s.eth1Data)⟩ := by
    simp [Member.chars, Member.key, Content.chars, toList_eth1]
  unfold BeaconState.yaml
  rw [Page.chars, Page.members, statePage]
  simp only [List.flatMap_cons, List.flatMap_nil, List.append_nil, ← hfork, ← hslot, ← heth1,
    ← toList_yamlList "block_roots" (by decide) hroot s.blockRoots,
    ← toList_yamlList "state_roots" (by decide) hroot s.stateRoots,
    ← toList_yamlList "historical_roots" (by decide) hroot s.historicalRoots,
    ← toList_yamlList "historical_summaries" (by decide) hsummary s.historicalSummaries,
    ← toList_yamlList "eth1_data_votes" (by decide) hvote s.eth1DataVotes,
    ← toList_yamlList "randao_mixes" (by decide) hroot s.randaoMixes,
    ← toList_yamlList "slashings" (by decide) hword s.slashings]
  simp only [String.toList_append, List.append_assoc]

end Yaml

end BeaconReplay
