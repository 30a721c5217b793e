import BeaconReplay.Proofs.Json.RoundTrip
import BeaconReplay.Proofs.Json.Shapes
import BeaconReplay.Proofs.Json.Words

/-!
# Payloads and their quoted integers

A node writes words as strings of decimal digits, and may also write them as numbers. A quoted
integer is read from both forms and from nothing else, wherever it stands in a payload, and it is
written in one way.
-/
namespace BeaconReplay

/-- The names of the fields of genesis parameters. -/
def Genesis.names : List String :=
  ["genesis_time", "genesis_validators_root", "genesis_fork_version"]

/-- The names of the fields of a sync status. -/
def SyncStatus.names : List String := ["head_slot", "sync_distance", "is_syncing", "is_optimistic"]

/-- The names of the fields of a duty. -/
def ProposerDuty.names : List String := ["pubkey", "validator_index", "slot"]

namespace Json

/-! ## Shapes -/

/-- A document that is a word, or a string that spells one. -/
inductive Quotes : Document → UInt64 → Prop
  | number (w : UInt64) : Quotes (.number (some (.integer w.toNat))) w
  | string {s : String} {w : UInt64} (spells : Decimal.Spells s w.toNat) :
      Quotes (.string (some s)) w

/-- A document that spells a fork version. -/
def IsVersion (d : Document) (v : ForkVersion) : Prop :=
  ∃ s, IsText d s ∧ ForkVersion.parse? s = some v

/-- A document that gives the fields of genesis parameters. -/
def IsGenesis (d : Document) (g : Genesis) : Prop :=
  ∃ listed, d.Gives Genesis.names listed ∧
    Given listed "genesis_time" Quotes g.genesisTime ∧
      Given listed "genesis_validators_root" IsRoot g.genesisValidatorsRoot ∧
        Given listed "genesis_fork_version" IsVersion g.genesisForkVersion

/-- A document that gives the fields of a sync status, the last of which may be left out. -/
def IsSyncStatus (d : Document) (s : SyncStatus) : Prop :=
  ∃ listed, d.Gives SyncStatus.names listed ∧
    Given listed "head_slot" Quotes s.headSlot ∧
      Given listed "sync_distance" Quotes s.syncDistance ∧
        Given listed "is_syncing" IsFlag s.isSyncing ∧
          GivenOr listed "is_optimistic" IsFlag false s.isOptimistic

/-- A document that gives the fields of a duty. -/
def IsDuty (d : Document) (p : ProposerDuty) : Prop :=
  ∃ listed, d.Gives ProposerDuty.names listed ∧
    Given listed "pubkey" IsText p.pubkey ∧
      Given listed "validator_index" Quotes p.validatorIndex ∧
        Given listed "slot" Quotes p.slot

theorem decides_quotedWord : Decides source.quotedWord Quotes := by
  intro n w hn
  change n.quotedWord = .ok w ↔ _
  obtain ⟨-, hsized⟩ := hn
  rw [Node.quotedWord]
  generalize n.document = d at hsized
  split
  · next s =>
    have hword : (Decimal.word s).mapError (fun fault => Fault.ofCause (.invalidInteger fault)) =
        .ok w ↔ Decimal.word s = .ok w := by
      cases Decimal.word s <;> simp [Except.mapError]
    rw [hword, Decimal.word_eq_ok_iff]
    constructor
    · exact .string
    · rintro ⟨⟩
      assumption
  · next i =>
    cases hsized with
    | number lt =>
      split_ifs with hpos
      · rw [Result.pure_eq_ok, Except.ok.injEq, toUInt64_eq_iff hpos (lt i rfl)]
        constructor
        · rintro rfl
          exact .number w
        · rintro ⟨⟩
          rfl
      · refine iff_of_false (by simp) fun h => hpos ?_
        cases h
        exact Int.natCast_nonneg _
  · next hstring hinteger =>
    have hother : ¬Quotes d w := by
      rintro ⟨⟩
      · exact hinteger _ rfl
      · exact hstring _ rfl
    split_ifs <;> simp [hother]

theorem decides_forkVersion : Decides source.forkVersion IsVersion := by
  intro n v hn
  rw [Source.forkVersion, Result.bind_eq_ok_iff]
  refine exists_congr fun s => ?_
  rw [decides_text n s hn]
  cases ForkVersion.parse? s <;> simp

theorem decides_genesis : Decides source.genesis IsGenesis := by
  refine decides_record (by simp) (fun n listed e g h he => ?_) fun n listed g h hgiven => ?_
  · simp (disch := simp) only [Result.bind_eq_ok_iff, decides_quotedWord.required_eq_ok_iff h he,
      decides_root.required_eq_ok_iff h he, decides_forkVersion.required_eq_ok_iff h he]
    constructor
    · rintro ⟨a, ha, b, hb, c, hc, hg⟩
      cases hg
      exact ⟨ha, hb, hc⟩
    · rintro ⟨ha, hb, hc⟩
      exact ⟨_, ha, _, hb, _, hc, rfl⟩
  · obtain ⟨htime, hroot, hversion⟩ := hgiven
    simp only [List.forall_mem_cons]
    exact ⟨decides_quotedWord.checks_of_given h (by simp) htime,
      decides_root.checks_of_given h (by simp) hroot,
      decides_forkVersion.checks_of_given h (by simp) hversion, List.forall_mem_nil _⟩

theorem decides_syncStatus : Decides source.syncStatus IsSyncStatus := by
  refine decides_record (by simp) (fun n listed e s h he => ?_) fun n listed s h hgiven => ?_
  · simp (disch := simp) only [Result.bind_eq_ok_iff, decides_quotedWord.required_eq_ok_iff h he,
      decides_flag.required_eq_ok_iff h he, decides_flag.optional_eq_ok_iff h he]
    constructor
    · rintro ⟨a, ha, b, hb, c, hc, d, hd, hs⟩
      cases hs
      exact ⟨ha, hb, hc, hd⟩
    · rintro ⟨ha, hb, hc, hd⟩
      exact ⟨_, ha, _, hb, _, hc, _, hd, rfl⟩
  · obtain ⟨hhead, hdistance, hsyncing, hoptimistic⟩ := hgiven
    simp only [List.forall_mem_cons]
    exact ⟨decides_quotedWord.checks_of_given h (by simp) hhead,
      decides_quotedWord.checks_of_given h (by simp) hdistance,
      decides_flag.checks_of_given h (by simp) hsyncing,
      decides_flag.checks_of_givenOr h (by simp) hoptimistic, List.forall_mem_nil _⟩

theorem decides_duty : Decides source.proposerDuty IsDuty := by
  refine decides_record (by simp) (fun n listed e p h he => ?_) fun n listed p h hgiven => ?_
  · simp (disch := simp) only [Result.bind_eq_ok_iff, decides_quotedWord.required_eq_ok_iff h he,
      decides_text.required_eq_ok_iff h he]
    constructor
    · rintro ⟨a, ha, b, hb, c, hc, hp⟩
      cases hp
      exact ⟨ha, hb, hc⟩
    · rintro ⟨ha, hb, hc⟩
      exact ⟨_, ha, _, hb, _, hc, rfl⟩
  · obtain ⟨hpubkey, hindex, hslot⟩ := hgiven
    simp only [List.forall_mem_cons]
    exact ⟨decides_text.checks_of_given h (by simp) hpubkey,
      decides_quotedWord.checks_of_given h (by simp) hindex,
      decides_quotedWord.checks_of_given h (by simp) hslot, List.forall_mem_nil _⟩

/-! ## Quoted integers -/

/-- A number is read as a quoted integer if its text is the one of a word. -/
theorem decode_numeral_iff {text : String} {num : Numeral} {w : UInt64}
    (h : Numeral.read? text.toList = some (num, [])) :
    decode source.quotedWord text = .ok w ↔ text = Decimal.text w := by
  rw [decode_eq_ok_iff decides_quotedWord, Document.ofString_numeral h,
    ← Numeral.value?_eq_word_iff h]
  constructor
  · rintro ⟨d, hd, hquotes⟩
    cases hd
    generalize num.value? = value at hquotes
    cases hquotes
    rfl
  · intro hvalue
    exact ⟨_, rfl, hvalue ▸ .number w⟩

/-- A string is read as a quoted integer if it spells a word. -/
theorem decode_string_iff {s : String} {w : UInt64} :
    decode source.quotedWord (string s).text = .ok w ↔ Decimal.Spells s w.toNat := by
  rw [decode_eq_ok_iff decides_quotedWord, Document.ofString_string]
  constructor
  · rintro ⟨d, hd, hquotes⟩
    cases hd
    cases hquotes
    assumption
  · intro hspells
    exact ⟨_, rfl, .string hspells⟩

theorem decode_quotedWord (w : UInt64) :
    decode source.quotedWord (Json.quotedWord w).text = .ok w :=
  decode_string_iff.2 (Decimal.eq_text_iff.1 rfl).1

theorem text_quotedWord_injective {m n : UInt64}
    (h : (Json.quotedWord m).text = (Json.quotedWord n).text) : m = n := by
  have hm := decode_quotedWord m
  rw [h, decode_quotedWord n] at hm
  cases hm
  rfl

/-- **Quoted integers.** A quoted integer is read from a word and from a string that spells one, and
from no other document: from the numeral of a word in its one spelling, and from a string of digits
with any number of zeros in front and a plus sign or none. This is so for the times, slots,
distances and indices of all payloads. Each of them is written as the one spelling that has neither
a sign nor a zero in front; it is read back, and two spellings of one word are written alike. -/
theorem quoted_integers :
    (∀ text w, decode source.quotedWord text = .ok w ↔
      ∃ d, Document.ofString text = ⟨d, true⟩ ∧ Quotes d w) ∧
    (∀ text num, Numeral.read? text.toList = some (num, []) →
      ∀ w, decode source.quotedWord text = .ok w ↔ text = Decimal.text w) ∧
    (∀ s w, decode source.quotedWord (string s).text = .ok w ↔ Decimal.Spells s w.toNat) ∧
    (∀ text g, decode source.genesis text = .ok g ↔
      ∃ d, Document.ofString text = ⟨d, true⟩ ∧ IsGenesis d g) ∧
    (∀ text s, decode source.syncStatus text = .ok s ↔
      ∃ d, Document.ofString text = ⟨d, true⟩ ∧ IsSyncStatus d s) ∧
    (∀ text p, decode source.proposerDuty text = .ok p ↔
      ∃ d, Document.ofString text = ⟨d, true⟩ ∧ IsDuty d p) ∧
    (∀ g : Genesis, ("genesis_time", string (Decimal.text g.genesisTime)) ∈ g.members) ∧
    (∀ s : SyncStatus, ("head_slot", string (Decimal.text s.headSlot)) ∈ s.members ∧
      ("sync_distance", string (Decimal.text s.syncDistance)) ∈ s.members) ∧
    (∀ p : ProposerDuty, ("validator_index", string (Decimal.text p.validatorIndex)) ∈ p.members ∧
      ("slot", string (Decimal.text p.slot)) ∈ p.members) ∧
    (∀ s w, s = Decimal.text w ↔ Decimal.Spells s w.toNat ∧ Decimal.Plain s) ∧
    (∀ w, decode source.quotedWord (Json.quotedWord w).text = .ok w) ∧
    (∀ text other m n, decode source.quotedWord text = .ok m →
      decode source.quotedWord other = .ok n →
        ((Json.quotedWord m).text = (Json.quotedWord n).text ↔ m = n)) := by
  refine ⟨fun _ _ => decode_eq_ok_iff decides_quotedWord, fun _ _ h _ => decode_numeral_iff h,
    fun _ _ => decode_string_iff, fun _ _ => decode_eq_ok_iff decides_genesis,
    fun _ _ => decode_eq_ok_iff decides_syncStatus, fun _ _ => decode_eq_ok_iff decides_duty,
    fun g => ?_, fun s => ⟨?_, ?_⟩, fun p => ⟨?_, ?_⟩, fun _ _ => Decimal.eq_text_iff,
    decode_quotedWord, fun _ _ m n _ _ => ⟨text_quotedWord_injective, fun h => h ▸ rfl⟩⟩
  · simp [Genesis.members, Json.quotedWord]
  · simp [SyncStatus.members, Json.quotedWord]
  · simp [SyncStatus.members, Json.quotedWord]
  · simp [ProposerDuty.members, Json.quotedWord]
  · simp [ProposerDuty.members, Json.quotedWord]

/-- The largest word is read from its numeral and from a longer spelling, which are both written as
the string of its numeral; the numeral behind it is not read. -/
theorem quoted_integers_at_limit :
    decode source.quotedWord "18446744073709551615" = .ok 18446744073709551615 ∧
    decode source.quotedWord (string "+0018446744073709551615").text =
      .ok 18446744073709551615 ∧
    (Json.quotedWord 18446744073709551615).text = (string "18446744073709551615").text ∧
    ∀ w, decode source.quotedWord "18446744073709551616" ≠ .ok w := by
  obtain ⟨-, hnumeral, hstring, -, -, -, -, -, -, -, -, hrewritten⟩ := quoted_integers
  have hlargest : "18446744073709551615" = Decimal.text 18446744073709551615 := by decide +kernel
  have hnumber : decode source.quotedWord "18446744073709551615" = .ok 18446744073709551615 :=
    (hnumeral _ ⟨false, "18446744073709551615".toList, none, none⟩ (by decide +kernel) _).2 hlargest
  have hlong : Decimal.Spells "+0018446744073709551615" (18446744073709551615 : UInt64).toNat :=
    Decimal.word_eq_ok_iff.1 (by decide +kernel)
  have hlonger := (hstring _ _).2 hlong
  refine ⟨hnumber, hlonger, ?_, fun w hw => ?_⟩
  · rw [(hrewritten _ _ _ _ hnumber hlonger).2 rfl, Json.quotedWord, hlargest]
  · have hbehind := (hnumeral _ ⟨false, "18446744073709551616".toList, none, none⟩
      (by decide +kernel) w).1 hw
    have hword := Decimal.word_text w
    rw [← hbehind] at hword
    cases hword

end Json

end BeaconReplay
