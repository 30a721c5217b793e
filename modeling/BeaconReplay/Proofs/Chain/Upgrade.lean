import BeaconReplay.Proofs.Chain.Precedence
import BeaconReplay.Proofs.Merkle.Tree

/-!
# The history across Capella

Before Capella the history is a list of batch roots, and from Capella on it is a list of summaries.
On states that differ only in the fork and in the history, the two rules make the same checks with
the same result, and what they append commits to the same data: the batch root is the hash of the
two roots of the summary. Over vectors that are full rows it is also the root of the one vector
that both make up.
-/
namespace BeaconReplay.Upgrade

open Rule

variable {spec : Spec} {s : BeaconState} {halt : Halt ChainError}

/-! ## The checks that are shared -/

/-- Between the fork and the room in the list, the two historical rules make the same checks. -/
def historyChecks (spec : Spec) (s : BeaconState) : List Check :=
  historicalRootsUpdate.lengthChecks spec s ++
    (epochChecks spec s ++ [historicalRootsUpdate.divisorCheck spec])

/-- Checks that pass at either end leave it to those in the middle to decide. -/
theorem firstHalt_middle {first middle last : List Check} (hfirst : firstHalt first = none)
    (hlast : firstHalt last = none) :
    firstHalt (first ++ (middle ++ last)) = firstHalt middle := by
  rw [firstHalt_append, firstHalt_append, hfirst, hlast, Option.none_or, Option.or_none]

theorem firstHalt_roomCheck {list : String} {size : ℕ} (hroom : size < historicalRootsLimit) :
    firstHalt [roomCheck spec s list size] = none := by
  have hpasses : ¬(spec.period ∣ spec.epochOf s.slot + 1 ∧ historicalRootsLimit ≤ size) :=
    fun hfull => Nat.not_le.2 hroom hfull.2
  simp [firstHalt, roomCheck, hpasses]

/-- Before Capella, and with room for a root, the shared checks decide the roots rule. -/
theorem firstHalt_roots (hfork : s.fork.before .capella = true)
    (hroom : s.historicalRoots.size < historicalRootsLimit) :
    firstHalt (historicalRootsUpdate.checks spec s) = firstHalt (historyChecks spec s) := by
  have hsupported : firstHalt (historicalRootsUpdate.forkChecks s) = none := by
    simp [forkChecks, firstHalt, hfork]
  have hchecks : historicalRootsUpdate.checks spec s = historicalRootsUpdate.forkChecks s ++
      (historyChecks spec s ++ historicalRootsUpdate.roomChecks spec s) := rfl
  rw [hchecks]
  exact firstHalt_middle hsupported (firstHalt_roomCheck hroom)

/-- From Capella on, and with room for a summary, they decide the summaries rule. -/
theorem firstHalt_summaries (hfork : s.fork.before .capella = false)
    (hroom : s.historicalSummaries.size < historicalRootsLimit) :
    firstHalt (historicalSummariesUpdate.checks spec s) = firstHalt (historyChecks spec s) := by
  have hsupported : firstHalt (historicalSummariesUpdate.forkChecks s) = none := by
    simp [forkChecks, firstHalt, hfork]
  have hchecks : historicalSummariesUpdate.checks spec s =
      historicalSummariesUpdate.forkChecks s ++
        (historyChecks spec s ++ historicalSummariesUpdate.roomChecks spec s) := rfl
  rw [hchecks]
  exact firstHalt_middle hsupported (firstHalt_roomCheck hroom)

/-- The shared checks end in the refusal of a length, in a crash or in that of the last slot. -/
theorem halt_of_historyChecks (h : firstHalt (historyChecks spec s) = some halt) :
    (∃ field expected found, halt = .refused (.invalidLength field expected found)) ∨
      (∃ crash, halt = .crashed crash) ∨ halt = .refused (.slotOverflow s.slot) := by
  obtain ⟨check, hmem, -, rfl⟩ := exists_check_of_firstHalt h
  rcases List.mem_append.1 hmem with hmem | hmem
  · exact .inl (invalidLength_of_mem_lengthChecks hmem)
  · simp only [epochChecks, List.cons_append, List.nil_append, List.mem_cons, List.not_mem_nil,
      or_false] at hmem
    rcases hmem with rfl | rfl | rfl
    · exact .inr (.inl ⟨_, rfl⟩)
    · exact .inr (.inr rfl)
    · exact .inr (.inl ⟨_, rfl⟩)

/-! ## The entries -/

/-- A batch root hashes the two roots of the summary together. -/
theorem batchRoot_eq (s : BeaconState) :
    batchRoot s = Root.hashPair (summary s).blockSummaryRoot (summary s).stateSummaryRoot := rfl

/-- Over historical vectors that are full rows, a batch root is the root of both in one. -/
theorem batchRoot_eq_root (hvalid : s.validate spec = .ok ()) {k : ℕ}
    (hk : spec.slotsPerHistoricalRoot.toNat = 2 ^ k) :
    batchRoot s = Merkle.root (s.blockRoots.toList ++ s.stateRoots.toList) := by
  obtain ⟨hblocks, hstates, -⟩ := BeaconState.validate_eq_ok_iff.1 hvalid
  have hblocks' : s.blockRoots.toList.length = 2 ^ k := by rw [Array.length_toList, hblocks, hk]
  have hstates' : s.stateRoots.toList.length = 2 ^ k := by rw [Array.length_toList, hstates, hk]
  exact (Merkle.root_append_of_length hblocks' hstates').symm

/-! ## The outcomes -/

/-- How what the roots rule ends in on a state `s` corresponds to what the summaries rule ends in on
a state `t`. -/
inductive Corresponds (spec : Spec) (s t : BeaconState) :
    Step BeaconState → Step BeaconState → Prop
  /-- Both refuse the length of the same vector. -/
  | length (field : String) (expected found : ℕ) : Corresponds spec s t
      (.error (.refused (.invalidLength field expected found)))
      (.error (.refused (.invalidLength field expected found)))
  /-- Both refuse the last slot of all. -/
  | overflow : Corresponds spec s t
      (.error (.refused (.slotOverflow s.slot))) (.error (.refused (.slotOverflow s.slot)))
  | crash (crash : Crash) : Corresponds spec s t (.error (.crashed crash)) (.error (.crashed crash))
  /-- Neither appends. -/
  | kept : Corresponds spec s t (.ok s) (.ok t)
  /-- Both append, and what they append commits to the same data. -/
  | appended (root : Root) (entry : HistoricalSummary) :
      root = Root.hashPair entry.blockSummaryRoot entry.stateSummaryRoot →
      (∀ k, spec.slotsPerHistoricalRoot.toNat = 2 ^ k →
        root = Merkle.root (s.blockRoots.toList ++ s.stateRoots.toList)) →
      Corresponds spec s t
        (.ok { s with historicalRoots := s.historicalRoots.push root })
        (.ok { t with historicalSummaries := t.historicalSummaries.push entry })

/-- A shared check that fails gives both rules the same end. -/
theorem Corresponds.of_historyChecks {t : BeaconState}
    (h : firstHalt (historyChecks spec s) = some halt) :
    Corresponds spec s t (.error halt) (.error halt) := by
  rcases halt_of_historyChecks h with ⟨field, expected, found, rfl⟩ | ⟨crash, rfl⟩ | rfl
  · exact .length field expected found
  · exact .crash crash
  · exact .overflow

/-- **The two historical rules commit to the same data.** On a state before Capella, and on the same
state from Capella on with any history, the roots rule and the summaries rule halt alike or keep
their states alike or append alike: the root is the hash of the two roots of the summary, and for
vectors of a power of two entries it is the root of both vectors in one. -/
theorem history_agrees_across_upgrade (spec : Spec) (s : BeaconState) (fork : Fork)
    (roots : Array Root) (summaries : Array HistoricalSummary)
    (hbefore : s.fork.before .capella = true) (hafter : fork.before .capella = false)
    (hroots : s.historicalRoots.size < historicalRootsLimit)
    (hsummaries : summaries.size < historicalRootsLimit) :
    let t := { s with
      fork := fork, historicalRoots := roots, historicalSummaries := summaries }
    Corresponds spec s t (apply .historicalRootsUpdate spec s)
      (apply .historicalSummariesUpdate spec t) := by
  intro t
  have hs : firstHalt (historicalRootsUpdate.checks spec s) = firstHalt (historyChecks spec s) :=
    firstHalt_roots hbefore hroots
  -- the shared checks look at neither the fork nor the history
  have ht : firstHalt (historicalSummariesUpdate.checks spec t) =
      firstHalt (historyChecks spec s) := firstHalt_summaries (s := t) hafter hsummaries
  cases hhalt : firstHalt (historyChecks spec s) with
  | some halt =>
    rw [apply_of_firstHalt (hs.trans hhalt), apply_of_firstHalt (ht.trans hhalt)]
    exact .of_historyChecks hhalt
  | none =>
    have hrootsOk := apply_of_no_halt (hs.trans hhalt)
    have hsummariesOk := apply_of_no_halt (ht.trans hhalt)
    have hvalid := (apply_eq_ok_iff.1 hrootsOk).1.valid (by decide)
    rw [hrootsOk, hsummariesOk, effect_roots, effect_summaries]
    by_cases hends : spec.period ∣ spec.epochOf s.slot + 1
    · rw [if_pos hends, if_pos hends]
      exact .appended (batchRoot s) (summary t) (batchRoot_eq s) fun k hk =>
        batchRoot_eq_root hvalid hk
    · rw [if_neg hends, if_neg hends]
      exact .kept

/-- At the end of the first period of the small profile, where the vectors have 64 entries, both
rules append. -/
theorem history_agrees_at_first_period :
    let s := { BeaconState.new .minimal .bellatrix with slot := 63 }
    let t := { s with fork := .capella }
    s.fork.before .capella = true ∧ t.fork.before .capella = false ∧
    Spec.minimal.slotsPerHistoricalRoot.toNat = 2 ^ 6 ∧
    apply .historicalRootsUpdate .minimal s = .ok s.appendRoot ∧
    apply .historicalSummariesUpdate .minimal t = .ok t.appendSummary ∧
    Corresponds .minimal s t (.ok s.appendRoot) (.ok t.appendSummary) := by
  intro s t
  have hends : Spec.minimal.period ∣ Spec.minimal.epochOf 63 + 1 := by decide
  have hs : apply .historicalRootsUpdate .minimal s = .ok s.appendRoot :=
    (apply_of_no_halt (by decide +kernel)).trans (congrArg _ (effect_roots.trans (if_pos hends)))
  have ht : apply .historicalSummariesUpdate .minimal t = .ok t.appendSummary :=
    (apply_of_no_halt (by decide +kernel)).trans
      (congrArg _ (effect_summaries.trans (if_pos hends)))
  have h := history_agrees_across_upgrade .minimal s .capella #[] #[] rfl rfl (by decide)
    (by decide)
  exact ⟨rfl, rfl, rfl, hs, ht, hs ▸ ht ▸ h⟩

end BeaconReplay.Upgrade
