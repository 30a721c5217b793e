import BeaconReplay.Proofs.Chain.Epochs

/-!
# The votes of a voting period

In each epoch of a run the environment casts votes; then the votes are dropped if the next epoch
starts a new voting period. So the list holds the votes of the current period and no others, and
where the votes of an epoch are bounded so is the list.
-/
namespace BeaconReplay.Votes

open Epochs (Epoch play points)

/-- In an epoch the environment appends votes. -/
def castVotes (_ : ℕ) (votes : List Eth1Data) (s : BeaconState) : BeaconState :=
  { s with eth1DataVotes := s.eth1DataVotes ++ votes.toArray }

/-- The runs whose epochs are closed by dropping the votes of a period that ends. -/
abbrev Run (spec : Spec) (first : ℕ) (start : BeaconState) :
    List (Epoch (List Eth1Data)) → BeaconState → Prop :=
  Epochs.Run .eth1DataReset castVotes spec first start

/-- The votes of the epochs that are in one voting period with the epoch `e`, in their order. -/
def ofPeriod (spec : Spec) (e : ℕ) (epochs : List (Epoch (List Eth1Data))) : List Eth1Data :=
  (epochs.filter fun ep => ep.number / spec.epochsPerEth1VotingPeriod.toNat =
    e / spec.epochsPerEth1VotingPeriod.toNat).flatMap Epoch.input

variable {spec : Spec} {first : ℕ} {start final : BeaconState}
variable {epochs : List (Epoch (List Eth1Data))}

/-! ## Periods -/

/-- Inside a period, the place of an epoch in it goes up by one. -/
theorem succ_mod_of_not_dvd {m V : ℕ} (hV : 0 < V) (h : ¬V ∣ m + 1) : (m + 1) % V = m % V + 1 := by
  have hlt : m % V < V := Nat.mod_lt m hV
  have hne : m % V + 1 ≠ V := by
    intro heq
    refine h (Nat.dvd_of_mod_eq_zero ?_)
    rw [← Nat.mod_add_mod, heq, Nat.mod_self]
  rw [← Nat.mod_add_mod, Nat.mod_eq_of_lt (by omega)]

theorem ofPeriod_snoc (e : ℕ) (ep : Epoch (List Eth1Data)) :
    ofPeriod spec e (epochs ++ [ep]) = ofPeriod spec e epochs ++
      if ep.number / spec.epochsPerEth1VotingPeriod.toNat =
        e / spec.epochsPerEth1VotingPeriod.toNat then ep.input else [] := by
  rw [ofPeriod, List.filter_append, List.flatMap_append, ← ofPeriod]
  split <;> simp_all

/-- Epochs of one period have the same votes behind them. -/
theorem ofPeriod_congr {e e' : ℕ} (h : e / spec.epochsPerEth1VotingPeriod.toNat =
      e' / spec.epochsPerEth1VotingPeriod.toNat) :
    ofPeriod spec e epochs = ofPeriod spec e' epochs := by
  simp only [ofPeriod, h]

/-- A period that starts with an epoch has no votes yet. -/
theorem ofPeriod_of_starts {m : ℕ} (hstarts : spec.epochsPerEth1VotingPeriod.toNat ∣ m + 1)
    (hbound : ∀ ep ∈ epochs, ep.number ≤ m) : ofPeriod spec (m + 1) epochs = [] := by
  rw [ofPeriod, List.filter_eq_nil_iff.2, List.flatMap_nil]
  intro ep hep hsame
  have hle := Nat.div_le_div_right (c := spec.epochsPerEth1VotingPeriod.toNat) (hbound ep hep)
  rw [decide_eq_true_iff] at hsame
  rw [hsame, Nat.succ_div, if_pos hstarts] at hle
  omega

/-! ## One epoch -/

/-- The rule does not halt, and drops the votes exactly at the end of a period. -/
theorem closed_eq (hV : 0 < spec.epochsPerEth1VotingPeriod.toNat) {slot : UInt64}
    (hnext : spec.HasNext slot) {e : ℕ} (hslot : spec.epochOf slot = e) (votes : List Eth1Data)
    (before : BeaconState) :
    let ep := play .eth1DataReset castVotes spec e votes slot before
    Rule.apply .eth1DataReset spec ep.opened = .ok ep.closed ∧
      ep.closed.eth1Data = ep.opened.eth1Data ∧
      ep.closed.eth1DataVotes =
        if spec.epochsPerEth1VotingPeriod.toNat ∣ e + 1 then #[] else ep.opened.eth1DataVotes := by
  intro ep
  have hready : Rule.Ready .eth1DataReset spec ep.opened :=
    ⟨rfl, fun hne => absurd rfl hne, hnext, hV, not_false⟩
  obtain ⟨happly, hclosed⟩ := Epochs.closed_play hready
  refine ⟨happly, ?_, ?_⟩
  · rw [hclosed, Rule.eth1Data_effect]
  · rw [hclosed, Rule.eth1DataVotes_effect, show spec.epochOf ep.opened.slot = e from hslot]

/-- **The invariant of runs**: the rule has never halted, the votes are those of the current period,
and the snapshot that is voted on has been left alone. -/
structure Tallied (spec : Spec) (first : ℕ) (start : BeaconState)
    (epochs : List (Epoch (List Eth1Data))) (final : BeaconState) : Prop where
  applied : ∀ ep ∈ epochs, Rule.apply .eth1DataReset spec ep.opened = .ok ep.closed
  votes_eq : final.eth1DataVotes.toList = ofPeriod spec (first + epochs.length) epochs
  eth1Data_eq : ∀ s ∈ points start epochs, s.eth1Data = start.eth1Data

/-- In front of the first epoch there are no votes. -/
theorem Tallied.nil (hempty : start.eth1DataVotes = #[]) : Tallied spec first start [] start where
  applied := by simp
  votes_eq := by simp [hempty, ofPeriod]
  eth1Data_eq := by simp [points]

/-- One more epoch keeps the invariant. -/
theorem Tallied.epoch (hV : 0 < spec.epochsPerEth1VotingPeriod.toNat) {before : BeaconState}
    (votes : List Eth1Data) {slot : UInt64} (hrun : Run spec first start epochs before)
    (hnext : spec.HasNext slot) (hslot : spec.epochOf slot = first + epochs.length)
    (h : Tallied spec first start epochs before) :
    let ep := play .eth1DataReset castVotes spec (first + epochs.length) votes slot before
    Tallied spec first start (epochs ++ [ep]) ep.closed := by
  intro ep
  obtain ⟨happly, hdata, hclosed⟩ := closed_eq hV hnext hslot votes before
  have hnumber : ep.number = first + epochs.length := rfl
  have hopened : ep.opened.eth1DataVotes.toList =
      ofPeriod spec (first + epochs.length) (epochs ++ [ep]) := by
    rw [ofPeriod_snoc, hnumber, if_pos rfl, ← h.votes_eq]
    simp [ep, play, castVotes]
  have hbefore : ep.opened.eth1Data = start.eth1Data := h.eth1Data_eq before hrun.final_mem_points
  refine ⟨?_, ?_, ?_⟩
  · exact List.forall_mem_append.2 ⟨h.applied, by simpa using happly⟩
  · rw [List.length_append, List.length_singleton, ← Nat.add_assoc, hclosed]
    by_cases hends : spec.epochsPerEth1VotingPeriod.toNat ∣ first + epochs.length + 1
    · have hbound : ∀ ep' ∈ epochs ++ [ep], ep'.number ≤ first + epochs.length :=
        List.forall_mem_append.2 ⟨fun ep' hep' => (hrun.number_lt ep' hep').le, by simp [ep, play]⟩
      rw [if_pos hends, ofPeriod_of_starts hends hbound]
    · have hsame : (first + epochs.length + 1) / spec.epochsPerEth1VotingPeriod.toNat =
          (first + epochs.length) / spec.epochsPerEth1VotingPeriod.toNat := by
        rw [Nat.succ_div, if_neg hends, Nat.add_zero]
      rw [if_neg hends, ofPeriod_congr hsame]
      exact hopened
  · rw [Epochs.points_snoc]
    refine List.forall_mem_append.2 ⟨h.eth1Data_eq, ?_⟩
    simpa using ⟨hbefore, hdata.trans hbefore⟩

/-! ## Bounded votes -/

/-- The list has at most `E` votes for each epoch of the period so far, and has never had more than
`E` for each epoch of a period. -/
structure Bounded (spec : Spec) (E first : ℕ) (start : BeaconState)
    (epochs : List (Epoch (List Eth1Data))) (final : BeaconState) : Prop where
  size_le : final.eth1DataVotes.size ≤
    (first + epochs.length) % spec.epochsPerEth1VotingPeriod.toNat * E
  points_le : ∀ s ∈ points start epochs,
    s.eth1DataVotes.size ≤ spec.epochsPerEth1VotingPeriod.toNat * E

/-- One more epoch with at most `E` votes keeps the bounds. -/
theorem Bounded.epoch {E : ℕ} (hV : 0 < spec.epochsPerEth1VotingPeriod.toNat)
    {before : BeaconState} {votes : List Eth1Data} (hvotes : votes.length ≤ E) {slot : UInt64}
    (hnext : spec.HasNext slot) (hslot : spec.epochOf slot = first + epochs.length)
    (h : Bounded spec E first start epochs before) :
    let ep := play .eth1DataReset castVotes spec (first + epochs.length) votes slot before
    Bounded spec E first start (epochs ++ [ep]) ep.closed := by
  intro ep
  obtain ⟨-, -, hclosed⟩ := closed_eq hV hnext hslot votes before
  have hplace : (first + epochs.length) % spec.epochsPerEth1VotingPeriod.toNat + 1 ≤
      spec.epochsPerEth1VotingPeriod.toNat := Nat.mod_lt _ hV
  have hopened : ep.opened.eth1DataVotes.size ≤
      ((first + epochs.length) % spec.epochsPerEth1VotingPeriod.toNat + 1) * E := by
    have hsize : ep.opened.eth1DataVotes.size = before.eth1DataVotes.size + votes.length := by
      simp [ep, play, castVotes]
    rw [hsize, Nat.succ_mul]
    exact Nat.add_le_add h.size_le hvotes
  have hperiod := hopened.trans (Nat.mul_le_mul_right E hplace)
  have hshrinks : ep.closed.eth1DataVotes.size ≤ ep.opened.eth1DataVotes.size := by
    rw [hclosed]
    split
    · exact Nat.zero_le _
    · exact le_rfl
  constructor
  · rw [List.length_append, List.length_singleton, ← Nat.add_assoc, hclosed]
    by_cases hends : spec.epochsPerEth1VotingPeriod.toNat ∣ first + epochs.length + 1
    · rw [if_pos hends]
      exact Nat.zero_le _
    · rw [if_neg hends, succ_mod_of_not_dvd hV hends]
      exact hopened
  · rw [Epochs.points_snoc]
    refine List.forall_mem_append.2 ⟨h.points_le, ?_⟩
    simpa using ⟨hperiod, hshrinks.trans hperiod⟩

/-! ## Whole runs -/

/-- Every run tallies. -/
theorem tallied_of_run (hE : 0 < spec.slotsPerEpoch.toNat)
    (hV : 0 < spec.epochsPerEth1VotingPeriod.toNat) (hempty : start.eth1DataVotes = #[])
    (hrun : Run spec first start epochs final) (hlast : first + epochs.length < UInt64.size) :
    Tallied spec first start epochs final :=
  hrun.invariant hE hlast (.nil hempty) fun votes _ hrun hnext hslot h =>
    h.epoch hV votes hrun hnext hslot

/-- A run with bounded votes is bounded. -/
theorem bounded_of_run {E : ℕ} (hE : 0 < spec.slotsPerEpoch.toNat)
    (hV : 0 < spec.epochsPerEth1VotingPeriod.toNat) (hempty : start.eth1DataVotes = #[])
    (hrun : Run spec first start epochs final) (hlast : first + epochs.length < UInt64.size)
    (hvotes : ∀ ep ∈ epochs, ep.input.length ≤ E) : Bounded spec E first start epochs final := by
  revert hvotes
  refine hrun.invariant (I := fun epochs final => (∀ ep ∈ epochs, ep.input.length ≤ E) →
    Bounded spec E first start epochs final) hE hlast ?_ ?_
  · intro _
    exact ⟨by simp [hempty], by simp [points, hempty]⟩
  · intro epochs before votes slot _ hnext hslot ih hvotes
    obtain ⟨hold, hnew⟩ := List.forall_mem_append.1 hvotes
    exact (ih hold).epoch hV (hnew _ (List.mem_singleton_self _)) hnext hslot

/-- **The votes are those of the current voting period.** The rule never halts in a run that starts
without votes. At its end the list holds, in their order, the votes of the epochs that share the
voting period of the next one. Where no epoch has more votes than slots, the list never holds more
votes than a voting period has slots; and the snapshot that is voted on never changes. -/
theorem run_keeps_votes_of_period (hE : 0 < spec.slotsPerEpoch.toNat)
    (hV : 0 < spec.epochsPerEth1VotingPeriod.toNat) (hempty : start.eth1DataVotes = #[])
    (hrun : Run spec first start epochs final) (hlast : first + epochs.length < UInt64.size) :
    let E := spec.slotsPerEpoch.toNat
    let V := spec.epochsPerEth1VotingPeriod.toNat
    (∀ ep ∈ epochs, Rule.apply .eth1DataReset spec ep.opened = .ok ep.closed) ∧
    final.eth1DataVotes.toList =
      (epochs.filter fun ep => ep.number / V = (first + epochs.length) / V).flatMap Epoch.input ∧
    final ∈ points start epochs ∧
    ((∀ ep ∈ epochs, ep.input.length ≤ E) →
      ∀ s ∈ points start epochs, s.eth1DataVotes.size ≤ V * E) ∧
    ∀ s ∈ points start epochs, s.eth1Data = start.eth1Data := by
  intro E V
  have h := tallied_of_run hE hV hempty hrun hlast
  refine ⟨h.applied, h.votes_eq, hrun.final_mem_points, ?_, h.eth1Data_eq⟩
  intro hvotes
  exact (bounded_of_run hE hV hempty hrun hlast hvotes).points_le

/-- A profile whose epochs have one slot and whose voting periods have three epochs. -/
def threeEpochs : Spec := ⟨"three epochs", 1, 1, 3, 1, 1⟩

/-- A vote for a snapshot after a number of deposits. -/
def voteFor (deposits : UInt64) : Eth1Data := ⟨Root.zero, deposits, Root.zero⟩

/-- One vote in each of three epochs, of which the first one ends a voting period: the votes of the
other two are left. -/
theorem run_into_next_period : ∃ epochs final,
    Run threeEpochs 2 (BeaconState.new threeEpochs .altair) epochs final ∧
      epochs.length = 3 ∧ final.eth1DataVotes.toList = [voteFor 8, voteFor 9] ∧
      ∀ s ∈ points (BeaconState.new threeEpochs .altair) epochs, s.eth1DataVotes.size ≤ 3 := by
  have htwo : threeEpochs.epochOf 2 = 2 := by decide
  have hthree : threeEpochs.epochOf 3 = 3 := by decide
  have hfour : threeEpochs.epochOf 4 = 4 := by decide
  have hrun : Run threeEpochs 2 (BeaconState.new threeEpochs .altair) _ _ :=
    ((Epochs.Run.start.epoch [voteFor 7] htwo).epoch [voteFor 8] hthree).epoch [voteFor 9] hfour
  obtain ⟨-, hvotes, -, hbound, -⟩ := run_keeps_votes_of_period (by decide) (by decide) rfl hrun
    (by decide)
  exact ⟨_, _, hrun, rfl, hvotes.trans (by decide), hbound (by simp [play, threeEpochs])⟩

end BeaconReplay.Votes
