import BeaconReplay.Proofs.Chain.Outcome

/-!
# Historical accumulation over runs of epochs

In each epoch the environment may rewrite the two historical vectors, upgrade the fork and move
the slot inside the epoch; then both historical rules are tried, in either order. One step lemma
says what trying them does, and the run lemmas below follow from it by induction: each period
leaves exactly one entry, in the list of the fork at its last epoch.
-/
namespace BeaconReplay

namespace Spec

/-- Whether a historical period ends with an epoch: the first slot behind the epoch is a multiple
of the length of the historical vectors. -/
def endsPeriod (spec : Spec) (e : Nat) : Prop :=
  spec.slotsPerHistoricalRoot.toNat ∣ (e + 1) * spec.slotsPerEpoch.toNat

instance (spec : Spec) (e : Nat) : Decidable (spec.endsPeriod e) := by
  unfold endsPeriod; infer_instance

/-- Where periods are whole epochs, they are counted in epochs. -/
theorem endsPeriod_iff {spec : Spec} (hE : 0 < spec.slotsPerEpoch.toNat)
    (hdvd : spec.slotsPerEpoch.toNat ∣ spec.slotsPerHistoricalRoot.toNat) (e : Nat) :
    spec.endsPeriod e ↔ spec.period ∣ e + 1 := by
  have hR : spec.period * spec.slotsPerEpoch.toNat = spec.slotsPerHistoricalRoot.toNat :=
    Nat.div_mul_cancel hdvd
  rw [endsPeriod, ← hR]
  exact Nat.mul_dvd_mul_iff_right hE

end Spec

namespace Accumulation

/-- What the environment may do in the epoch `e` in front of the rules. -/
structure Opens (spec : Spec) (e : Nat) (before opened : BeaconState) : Prop where
  epoch_eq : spec.epochOf opened.slot = e
  fork_le : before.fork.position ≤ opened.fork.position
  size_blockRoots : opened.blockRoots.size = before.blockRoots.size
  size_stateRoots : opened.stateRoots.size = before.stateRoots.size
  /-- Nothing else changes. -/
  frame : opened = { before with
    fork := opened.fork
    slot := opened.slot
    blockRoots := opened.blockRoots
    stateRoots := opened.stateRoots }

/-- Try both historical rules, in one order or in the other. -/
def close (rootsFirst : Bool) (spec : Spec) (s : BeaconState) : BeaconState :=
  if rootsFirst then
    Rule.attempt .historicalSummariesUpdate spec (Rule.attempt .historicalRootsUpdate spec s)
  else Rule.attempt .historicalRootsUpdate spec (Rule.attempt .historicalSummariesUpdate spec s)

/-- One epoch of a run: the state that its rules find, and the state that they leave. -/
structure Epoch where
  opened : BeaconState
  closed : BeaconState

/-- The runs over consecutive epochs, of which the first one has the number `first`. -/
inductive Run (spec : Spec) (first : Nat) (start : BeaconState) : List Epoch → BeaconState → Prop
  | start : Run spec first start [] start
  | epoch {epochs : List Epoch} {before opened : BeaconState} (rootsFirst : Bool) :
    Run spec first start epochs before →
    Opens spec (first + epochs.length) before opened →
    Run spec first start (epochs ++ [⟨opened, close rootsFirst spec opened⟩])
      (close rootsFirst spec opened)

/-- The roots of the batches at the ends of periods before Capella, in the order of the epochs. -/
def roots (spec : Spec) (first : Nat) (epochs : List Epoch) : List Root :=
  ((epochs.zipIdx first).filter fun p =>
    decide (spec.endsPeriod p.2) && p.1.opened.fork.before .capella).map
      fun p => Rule.batchRoot p.1.opened

/-- The summaries at the ends of periods from Capella on, in the order of the epochs. -/
def summaries (spec : Spec) (first : Nat) (epochs : List Epoch) : List HistoricalSummary :=
  ((epochs.zipIdx first).filter fun p =>
    decide (spec.endsPeriod p.2) && !p.1.opened.fork.before .capella).map
      fun p => Rule.summary p.1.opened

/-- Both lists of a state have room for an entry. -/
def HasRoom (s : BeaconState) : Prop :=
  s.historicalRoots.size < historicalRootsLimit ∧ s.historicalSummaries.size < historicalRootsLimit

variable {spec : Spec} {first : Nat} {start final s : BeaconState} {epochs : List Epoch}

/-! ## One epoch -/

/-- From Capella on, trying the roots rule does nothing. -/
theorem attempt_roots_of_capella (hfork : s.fork.before .capella = false) :
    Rule.attempt .historicalRootsUpdate spec s = s :=
  Rule.attempt_of_error (Rule.updateRoots_unsupported hfork)

/-- Before Capella, trying the summaries rule does nothing. -/
theorem attempt_summaries_of_before (hfork : s.fork.before .capella = true) :
    Rule.attempt .historicalSummariesUpdate spec s = s :=
  Rule.attempt_of_error (Rule.updateSummaries_unsupported hfork)

theorem attempt_roots_eq (hE : 0 < spec.slotsPerEpoch.toNat) (hP : 0 < spec.period)
    (hfork : s.fork.before .capella = true) (hvalid : s.validate spec = .ok ())
    (hnext : spec.epochOf s.slot + 1 < UInt64.size)
    (hroom : s.historicalRoots.size < historicalRootsLimit) :
    Rule.attempt .historicalRootsUpdate spec s =
      if spec.period ∣ spec.epochOf s.slot + 1 then s.appendRoot else s := by
  apply Rule.attempt_of_ok
  exact (Rule.updateRoots_eq_of_valid hfork hvalid).trans
    (Rule.appending_eq_ok hE hP hnext hroom)

theorem attempt_summaries_eq (hE : 0 < spec.slotsPerEpoch.toNat) (hP : 0 < spec.period)
    (hfork : s.fork.before .capella = false) (hvalid : s.validate spec = .ok ())
    (hnext : spec.epochOf s.slot + 1 < UInt64.size)
    (hroom : s.historicalSummaries.size < historicalRootsLimit) :
    Rule.attempt .historicalSummariesUpdate spec s =
      if spec.period ∣ spec.epochOf s.slot + 1 then s.appendSummary else s := by
  apply Rule.attempt_of_ok
  exact (Rule.updateSummaries_eq_of_valid hfork hvalid).trans
    (Rule.appending_eq_ok hE hP hnext hroom)

/-- **Closing an epoch appends the entry of the fork if a period ends, and does nothing else.**
The order of the two rules has no effect, since one of them refuses the fork. -/
theorem close_eq (hE : 0 < spec.slotsPerEpoch.toNat) (hP : 0 < spec.period)
    (hvalid : s.validate spec = .ok ()) (hnext : spec.epochOf s.slot + 1 < UInt64.size)
    (hroom : HasRoom s) (rootsFirst : Bool) :
    close rootsFirst spec s =
      if spec.period ∣ spec.epochOf s.slot + 1 then s.appendEntry else s := by
  cases hfork : s.fork.before .capella
  · have hsum := attempt_summaries_eq hE hP hfork hvalid hnext hroom.2
    have hkeep : (Rule.attempt .historicalSummariesUpdate spec s).fork = s.fork := by
      rw [hsum]; split <;> rfl
    have hroots : Rule.attempt .historicalRootsUpdate spec
        (Rule.attempt .historicalSummariesUpdate spec s) = _ :=
      attempt_roots_of_capella (hkeep ▸ hfork)
    rw [hsum] at hroots
    cases rootsFirst <;>
      simp [close, hroots, attempt_roots_of_capella hfork, hsum, BeaconState.appendEntry, hfork]
  · have hroots := attempt_roots_eq hE hP hfork hvalid hnext hroom.1
    have hkeep : (Rule.attempt .historicalRootsUpdate spec s).fork = s.fork := by
      rw [hroots]; split <;> rfl
    have hsum : Rule.attempt .historicalSummariesUpdate spec
        (Rule.attempt .historicalRootsUpdate spec s) = _ :=
      attempt_summaries_of_before (hkeep ▸ hfork)
    rw [hroots] at hsum
    cases rootsFirst <;>
      simp [close, hsum, attempt_summaries_of_before hfork, hroots, BeaconState.appendEntry, hfork]

/-- Opening an epoch keeps a state valid. -/
theorem Opens.validate_eq {e : Nat} {before opened : BeaconState}
    (h : Opens spec e before opened) : opened.validate spec = before.validate spec := by
  have hmixes : opened.randaoMixes = before.randaoMixes := by rw [h.frame]
  have hslash : opened.slashings = before.slashings := by rw [h.frame]
  exact BeaconState.validate_congr h.size_blockRoots h.size_stateRoots (by rw [hmixes])
    (by rw [hslash])

/-! ## Whole runs -/

theorem zipIdx_snoc (ep : Epoch) :
    (epochs ++ [ep]).zipIdx first = epochs.zipIdx first ++ [(ep, first + epochs.length)] := by
  simp [List.zipIdx_append]

theorem roots_snoc (ep : Epoch) : roots spec first (epochs ++ [ep]) = roots spec first epochs ++
    if spec.endsPeriod (first + epochs.length) then
      if ep.opened.fork.before .capella then [Rule.batchRoot ep.opened] else []
    else [] := by
  rw [roots, zipIdx_snoc, List.filter_append, List.map_append, ← roots]
  by_cases hp : spec.endsPeriod (first + epochs.length) <;>
    cases hf : ep.opened.fork.before .capella <;> simp [hp, hf]

theorem summaries_snoc (ep : Epoch) :
    summaries spec first (epochs ++ [ep]) = summaries spec first epochs ++
      if spec.endsPeriod (first + epochs.length) then
        if ep.opened.fork.before .capella then [] else [Rule.summary ep.opened]
      else [] := by
  rw [summaries, zipIdx_snoc, List.filter_append, List.map_append, ← summaries]
  by_cases hp : spec.endsPeriod (first + epochs.length) <;>
    cases hf : ep.opened.fork.before .capella <;> simp [hp, hf]

/-- The number of entries in both lists. -/
def entries (s : BeaconState) : Nat := s.historicalRoots.size + s.historicalSummaries.size

theorem entries_appendEntry : entries s.appendEntry = entries s + 1 := by
  have hroots := congrArg List.length (BeaconState.historicalRoots_appendEntry (s := s))
  have hsummaries := congrArg List.length (BeaconState.historicalSummaries_appendEntry (s := s))
  cases hf : s.fork.before .capella <;> simp [hf] at hroots hsummaries <;>
    simp only [entries] <;> omega

/-- **The invariant of runs**: the state is still valid, every epoch has left what its rules leave,
and the lists have grown by the entries of the epochs, one for each period that ended. -/
structure Collected (spec : Spec) (first : Nat) (start : BeaconState) (epochs : List Epoch)
    (final : BeaconState) : Prop where
  valid : final.validate spec = .ok ()
  closed_eq : ∀ ep ∈ epochs.zipIdx first, ep.1.closed =
    if spec.endsPeriod ep.2 then ep.1.opened.appendEntry else ep.1.opened
  roots_eq : final.historicalRoots.toList =
    start.historicalRoots.toList ++ roots spec first epochs
  summaries_eq : final.historicalSummaries.toList =
    start.historicalSummaries.toList ++ summaries spec first epochs
  entries_eq : entries final + first / spec.period =
    entries start + (first + epochs.length) / spec.period

/-- In front of the first epoch nothing has been collected. -/
theorem Collected.nil (hvalid : start.validate spec = .ok ()) :
    Collected spec first start [] start where
  valid := hvalid
  closed_eq := by simp
  roots_eq := by simp [roots]
  summaries_eq := by simp [summaries]
  entries_eq := rfl

/-- One more epoch keeps the invariant. -/
theorem Collected.epoch (hE : 0 < spec.slotsPerEpoch.toNat) (hP : 0 < spec.period)
    (hdvd : spec.slotsPerEpoch.toNat ∣ spec.slotsPerHistoricalRoot.toNat)
    {before opened : BeaconState} (h : Collected spec first start epochs before)
    (hopens : Opens spec (first + epochs.length) before opened) (hroom : HasRoom opened)
    (hlast : first + epochs.length + 1 < UInt64.size) (rootsFirst : Bool) :
    Collected spec first start (epochs ++ [⟨opened, close rootsFirst spec opened⟩])
      (close rootsFirst spec opened) := by
  have hopened : opened.validate spec = .ok () := hopens.validate_eq.trans h.valid
  have hclose := close_eq hE hP hopened (by rw [hopens.epoch_eq]; exact hlast) hroom rootsFirst
  rw [hopens.epoch_eq] at hclose
  have hends := Spec.endsPeriod_iff hE hdvd (first + epochs.length)
  have hkeepRoots : opened.historicalRoots = before.historicalRoots := by rw [hopens.frame]
  have hkeepSummaries : opened.historicalSummaries = before.historicalSummaries := by
    rw [hopens.frame]
  have hroots := h.roots_eq
  have hsummaries := h.summaries_eq
  have hentries := h.entries_eq
  rw [← hkeepRoots] at hroots
  rw [← hkeepSummaries] at hsummaries
  have hkeep : entries before = entries opened := by
    rw [entries, entries, hkeepRoots, hkeepSummaries]
  rw [hkeep] at hentries
  have hcount : (first + epochs.length + 1) / spec.period = (first + epochs.length) / spec.period +
      if spec.period ∣ first + epochs.length + 1 then 1 else 0 := Nat.succ_div
  refine ⟨?_, ?_, ?_, ?_, ?_⟩
  · rw [hclose]
    split <;> simp [hopened]
  · intro ep hep
    rw [zipIdx_snoc, List.mem_append, List.mem_singleton] at hep
    rcases hep with hep | rfl
    · exact h.closed_eq ep hep
    · simpa only [hends] using hclose
  · rw [roots_snoc, ← List.append_assoc, ← hroots, hclose]
    by_cases hp : spec.period ∣ first + epochs.length + 1
    · simp [hp, hends, BeaconState.historicalRoots_appendEntry]
    · simp [hp, hends]
  · rw [summaries_snoc, ← List.append_assoc, ← hsummaries, hclose]
    by_cases hp : spec.period ∣ first + epochs.length + 1
    · simp [hp, hends, BeaconState.historicalSummaries_appendEntry]
    · simp [hp, hends]
  · rw [List.length_append, List.length_singleton, ← Nat.add_assoc, hcount, hclose]
    by_cases hp : spec.period ∣ first + epochs.length + 1
    · rw [if_pos hp, if_pos hp, entries_appendEntry]
      omega
    · rw [if_neg hp, if_neg hp]
      omega

/-- Every run collects. -/
theorem Run.collected (hE : 0 < spec.slotsPerEpoch.toNat) (hP : 0 < spec.period)
    (hdvd : spec.slotsPerEpoch.toNat ∣ spec.slotsPerHistoricalRoot.toNat)
    (hvalid : start.validate spec = .ok ()) (hrun : Run spec first start epochs final)
    (hlast : first + epochs.length < UInt64.size) (hroom : ∀ ep ∈ epochs, HasRoom ep.opened) :
    Collected spec first start epochs final := by
  induction hrun with
  | start => exact .nil hvalid
  | @epoch epochs before opened rootsFirst hrun hopens ih =>
    simp only [List.length_append, List.length_singleton] at hlast
    have hcollected := ih (by omega) fun ep hep => hroom ep (by simp [hep])
    exact hcollected.epoch hE hP hdvd hopens
      (hroom _ (List.mem_append_right _ (List.mem_singleton_self _))) hlast rootsFirst

/-- **Each period that ends during a run leaves exactly one entry, also across the upgrade.** The
entry stands for the two historical vectors as the rules find them; before Capella it is the root
of the batch, and from Capella on the summary. Nothing else is changed by the rules. -/
theorem run_appends_one_entry_per_period (hE : 0 < spec.slotsPerEpoch.toNat)
    (hR : 0 < spec.slotsPerHistoricalRoot.toNat)
    (hdvd : spec.slotsPerEpoch.toNat ∣ spec.slotsPerHistoricalRoot.toNat)
    (hvalid : start.validate spec = .ok ()) (hrun : Run spec first start epochs final)
    (hlast : first + epochs.length < UInt64.size) (hroom : ∀ ep ∈ epochs, HasRoom ep.opened) :
    (∀ i (hi : i < epochs.length), epochs[i].closed =
      let s := epochs[i].opened
      let block := Merkle.root s.blockRoots.toList
      let state := Merkle.root s.stateRoots.toList
      if spec.slotsPerHistoricalRoot.toNat ∣ (first + i + 1) * spec.slotsPerEpoch.toNat then
        if s.fork.before .capella then
          { s with historicalRoots := s.historicalRoots.push (Root.hashPair block state) }
        else { s with historicalSummaries := s.historicalSummaries.push ⟨block, state⟩ }
      else s) ∧
    final.historicalRoots.toList = start.historicalRoots.toList ++ roots spec first epochs ∧
    final.historicalSummaries.toList =
      start.historicalSummaries.toList ++ summaries spec first epochs ∧
    entries final =
      entries start + ((first + epochs.length) / spec.period - first / spec.period) := by
  have hP : 0 < spec.period := Spec.period_pos hE (Nat.le_of_dvd hR hdvd)
  have h := hrun.collected hE hP hdvd hvalid hlast hroom
  refine ⟨?_, h.roots_eq, h.summaries_eq, ?_⟩
  · intro i hi
    have hmem : (epochs[i], first + i) ∈ epochs.zipIdx first :=
      List.mem_zipIdx_iff_le_and_getElem?_sub.2 ⟨by omega, by simp [hi]⟩
    exact h.closed_eq _ hmem
  · have hmono : first / spec.period ≤ (first + epochs.length) / spec.period :=
      Nat.div_le_div_right (Nat.le_add_right _ _)
    have hentries := h.entries_eq
    omega

/-- A profile whose epochs have one slot and whose periods have two epochs. -/
def twoSlots : Spec := ⟨"two slots", 1, 2, 1, 1, 1⟩

/-- Three epochs with the upgrade to Capella in the middle one, where no period ends. -/
theorem run_across_upgrade : ∃ epochs final,
    Run twoSlots 1 (BeaconState.new twoSlots .bellatrix) epochs final ∧
      epochs.length = 3 ∧ entries final = 2 := by
  let start := BeaconState.new twoSlots .bellatrix
  let opened₁ := { start with slot := 1 }
  let closed₁ := close true twoSlots opened₁
  let opened₂ := { closed₁ with slot := 2, fork := .capella }
  let closed₂ := close false twoSlots opened₂
  let opened₃ := { closed₂ with slot := 3, stateRoots := closed₂.blockRoots }
  have h₁ : Opens twoSlots 1 start opened₁ := ⟨by decide +kernel, le_rfl, rfl, rfl, rfl⟩
  have h₂ : Opens twoSlots 2 closed₁ opened₂ :=
    ⟨by decide +kernel, by decide +kernel, rfl, rfl, rfl⟩
  have h₃ : Opens twoSlots 3 closed₂ opened₃ :=
    ⟨by decide +kernel, le_rfl, rfl, by decide +kernel, rfl⟩
  have hrun := ((Run.start.epoch true h₁).epoch false h₂).epoch true h₃
  have hroom : HasRoom opened₁ ∧ HasRoom opened₂ ∧ HasRoom opened₃ := by
    unfold HasRoom
    decide +kernel
  have h := run_appends_one_entry_per_period (by decide) (by decide) (by decide) rfl hrun
    (by decide) (by simpa using hroom)
  exact ⟨_, _, hrun, rfl, h.2.2.2.trans (by decide +kernel)⟩

end Accumulation

end BeaconReplay
