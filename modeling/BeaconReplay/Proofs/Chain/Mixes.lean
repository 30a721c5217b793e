import BeaconReplay.Proofs.Chain.Effect
import BeaconReplay.Proofs.Chain.Ring

/-!
# The mixes as a ring of epochs

In each epoch of a run the environment may write to the entry of the epoch and move the slot inside
the epoch; then the mix of the epoch is carried forward to the entry of the next one. The mixes are
a ring of epochs, so those of the epochs in the window stay as their rule has found them.
-/
namespace BeaconReplay

namespace Mixes

/-- A state as the environment may leave it in the epoch `e` in front of the rule: the entry of the
epoch has been written to, any number of times, and the slot has moved. -/
def opening (spec : Spec) (e : ℕ) (writes : List Root) (slot : UInt64) (before : BeaconState) :
    BeaconState :=
  { before with
    slot := slot
    randaoMixes :=
      Ring.overwrite (e % spec.epochsPerHistoricalVector.toNat) writes before.randaoMixes }

/-- What the environment does in the epoch `e`: it opens the state at a slot of the epoch. -/
structure Opens (spec : Spec) (e : ℕ) (writes : List Root) (before opened : BeaconState) :
    Prop where
  epoch_eq : spec.epochOf opened.slot = e
  frame : opened = opening spec e writes opened.slot before

/-- One epoch of a run: what is written, the state that the rule finds, and the one it leaves. -/
structure Epoch where
  writes : List Root
  opened : BeaconState
  closed : BeaconState

/-- The runs over consecutive epochs, of which the first one has the number `first`. -/
inductive Run (spec : Spec) (first : ℕ) (start : BeaconState) : List Epoch → BeaconState → Prop
  | start : Run spec first start [] start
  | epoch {epochs : List Epoch} {before opened : BeaconState} (writes : List Root) :
    Run spec first start epochs before →
    Opens spec (first + epochs.length) writes before opened →
    Run spec first start
      (epochs ++ [⟨writes, opened, Rule.attempt .randaoMixesReset spec opened⟩])
      (Rule.attempt .randaoMixesReset spec opened)

variable {spec : Spec} {first : ℕ} {start final : BeaconState} {epochs : List Epoch}

/-- The mix of the epoch `e` in a state. -/
def mixAt (spec : Spec) (e : ℕ) (s : BeaconState) : Option Root :=
  s.randaoMixes[e % spec.epochsPerHistoricalVector.toNat]?

/-- The turn of the ring in the epoch `e`. -/
def turn (spec : Spec) (e : ℕ) (ep : Epoch) : Ring.Turn Root where
  writes := ep.writes
  value := (mixAt spec e ep.opened).getD Root.zero

/-- The turns of the ring in the epochs of a run. -/
def turns (spec : Spec) (first : ℕ) (epochs : List Epoch) : List (Ring.Turn Root) :=
  epochs.mapIdx fun i ep => turn spec (first + i) ep

@[simp] theorem length_turns : (turns spec first epochs).length = epochs.length := by simp [turns]

theorem getElem_turns {i : ℕ} (hi : i < (turns spec first epochs).length) :
    (turns spec first epochs)[i] =
      turn spec (first + i) (epochs.get ⟨i, by simpa using hi⟩) := by
  simp [turns]

theorem turns_snoc (ep : Epoch) : turns spec first (epochs ++ [ep]) =
    turns spec first epochs ++ [turn spec (first + epochs.length) ep] :=
  List.mapIdx_concat

/-- A valid state has a mix for every epoch. -/
theorem mixAt_eq_some {s : BeaconState} (hL : 0 < spec.epochsPerHistoricalVector.toNat)
    (hvalid : s.validate spec = .ok ()) (e : ℕ) :
    mixAt spec e s = some ((mixAt spec e s).getD Root.zero) := by
  obtain ⟨-, -, hsize, -⟩ := BeaconState.validate_eq_ok_iff.1 hvalid
  have hbound : e % spec.epochsPerHistoricalVector.toNat < s.randaoMixes.size :=
    (Nat.mod_lt e hL).trans_eq hsize.symm
  simp [mixAt, hbound]

/-- The environment may open a state at any slot of the epoch. -/
theorem opens_opening {e : ℕ} {slot : UInt64} (h : spec.epochOf slot = e) (writes : List Root)
    (before : BeaconState) : Opens spec e writes before (opening spec e writes slot before) :=
  ⟨h, rfl⟩

/-- Opening an epoch keeps a state valid. -/
theorem Opens.validate_eq {e : ℕ} {writes : List Root} {before opened : BeaconState}
    (h : Opens spec e writes before opened) : opened.validate spec = before.validate spec := by
  rw [h.frame, opening]
  exact BeaconState.validate_congr rfl rfl (Ring.size_overwrite _ _ _) rfl

theorem Opens.randaoMixes_eq {e : ℕ} {writes : List Root} {before opened : BeaconState}
    (h : Opens spec e writes before opened) : opened.randaoMixes =
      Ring.overwrite (e % spec.epochsPerHistoricalVector.toNat) writes before.randaoMixes := by
  rw [h.frame, opening]

/-- The mix of an epoch is what has been written last. -/
theorem Opens.mixAt_eq {e : ℕ} {writes : List Root} {mix : Root} {before opened : BeaconState}
    (h : Opens spec e (writes ++ [mix]) before opened)
    (hL : 0 < spec.epochsPerHistoricalVector.toNat) (hvalid : before.validate spec = .ok ()) :
    mixAt spec e opened = some mix := by
  obtain ⟨-, -, hsize, -⟩ := BeaconState.validate_eq_ok_iff.1 hvalid
  have hbound : e % spec.epochsPerHistoricalVector.toNat < before.randaoMixes.size :=
    (Nat.mod_lt e hL).trans_eq hsize.symm
  rw [mixAt, h.randaoMixes_eq, Ring.getElem?_overwrite_self hbound]

/-- **The invariant of runs**: the state is still valid, the rule has never halted, and the mixes
are a ring that has taken the turns of the epochs. -/
structure Carried (spec : Spec) (first : ℕ) (start : BeaconState) (epochs : List Epoch)
    (final : BeaconState) : Prop where
  valid : final.validate spec = .ok ()
  opened_valid : ∀ ep ∈ epochs, ep.opened.validate spec = .ok ()
  applied : ∀ ep ∈ epochs, Rule.apply .randaoMixesReset spec ep.opened = .ok ep.closed
  ring : Ring.Kept id first start.randaoMixes (turns spec first epochs) final.randaoMixes

/-- In front of the first epoch nothing has been carried. -/
theorem Carried.nil (hvalid : start.validate spec = .ok ()) :
    Carried spec first start [] start where
  valid := hvalid
  opened_valid := by simp
  applied := by simp
  ring := .nil

/-- One more epoch keeps the invariant. -/
theorem Carried.epoch (hE : 0 < spec.slotsPerEpoch.toNat)
    (hL : 0 < spec.epochsPerHistoricalVector.toNat) (hstart : start.validate spec = .ok ())
    {before opened : BeaconState} {writes : List Root}
    (h : Carried spec first start epochs before)
    (hopens : Opens spec (first + epochs.length) writes before opened)
    (hlast : first + epochs.length + 1 < UInt64.size) :
    Carried spec first start
      (epochs ++ [⟨writes, opened, Rule.attempt .randaoMixesReset spec opened⟩])
      (Rule.attempt .randaoMixesReset spec opened) := by
  have hopened : opened.validate spec = .ok () := hopens.validate_eq.trans h.valid
  have happly := Rule.resetMixes_eq_ok hE hL hopened (by rw [hopens.epoch_eq]; exact hlast)
  rw [hopens.epoch_eq] at happly
  have hattempt : Rule.attempt .randaoMixesReset spec opened = _ := Rule.attempt_of_ok happly
  obtain ⟨-, -, hsize, -⟩ := BeaconState.validate_eq_ok_iff.1 hstart
  refine ⟨?_, ?_, ?_, ?_⟩
  · rw [hattempt, ← hopened]
    exact BeaconState.validate_congr rfl rfl (Array.size_setIfInBounds ..) rfl
  · intro ep hep
    rcases List.mem_append.1 hep with hep | hep
    · exact h.opened_valid ep hep
    · obtain rfl := List.mem_singleton.1 hep
      exact hopened
  · intro ep hep
    rcases List.mem_append.1 hep with hep | hep
    · exact h.applied ep hep
    · obtain rfl := List.mem_singleton.1 hep
      rw [hattempt]
      exact happly
  · -- what the environment and the rule do to the mixes is a turn of the ring
    have hmix := mixAt_eq_some hL hopened (first + epochs.length)
    have hmixes := hopens.randaoMixes_eq
    have hvalue : (Ring.overwrite
        ((first + (turns spec first epochs).length) % start.randaoMixes.size) writes
        before.randaoMixes)[(first + (turns spec first epochs).length) %
          start.randaoMixes.size]? =
        some ((mixAt spec (first + epochs.length) opened).getD Root.zero) := by
      rw [← hmix, length_turns, hsize, mixAt, hmixes]
    have hring := h.ring.turn writes hvalue
    rw [length_turns, hsize, ← hmixes] at hring
    rw [turns_snoc, hattempt]
    simpa [turn, mixAt, Array.getD_eq_getD_getElem?] using hring

/-- Every run carries the mixes. -/
theorem Run.carried (hE : 0 < spec.slotsPerEpoch.toNat)
    (hL : 0 < spec.epochsPerHistoricalVector.toNat) (hvalid : start.validate spec = .ok ())
    (hrun : Run spec first start epochs final) (hlast : first + epochs.length < UInt64.size) :
    Carried spec first start epochs final := by
  induction hrun with
  | start => exact .nil hvalid
  | @epoch epochs before opened writes hrun hopens ih =>
    simp only [List.length_append, List.length_singleton] at hlast
    exact (ih (by omega)).epoch hE hL hvalid hopens hlast

/-- **The mixes are a ring of epochs.** The rule never halts in a run. At its end the entry of the
next epoch holds the mix that the rule has found in the last one, the entry of each epoch in the
window holds the mix that the rule has found there, and an entry that has neither been written to
nor been set is as at the start. -/
theorem run_keeps_mixes_of_window (hE : 0 < spec.slotsPerEpoch.toNat)
    (hL : 0 < spec.epochsPerHistoricalVector.toNat) (hvalid : start.validate spec = .ok ())
    (hrun : Run spec first start epochs final) (hne : epochs ≠ [])
    (hlast : first + epochs.length < UInt64.size) :
    (∀ ep ∈ epochs, Rule.apply .randaoMixesReset spec ep.opened = .ok ep.closed) ∧
    (∃ mix, mixAt spec (first + epochs.length - 1) (epochs.getLast hne).opened = some mix ∧
      mixAt spec (first + epochs.length) final = some mix) ∧
    (∀ i (hi : i < epochs.length),
      epochs.length < i + spec.epochsPerHistoricalVector.toNat →
      ∃ mix, mixAt spec (first + i) epochs[i].opened = some mix ∧
        mixAt spec (first + i) final = some mix) ∧
    ∀ p, (∀ i < epochs.length, (first + i + 1) % spec.epochsPerHistoricalVector.toNat ≠ p) →
      (∀ i (hi : i < epochs.length),
        (first + i) % spec.epochsPerHistoricalVector.toNat = p → epochs[i].writes = []) →
      final.randaoMixes[p]? = start.randaoMixes[p]? := by
  have h := hrun.carried hE hL hvalid hlast
  obtain ⟨-, -, hsize, -⟩ := BeaconState.validate_eq_ok_iff.1 hvalid
  have hring := h.ring
  have hpos : 0 < epochs.length := List.length_pos_iff.2 hne
  refine ⟨h.applied, ?_, ?_, ?_⟩
  · have hopened := h.opened_valid _ (List.getLast_mem hne)
    refine ⟨_, mixAt_eq_some hL hopened _, ?_⟩
    have hfront := hring.front (turn spec (first + epochs.length - 1) (epochs.getLast hne)) (by
      rw [List.getLast?_eq_getElem?, length_turns, turns]
      simp [hpos, List.getLast_eq_getElem, Nat.add_sub_assoc hpos])
    rw [length_turns, hsize] at hfront
    exact hfront
  · intro i hi hwindow
    refine ⟨_, mixAt_eq_some hL (h.opened_valid _ (List.getElem_mem hi)) _, ?_⟩
    have hrecent := hring.recent i (by simpa using hi) (by simpa [hsize] using hwindow)
    rw [hsize, getElem_turns] at hrecent
    exact hrecent
  · intro p hset hwritten
    refine hring.untouched p (fun i hi => ?_) fun i hi hp => ?_
    · rw [hsize]
      exact hset i (by simpa using hi)
    · rw [getElem_turns]
      exact hwritten i (by simpa using hi) (hsize ▸ hp)

/-- A profile whose epochs have one slot and whose states have two mixes. -/
def twoMixes : Spec := ⟨"two mixes", 1, 1, 1, 1, 2⟩

/-- Three epochs in a ring of two: at the end the place of the last epoch and that of the next one
both hold what has been written last. -/
theorem run_around_ring : ∃ epochs final,
    Run twoMixes 5 (BeaconState.new twoMixes .deneb) epochs final ∧ epochs.length = 3 ∧
      mixAt twoMixes 7 final = some (Root.hash [2]) ∧
      mixAt twoMixes 8 final = some (Root.hash [2]) := by
  generalize Root.hash [1] = a, Root.hash [2] = b
  obtain ⟨two, closed, hrun, hlength⟩ : ∃ epochs closed,
      Run twoMixes 5 (.new twoMixes .deneb) epochs closed ∧ epochs.length = 2 := by
    have hfive : twoMixes.epochOf 5 = 5 := by decide
    have hsix : twoMixes.epochOf 6 = 6 := by decide
    exact ⟨_, _, (Run.start.epoch [a] (opens_opening hfive [a] _)).epoch []
      (opens_opening hsix [] _), rfl⟩
  have hseven : twoMixes.epochOf 7 = 5 + two.length := by rw [hlength]; decide
  have hopens := opens_opening hseven ([a] ++ [b]) closed
  have hvalid := (hrun.carried (by decide) (by decide) rfl (by simp [hlength, UInt64.size])).valid
  have hmix := hopens.mixAt_eq (by decide) hvalid
  obtain ⟨-, ⟨next, hnext, hfront⟩, hwindow, -⟩ := run_keeps_mixes_of_window (by decide)
    (by decide) rfl (hrun.epoch _ hopens) (by simp) (by simp [hlength, UInt64.size])
  obtain ⟨last, hfound, hrecent⟩ := hwindow 2 (by simp [hlength]) (by simp [hlength, twoMixes])
  simp only [List.length_append, List.length_singleton, hlength, List.getLast_append_singleton,
    Nat.reduceAdd, Nat.reduceSub] at hmix hnext hfront
  simp only [hlength, le_refl, List.getElem_append_right, Nat.sub_self, List.getElem_cons_zero,
    Nat.reduceAdd] at hfound hrecent
  obtain rfl : b = next := Option.some.inj (hmix.symm.trans hnext)
  obtain rfl : b = last := Option.some.inj (hmix.symm.trans hfound)
  refine ⟨_, _, hrun.epoch _ hopens, by simp [hlength], ?_, ?_⟩
  · rw [hlength]
    exact hrecent
  · rw [hlength]
    exact hfront

end Mixes

end BeaconReplay
