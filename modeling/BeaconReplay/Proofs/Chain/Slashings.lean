import BeaconReplay.Proofs.Chain.Epochs
import BeaconReplay.Proofs.Chain.Ring

/-!
# The slashings as a sliding window

In each epoch of a run the environment may write to the entry of the epoch; then the entry of the
next epoch is zeroed. The slashings are a ring of epochs in which every turn leaves a zero behind.
So an epoch starts from zero, its balance stays until its entry is next in turn, and once the run
has come round nothing of the start is left.
-/
namespace BeaconReplay.Slashings

open Epochs (Epoch play)

/-- In the epoch `e` the environment writes to the entry of the epoch, any number of times. -/
def charge (spec : Spec) (e : ℕ) (amounts : List UInt64) (s : BeaconState) : BeaconState :=
  { s with
    slashings := Ring.overwrite (e % spec.epochsPerSlashingsVector.toNat) amounts s.slashings }

/-- The runs whose epochs are closed by zeroing the entry of the next one. -/
abbrev Run (spec : Spec) (first : ℕ) (start : BeaconState) :
    List (Epoch (List UInt64)) → BeaconState → Prop :=
  Epochs.Run .slashingsReset (charge spec) spec first start

/-- The entry of the epoch `e` in a state. -/
def entryAt (spec : Spec) (e : ℕ) (s : BeaconState) : Option UInt64 :=
  s.slashings[e % spec.epochsPerSlashingsVector.toNat]?

/-- The balance that the rule has found in an epoch. -/
def balance (spec : Spec) (ep : Epoch (List UInt64)) : UInt64 :=
  (entryAt spec ep.number ep.opened).getD 0

/-- The turn of the ring in an epoch. -/
def turn (spec : Spec) (ep : Epoch (List UInt64)) : Ring.Turn UInt64 where
  writes := ep.input
  value := balance spec ep

variable {spec : Spec} {first : ℕ} {start final : BeaconState}
variable {epochs : List (Epoch (List UInt64))}

/-- A valid state has an entry for every epoch. -/
theorem entryAt_eq_some {s : BeaconState} (hL : 0 < spec.epochsPerSlashingsVector.toNat)
    (hvalid : s.validate spec = .ok ()) (e : ℕ) :
    entryAt spec e s = some ((entryAt spec e s).getD 0) := by
  obtain ⟨-, -, -, hsize⟩ := BeaconState.validate_eq_ok_iff.1 hvalid
  have hbound : e % spec.epochsPerSlashingsVector.toNat < s.slashings.size :=
    (Nat.mod_lt e hL).trans_eq hsize.symm
  simp [entryAt, hbound]

/-- Whatever the environment does, a state stays valid. -/
theorem validate_opened (e : ℕ) (amounts : List UInt64) (slot : UInt64) (before : BeaconState) :
    ({ charge spec e amounts before with slot := slot } : BeaconState).validate spec =
      before.validate spec :=
  BeaconState.validate_congr rfl rfl rfl (Ring.size_overwrite _ _ _)

/-- **The invariant of runs**: the state is still valid, the rule has never halted, every epoch but
the first has started from zero, and the slashings are a ring that has taken the turns of the
epochs. -/
structure Slid (spec : Spec) (first : ℕ) (start : BeaconState) (epochs : List (Epoch (List UInt64)))
    (final : BeaconState) : Prop where
  valid : final.validate spec = .ok ()
  opened_valid : ∀ ep ∈ epochs, ep.opened.validate spec = .ok ()
  applied : ∀ ep ∈ epochs, Rule.apply .slashingsReset spec ep.opened = .ok ep.closed
  started : ∀ ep ∈ epochs, first < ep.number → entryAt spec ep.number ep.before = some 0
  ring : Ring.Kept (fun _ => 0) first start.slashings (epochs.map (turn spec)) final.slashings

/-- In front of the first epoch nothing has slid. -/
theorem Slid.nil (hvalid : start.validate spec = .ok ()) : Slid spec first start [] start where
  valid := hvalid
  opened_valid := by simp
  applied := by simp
  started := by simp
  ring := .nil

/-- One more epoch keeps the invariant. -/
theorem Slid.epoch (hL : 0 < spec.epochsPerSlashingsVector.toNat)
    (hstart : start.validate spec = .ok ()) {before : BeaconState} (amounts : List UInt64)
    {slot : UInt64} (hnext : spec.HasNext slot)
    (hslot : spec.epochOf slot = first + epochs.length) (h : Slid spec first start epochs before) :
    let ep := play .slashingsReset (charge spec) spec (first + epochs.length) amounts slot before
    Slid spec first start (epochs ++ [ep]) ep.closed := by
  intro ep
  have hopened : ep.opened.validate spec = .ok () :=
    (validate_opened _ amounts slot before).trans h.valid
  have hready : Rule.Ready .slashingsReset spec ep.opened :=
    ⟨rfl, fun _ => hopened, hnext, hL, not_false⟩
  obtain ⟨happly, hclosed⟩ := Epochs.closed_play hready
  obtain ⟨-, -, -, hsize⟩ := BeaconState.validate_eq_ok_iff.1 hstart
  refine ⟨?_, ?_, ?_, ?_, ?_⟩
  · rw [hclosed, Rule.validate_effect, hopened]
  · exact List.forall_mem_append.2 ⟨h.opened_valid, by simpa using hopened⟩
  · exact List.forall_mem_append.2 ⟨h.applied, by simpa using happly⟩
  · refine List.forall_mem_append.2 ⟨h.started, ?_⟩
    intro ep' hep' hlater
    obtain rfl := List.mem_singleton.1 hep'
    -- behind the first epoch, the last one has zeroed the entry
    have hne : epochs.map (turn spec) ≠ [] := by
      intro hnil
      rw [List.map_eq_nil_iff] at hnil
      simp [ep, play, hnil] at hlater
    have hfront := h.ring.front_eq hne
    rw [List.length_map, hsize] at hfront
    exact hfront
  · have hvalue : (Ring.overwrite
        ((first + (epochs.map (turn spec)).length) % start.slashings.size) amounts
        before.slashings)[(first + (epochs.map (turn spec)).length) % start.slashings.size]? =
          some (balance spec ep) := by
      rw [List.length_map, hsize]
      exact entryAt_eq_some hL hopened ep.number
    have hring := h.ring.turn amounts hvalue
    rw [List.length_map, hsize] at hring
    have hepoch : spec.epochOf ep.opened.slot = first + epochs.length := hslot
    rw [List.map_append, hclosed, Rule.slashings_effect, hepoch]
    exact hring

/-- Every run slides. -/
theorem slid_of_run (hE : 0 < spec.slotsPerEpoch.toNat)
    (hL : 0 < spec.epochsPerSlashingsVector.toNat) (hvalid : start.validate spec = .ok ())
    (hrun : Run spec first start epochs final) (hlast : first + epochs.length < UInt64.size) :
    Slid spec first start epochs final :=
  hrun.invariant hE hlast (.nil hvalid) fun amounts _ _ hnext hslot h =>
    h.epoch hL hvalid amounts hnext hslot

/-- Behind the first epoch, the balance of an epoch is what the environment has written last. -/
theorem Slid.balance_eq (h : Slid spec first start epochs final)
    (hrun : Run spec first start epochs final) {ep : Epoch (List UInt64)} (hep : ep ∈ epochs)
    (hlater : first < ep.number) : balance spec ep = ep.input.getLastD 0 := by
  obtain ⟨slot, -, hplay⟩ := hrun.exists_play ep hep
  have hopened : ep.opened.slashings = Ring.overwrite
      (ep.number % spec.epochsPerSlashingsVector.toNat) ep.input ep.before.slashings := by
    rw [hplay]
    rfl
  rw [balance, entryAt, hopened, Ring.getElem?_overwrite_place (h.started ep hep hlater),
    Option.getD_some]

/-- The entry of the next epoch is zero. -/
theorem Slid.front_eq (h : Slid spec first start epochs final)
    (hvalid : start.validate spec = .ok ()) (hne : epochs ≠ []) :
    entryAt spec (first + epochs.length) final = some 0 := by
  obtain ⟨-, -, -, hsize⟩ := BeaconState.validate_eq_ok_iff.1 hvalid
  have hfront := h.ring.front_eq (by simpa using hne)
  rw [List.length_map, hsize] at hfront
  exact hfront

/-- The entry of an epoch in the window holds its balance. -/
theorem Slid.recent_eq (h : Slid spec first start epochs final)
    (hvalid : start.validate spec = .ok ()) (hrun : Run spec first start epochs final)
    {ep : Epoch (List UInt64)} (hep : ep ∈ epochs)
    (hwindow : first + epochs.length < ep.number + spec.epochsPerSlashingsVector.toNat) :
    entryAt spec ep.number final = some (balance spec ep) := by
  obtain ⟨-, -, -, hsize⟩ := BeaconState.validate_eq_ok_iff.1 hvalid
  obtain ⟨i, hi, rfl⟩ := List.getElem_of_mem hep
  rw [hrun.number_eq hi] at hwindow ⊢
  have hrecent := h.ring.recent i (by simpa using hi) (by rw [List.length_map, hsize]; omega)
  rw [hsize, List.getElem_map] at hrecent
  exact hrecent

/-- The entries of a run that has come round, from that of the oldest epoch in the window on. -/
theorem Slid.rotate_eq (h : Slid spec first start epochs final)
    (hvalid : start.validate spec = .ok ()) (hne : epochs ≠ [])
    (hfull : spec.epochsPerSlashingsVector.toNat ≤ epochs.length) :
    final.slashings.toList.rotate (first + epochs.length + 1) =
      (epochs.rtake (spec.epochsPerSlashingsVector.toNat - 1)).map (balance spec) ++ [0] := by
  obtain ⟨-, -, -, hsize⟩ := BeaconState.validate_eq_ok_iff.1 hvalid
  have hrotate := h.ring.rotate_toList (by rwa [List.length_map, hsize])
    (h.ring.front_eq (by simpa using hne))
  rw [List.length_map, hsize] at hrotate
  simpa [List.rtake, List.map_drop, turn, Function.comp_def] using hrotate

/-- Where a run has come round, the balances in the window are determined by the inputs. -/
theorem Slid.balances_eq (h : Slid spec first start epochs final)
    (hrun : Run spec first start epochs final) (hL : 0 < spec.epochsPerSlashingsVector.toNat)
    (hfull : spec.epochsPerSlashingsVector.toNat ≤ epochs.length) :
    (epochs.rtake (spec.epochsPerSlashingsVector.toNat - 1)).map (balance spec) =
      ((epochs.map Epoch.input).rtake (spec.epochsPerSlashingsVector.toNat - 1)).map
        (List.getLastD · 0) := by
  rw [List.rtake, List.rtake, List.length_map, ← List.map_drop, List.map_map]
  refine List.map_congr_left fun ep hep => ?_
  obtain ⟨i, hi, rfl⟩ := List.getElem_of_mem hep
  rw [List.length_drop] at hi
  refine h.balance_eq hrun (List.mem_of_mem_drop hep) ?_
  rw [List.getElem_drop, hrun.number_eq]
  omega

/-- The sum of the slashings of a run that has come round is that of the balances in the window. -/
theorem Slid.sum_eq (h : Slid spec first start epochs final)
    (hvalid : start.validate spec = .ok ()) (hne : epochs ≠ [])
    (hfull : spec.epochsPerSlashingsVector.toNat ≤ epochs.length) :
    (final.slashings.toList.map UInt64.toNat).sum =
      ((epochs.rtake (spec.epochsPerSlashingsVector.toNat - 1)).map fun ep =>
        (balance spec ep).toNat).sum := by
  calc
    (final.slashings.toList.map UInt64.toNat).sum
        = ((final.slashings.toList.rotate (first + epochs.length + 1)).map UInt64.toNat).sum :=
          (((List.rotate_perm _ _).map _).sum_eq).symm
    _ = ((epochs.rtake (spec.epochsPerSlashingsVector.toNat - 1)).map fun ep =>
          (balance spec ep).toNat).sum := by
          rw [h.rotate_eq hvalid hne hfull]
          simp [Function.comp_def]

/-- Two runs with the same inputs that have come round end with the same slashings. -/
theorem Slid.slashings_eq_of_inputs {start' final' : BeaconState}
    {epochs' : List (Epoch (List UInt64))} (h : Slid spec first start epochs final)
    (h' : Slid spec first start' epochs' final') (hL : 0 < spec.epochsPerSlashingsVector.toNat)
    (hvalid : start.validate spec = .ok ()) (hvalid' : start'.validate spec = .ok ())
    (hrun : Run spec first start epochs final) (hrun' : Run spec first start' epochs' final')
    (hinput : epochs'.map Epoch.input = epochs.map Epoch.input)
    (hfull : spec.epochsPerSlashingsVector.toNat ≤ epochs.length) :
    final'.slashings = final.slashings := by
  have hlength : epochs'.length = epochs.length := by simpa using congrArg List.length hinput
  have hfull' := hfull.trans_eq hlength.symm
  have hrotate := h.rotate_eq hvalid (List.ne_nil_of_length_pos (hL.trans_le hfull)) hfull
  have hrotate' := h'.rotate_eq hvalid' (List.ne_nil_of_length_pos (hL.trans_le hfull')) hfull'
  rw [h'.balances_eq hrun' hL hfull', hinput, ← h.balances_eq hrun hL hfull, ← hrotate,
    hlength] at hrotate'
  exact Array.toList_inj.1 (List.rotate_injective _ hrotate')

/-- **The slashings are a sliding window.** The rule never halts in a run. At its end the entry of
the next epoch is zero, the entry of each epoch in the window holds the balance that the rule has
found there, and each of these epochs but the first of all has started from zero. Once the run has
come round, the entries are the balances of the epochs in the window and the zero in front of them,
so their sum is that of the balances, and what the slashings were at the start has no effect. -/
theorem run_slides_window (hE : 0 < spec.slotsPerEpoch.toNat)
    (hL : 0 < spec.epochsPerSlashingsVector.toNat) (hvalid : start.validate spec = .ok ())
    (hrun : Run spec first start epochs final) (hne : epochs ≠ [])
    (hlast : first + epochs.length < UInt64.size) :
    let L := spec.epochsPerSlashingsVector.toNat
    let window := epochs.rtake (L - 1)
    (∀ ep ∈ epochs, Rule.apply .slashingsReset spec ep.opened = .ok ep.closed) ∧
    entryAt spec (first + epochs.length) final = some 0 ∧
    (∀ ep ∈ epochs, first + epochs.length < ep.number + L →
      entryAt spec ep.number ep.opened = some (balance spec ep) ∧
        entryAt spec ep.number final = some (balance spec ep)) ∧
    (∀ ep ∈ epochs, first < ep.number → entryAt spec ep.number ep.before = some 0) ∧
    (L ≤ epochs.length →
      final.slashings.toList.rotate (first + epochs.length + 1) =
        window.map (balance spec) ++ [0] ∧
      (final.slashings.toList.map UInt64.toNat).sum =
        (window.map fun ep => (balance spec ep).toNat).sum ∧
      ∀ start' epochs' final', start'.validate spec = .ok () →
        Run spec first start' epochs' final' →
        epochs'.map Epoch.input = epochs.map Epoch.input → final'.slashings = final.slashings) := by
  intro L window
  have h := slid_of_run hE hL hvalid hrun hlast
  refine ⟨h.applied, h.front_eq hvalid hne, ?_, h.started, ?_⟩
  · intro ep hep hwindow
    exact ⟨entryAt_eq_some hL (h.opened_valid ep hep) _, h.recent_eq hvalid hrun hep hwindow⟩
  · intro hfull
    refine ⟨h.rotate_eq hvalid hne hfull, h.sum_eq hvalid hne hfull, ?_⟩
    intro start' epochs' final' hvalid' hrun' hinput
    have hlength : epochs'.length = epochs.length := by simpa using congrArg List.length hinput
    have h' := slid_of_run hE hL hvalid' hrun' (hlength ▸ hlast)
    exact h.slashings_eq_of_inputs h' hL hvalid hvalid' hrun hrun' hinput hfull

/-- A profile whose epochs have one slot and whose states have three slashings. -/
def threeEntries : Spec := ⟨"three entries", 1, 1, 1, 3, 1⟩

/-- Three epochs in a ring of three: nothing of the start is left, nor of the first epoch. -/
theorem run_once_round : ∃ epochs final,
    Run threeEntries 4 { BeaconState.new threeEntries .deneb with slashings := #[5, 6, 7] } epochs
        final ∧
      epochs.length = 3 ∧ (final.slashings.toList.map UInt64.toNat).sum = 30 := by
  have hfour : threeEntries.epochOf 4 = 4 := by decide
  have hfive : threeEntries.epochOf 5 = 5 := by decide
  have hsix : threeEntries.epochOf 6 = 6 := by decide
  have hrun : Run threeEntries 4
      { BeaconState.new threeEntries .deneb with slashings := #[5, 6, 7] } _ _ :=
    ((Epochs.Run.start.epoch [10] hfour).epoch [] hfive).epoch [20, 30] hsix
  obtain ⟨-, -, -, -, hround⟩ := run_slides_window (by decide) (by decide) rfl hrun (by simp)
    (by decide)
  obtain ⟨-, hsum, -⟩ := hround (by decide)
  exact ⟨_, _, hrun, rfl, hsum.trans (by decide +kernel)⟩

end BeaconReplay.Slashings
