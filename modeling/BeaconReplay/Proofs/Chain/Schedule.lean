import BeaconReplay.Proofs.Result

/-!
# The schedule of the rules

Epochs and periods as natural numbers. A state whose epoch is not the last one has a next epoch,
and a period ends when the number of that next epoch is a multiple of the period's length.
-/
namespace BeaconReplay

namespace Spec

/-- The number of the epoch that contains a slot. -/
def epochOf (spec : Spec) (slot : UInt64) : Nat := slot.toNat / spec.slotsPerEpoch.toNat

/-- The number of epochs in a historical period. -/
def period (spec : Spec) : Nat := spec.slotsPerHistoricalRoot.toNat / spec.slotsPerEpoch.toNat

variable {spec : Spec}

theorem quotient_of_pos {a b : UInt64} (hb : 0 < b.toNat) : quotient a b = .ok (a / b) := by
  have hne : b ≠ 0 := by rintro rfl; simp at hb
  simp [quotient, hne]

theorem remainder_of_pos {a b : UInt64} (hb : 0 < b.toNat) : remainder a b = .ok (a % b) := by
  have hne : b ≠ 0 := by rintro rfl; simp at hb
  simp [remainder, hne]

theorem toNat_pos {b : UInt64} (hb : b ≠ 0) : 0 < b.toNat :=
  Nat.pos_of_ne_zero fun h => hb (UInt64.toNat_inj.1 h)

theorem quotient_eq_ok_iff {a b c : UInt64} : quotient a b = .ok c ↔ 0 < b.toNat ∧ a / b = c := by
  by_cases hb : b = 0
  · simp [quotient, hb]
  · simp [quotient_of_pos (toNat_pos hb), toNat_pos hb]

theorem remainder_eq_ok_iff {a b c : UInt64} : remainder a b = .ok c ↔ 0 < b.toNat ∧ a % b = c := by
  by_cases hb : b = 0
  · simp [remainder, hb]
  · simp [remainder_of_pos (toNat_pos hb), toNat_pos hb]

/-- A remainder is zero exactly at a multiple. -/
theorem mod_eq_zero_iff (a b : UInt64) : a % b = 0 ↔ b.toNat ∣ a.toNat := by
  rw [← UInt64.toNat_inj, UInt64.toNat_mod]
  exact Nat.dvd_iff_mod_eq_zero.symm

/-- A slot has an epoch, and it is not the last one of all. -/
structure HasNext (spec : Spec) (slot : UInt64) : Prop where
  slotsPerEpoch_pos : 0 < spec.slotsPerEpoch.toNat
  next_lt : spec.epochOf slot + 1 < UInt64.size

/-- A period has at least one epoch if an epoch is not longer than the historical vectors. -/
theorem period_pos (hE : 0 < spec.slotsPerEpoch.toNat)
    (hR : spec.slotsPerEpoch.toNat ≤ spec.slotsPerHistoricalRoot.toNat) : 0 < spec.period :=
  Nat.div_pos hR hE

end Spec

namespace Rule

variable {spec : Spec} {state : BeaconState}

/-- The next epoch is the successor of the state's own unless that is the last one. -/
theorem nextEpoch_eq_ok (hE : 0 < spec.slotsPerEpoch.toNat)
    (hnext : spec.epochOf state.slot + 1 < UInt64.size) :
    ∃ next, nextEpoch spec state = .ok next ∧ next.toNat = spec.epochOf state.slot + 1 := by
  have hquot : (state.slot / spec.slotsPerEpoch).toNat = spec.epochOf state.slot := by
    simp [Spec.epochOf]
  have hlast : state.slot / spec.slotsPerEpoch ≠ 0xffffffffffffffff := by
    intro heq
    rw [heq] at hquot
    simp [← hquot, UInt64.size] at hnext
  refine ⟨state.slot / spec.slotsPerEpoch + 1, ?_, ?_⟩
  · simp [nextEpoch, Spec.epochAt, Spec.quotient_of_pos hE, computed, hlast]
  · rw [UInt64.toNat_add, hquot]
    exact Nat.mod_eq_of_lt (by simpa [UInt64.size] using hnext)

theorem computed_eq_ok_iff {α : Type} {x : Except Crash α} {a : α} :
    computed x = .ok a ↔ x = .ok a := by
  cases x <;> simp [computed]

/-- There is a next epoch only if the slot has one. -/
theorem nextEpoch_eq_ok_iff {next : UInt64} : nextEpoch spec state = .ok next ↔
    spec.HasNext state.slot ∧ next.toNat = spec.epochOf state.slot + 1 := by
  constructor
  · intro h
    obtain ⟨epoch, hepoch, hnext⟩ := Result.bind_eq_ok_iff.1 h
    obtain ⟨hE, rfl⟩ := Spec.quotient_eq_ok_iff.1 (computed_eq_ok_iff.1 hepoch)
    by_cases hlast : state.slot / spec.slotsPerEpoch = 0xffffffffffffffff
    · simp [hlast] at hnext
    · have hval : (state.slot / spec.slotsPerEpoch).toNat = spec.epochOf state.slot := by
        simp [Spec.epochOf]
      have hne : spec.epochOf state.slot ≠ UInt64.size - 1 := fun heq =>
        hlast (UInt64.toNat_inj.1 (hval.trans heq))
      have hbound := (state.slot / spec.slotsPerEpoch).toNat_lt_size
      have hlt : spec.epochOf state.slot + 1 < UInt64.size := by omega
      obtain ⟨epoch, hok, hepoch⟩ := nextEpoch_eq_ok hE hlt
      obtain rfl := Except.ok.inj (hok.symm.trans h)
      exact ⟨⟨hE, hlt⟩, hepoch⟩
  · rintro ⟨hslot, hnext⟩
    obtain ⟨epoch, hok, hepoch⟩ := nextEpoch_eq_ok hslot.slotsPerEpoch_pos hslot.next_lt
    rw [hok, UInt64.toNat_inj.1 (hepoch.trans hnext.symm)]

/-- Whether a new period starts is decided by the number of the next epoch. -/
theorem startsPeriod_eq_ok (hE : 0 < spec.slotsPerEpoch.toNat) (hP : 0 < spec.period)
    (hnext : spec.epochOf state.slot + 1 < UInt64.size) :
    startsPeriod spec state = .ok (decide (spec.period ∣ spec.epochOf state.slot + 1)) := by
  obtain ⟨next, hok, hval⟩ := nextEpoch_eq_ok hE hnext
  have hperiod : (spec.slotsPerHistoricalRoot / spec.slotsPerEpoch).toNat = spec.period := by
    simp [Spec.period]
  have hrem : ((next % (spec.slotsPerHistoricalRoot / spec.slotsPerEpoch)) == 0) =
      decide (spec.period ∣ spec.epochOf state.slot + 1) := by
    rw [Bool.eq_iff_iff, beq_iff_eq, decide_eq_true_iff, Spec.mod_eq_zero_iff, hperiod, hval]
  simp [startsPeriod, hok, Spec.epochsPerHistoricalRoot, Spec.quotient_of_pos hE, computed,
    Spec.remainder_of_pos (hperiod ▸ hP), hrem]

/-- The schedule has an answer only if the slot has a next epoch and a period has any. -/
theorem startsPeriod_eq_ok_iff {starts : Bool} : startsPeriod spec state = .ok starts ↔
    spec.HasNext state.slot ∧ 0 < spec.period ∧
      decide (spec.period ∣ spec.epochOf state.slot + 1) = starts := by
  constructor
  · intro h
    obtain ⟨next, hnext, hrest⟩ := Result.bind_eq_ok_iff.1 h
    obtain ⟨period, hperiod, hrest⟩ := Result.bind_eq_ok_iff.1 hrest
    obtain ⟨r, hr, -⟩ := Result.bind_eq_ok_iff.1 hrest
    have hslot := (nextEpoch_eq_ok_iff.1 hnext).1
    have hP : 0 < spec.period := by
      obtain ⟨-, rfl⟩ := Spec.quotient_eq_ok_iff.1 (computed_eq_ok_iff.1 hperiod)
      simpa [Spec.period] using (Spec.remainder_eq_ok_iff.1 (computed_eq_ok_iff.1 hr)).1
    rw [startsPeriod_eq_ok hslot.slotsPerEpoch_pos hP hslot.next_lt] at h
    exact ⟨hslot, hP, Except.ok.inj h⟩
  · rintro ⟨hslot, hP, rfl⟩
    exact startsPeriod_eq_ok hslot.slotsPerEpoch_pos hP hslot.next_lt

end Rule

end BeaconReplay
