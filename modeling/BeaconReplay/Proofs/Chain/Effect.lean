import BeaconReplay.Proofs.Chain.Refusal

/-!
# What the rules leave behind

Each rule writes one part of the state, and the parts of different rules are different. Whether it
has a result is decided by the fork, the lengths of the vectors, the slot and the profile, and by
the room in its own list. So the outcome of a rule that succeeds is described in full by what it
asks for and by what it leaves in its part; all that is said of the five rules elsewhere follows
from these two.
-/
namespace BeaconReplay

namespace Rule

/-- The part of a state that a rule writes. -/
def Part : Rule → Type
  | eth1DataReset => Array Eth1Data
  | historicalRootsUpdate => Array Root
  | historicalSummariesUpdate => Array HistoricalSummary
  | randaoMixesReset => Array Root
  | slashingsReset => Array UInt64

/-- Replace the part of a rule. -/
def setPart : (rule : Rule) → rule.Part → BeaconState → BeaconState
  | eth1DataReset, votes, s => { s with eth1DataVotes := votes }
  | historicalRootsUpdate, roots, s => { s with historicalRoots := roots }
  | historicalSummariesUpdate, summaries, s => { s with historicalSummaries := summaries }
  | randaoMixesReset, mixes, s => { s with randaoMixes := mixes }
  | slashingsReset, slashings, s => { s with slashings := slashings }

/-- The number of epochs after which a rule comes round to the same place again. -/
def cycle : Rule → Spec → ℕ
  | eth1DataReset, spec => spec.epochsPerEth1VotingPeriod.toNat
  | historicalRootsUpdate, spec => spec.period
  | historicalSummariesUpdate, spec => spec.period
  | randaoMixesReset, spec => spec.epochsPerHistoricalVector.toNat
  | slashingsReset, spec => spec.epochsPerSlashingsVector.toNat

/-- What a rule leaves in its part. -/
def written : (rule : Rule) → Spec → BeaconState → rule.Part
  | eth1DataReset, spec, s =>
    if spec.epochsPerEth1VotingPeriod.toNat ∣ spec.epochOf s.slot + 1 then #[] else s.eth1DataVotes
  | historicalRootsUpdate, spec, s =>
    if spec.period ∣ spec.epochOf s.slot + 1 then s.historicalRoots.push (batchRoot s)
    else s.historicalRoots
  | historicalSummariesUpdate, spec, s =>
    if spec.period ∣ spec.epochOf s.slot + 1 then s.historicalSummaries.push (summary s)
    else s.historicalSummaries
  | randaoMixesReset, spec, s =>
    s.randaoMixes.setIfInBounds ((spec.epochOf s.slot + 1) % spec.epochsPerHistoricalVector.toNat)
      (s.randaoMixes.getD (spec.epochOf s.slot % spec.epochsPerHistoricalVector.toNat) Root.zero)
  | slashingsReset, spec, s =>
    s.slashings.setIfInBounds ((spec.epochOf s.slot + 1) % spec.epochsPerSlashingsVector.toNat) 0

/-- The state that a rule leaves where it has a result. -/
def effect (rule : Rule) (spec : Spec) (s : BeaconState) : BeaconState :=
  rule.setPart (rule.written spec s) s

/-- What a rule asks for. Only the votes are dropped without a look at the lengths. -/
structure Ready (rule : Rule) (spec : Spec) (s : BeaconState) : Prop where
  supported : rule.supports s.fork = true
  valid : rule ≠ .eth1DataReset → s.validate spec = .ok ()
  hasNext : spec.HasNext s.slot
  cycle_pos : 0 < rule.cycle spec
  room : ¬rule.Overfills spec s

variable {spec : Spec} {state final : BeaconState} {rule : Rule}

/-! ## The parts -/

section SetPart

variable (part : rule.Part) (s : BeaconState)

@[simp] theorem fork_setPart : (rule.setPart part s).fork = s.fork := by cases rule <;> rfl
@[simp] theorem slot_setPart : (rule.setPart part s).slot = s.slot := by cases rule <;> rfl

@[simp] theorem blockRoots_setPart : (rule.setPart part s).blockRoots = s.blockRoots := by
  cases rule <;> rfl

@[simp] theorem stateRoots_setPart : (rule.setPart part s).stateRoots = s.stateRoots := by
  cases rule <;> rfl

@[simp] theorem eth1Data_setPart : (rule.setPart part s).eth1Data = s.eth1Data := by
  cases rule <;> rfl

end SetPart

theorem setPart_ite (c : Prop) [Decidable c] (x y : rule.Part) (s : BeaconState) :
    rule.setPart (if c then x else y) s =
      if c then rule.setPart x s else rule.setPart y s := by
  split <;> rfl

theorem effect_votes : effect .eth1DataReset spec state =
    if spec.epochsPerEth1VotingPeriod.toNat ∣ spec.epochOf state.slot + 1 then
      { state with eth1DataVotes := #[] }
    else state :=
  setPart_ite ..

theorem effect_roots : effect .historicalRootsUpdate spec state =
    if spec.period ∣ spec.epochOf state.slot + 1 then state.appendRoot else state :=
  setPart_ite ..

theorem effect_summaries : effect .historicalSummariesUpdate spec state =
    if spec.period ∣ spec.epochOf state.slot + 1 then state.appendSummary else state :=
  setPart_ite ..

theorem eth1DataVotes_effect : (effect .eth1DataReset spec state).eth1DataVotes =
    if spec.epochsPerEth1VotingPeriod.toNat ∣ spec.epochOf state.slot + 1 then #[]
    else state.eth1DataVotes := rfl

theorem slashings_effect : (effect .slashingsReset spec state).slashings =
    state.slashings.setIfInBounds
      ((spec.epochOf state.slot + 1) % spec.epochsPerSlashingsVector.toNat) 0 := rfl

@[simp] theorem eth1Data_effect : (rule.effect spec state).eth1Data = state.eth1Data :=
  eth1Data_setPart ..

/-- A rule keeps the lengths of the vectors. -/
@[simp] theorem size_randaoMixes_effect :
    (rule.effect spec state).randaoMixes.size = state.randaoMixes.size := by
  cases rule with
  | randaoMixesReset => exact Array.size_setIfInBounds ..
  | _ => rfl

@[simp] theorem size_slashings_effect :
    (rule.effect spec state).slashings.size = state.slashings.size := by
  cases rule with
  | slashingsReset => exact Array.size_setIfInBounds ..
  | _ => rfl

/-- A rule keeps a state valid, and an invalid one invalid for the same reason. -/
@[simp] theorem validate_effect (other : Spec) :
    (rule.effect spec state).validate other = state.validate other :=
  BeaconState.validate_congr (by rw [effect, blockRoots_setPart])
    (by rw [effect, stateRoots_setPart]) size_randaoMixes_effect size_slashings_effect

/-! ## Results -/

/-- **A rule that is ready has its effect.** -/
theorem apply_of_ready (h : rule.Ready spec state) :
    rule.apply spec state = .ok (rule.effect spec state) := by
  have hslot := h.hasNext
  cases rule with
  | eth1DataReset =>
    rw [apply, effect_votes]
    exact resetVotes_eq_ok h.cycle_pos hslot
  | historicalRootsUpdate =>
    rw [apply, updateRoots_eq_of_valid h.supported (h.valid (by decide)), effect_roots]
    exact appending_eq_ok_iff.2 ⟨hslot, h.cycle_pos, h.room, rfl⟩
  | historicalSummariesUpdate =>
    have hfork : state.fork.before .capella = false := by simpa [supports] using h.supported
    rw [apply, updateSummaries_eq_of_valid hfork (h.valid (by decide)), effect_summaries]
    exact appending_eq_ok_iff.2 ⟨hslot, h.cycle_pos, h.room, rfl⟩
  | randaoMixesReset =>
    exact resetMixes_eq_ok hslot.slotsPerEpoch_pos h.cycle_pos (h.valid (by decide)) hslot.next_lt
  | slashingsReset => exact resetSlashings_eq_ok h.cycle_pos (h.valid (by decide)) hslot

theorem ready_of_resetVotes (h : resetVotes spec state = .ok final) :
    Ready .eth1DataReset spec state := by
  obtain ⟨next, hnext, h⟩ := Result.bind_eq_ok_iff.1 h
  obtain ⟨r, hr, -⟩ := Result.bind_eq_ok_iff.1 h
  exact {
    supported := rfl
    valid := fun hne => absurd rfl hne
    hasNext := (nextEpoch_eq_ok_iff.1 hnext).1
    cycle_pos := (Spec.remainder_eq_ok_iff.1 (computed_eq_ok_iff.1 hr)).1
    room := not_false }

/-- The historical rules differ in their lists, but they ask for the same. -/
theorem ready_of_appending {list : String} {size : ℕ} {next : BeaconState}
    (hcycle : rule.cycle spec = spec.period)
    (hroom : rule.Overfills spec state =
      (historicalRootsLimit ≤ size ∧ spec.period ∣ spec.epochOf state.slot + 1))
    (h : (do
      requireSupport rule state.fork
      checked (state.validate spec)
      appending list size spec state next) = .ok final) : rule.Ready spec state := by
  rw [Result.check_bind_eq_ok_iff, Result.check_bind_eq_ok_iff, requireSupport_eq_ok_iff,
    checked_eq_ok_iff, appending_eq_ok_iff] at h
  obtain ⟨hfork, hvalid, hslot, hP, hfits, -⟩ := h
  exact {
    supported := hfork
    valid := fun _ => hvalid
    hasNext := hslot
    cycle_pos := hcycle ▸ hP
    room := hroom ▸ hfits }

theorem ready_of_resetMixes (h : resetMixes spec state = .ok final) :
    Ready .randaoMixesReset spec state := by
  obtain ⟨hvalid, h⟩ := Result.check_bind_eq_ok_iff.1 h
  obtain ⟨current, -, h⟩ := Result.bind_eq_ok_iff.1 h
  obtain ⟨next, hnext, h⟩ := Result.bind_eq_ok_iff.1 h
  obtain ⟨i, hi, -⟩ := Result.bind_eq_ok_iff.1 h
  exact {
    supported := rfl
    valid := fun _ => checked_eq_ok_iff.1 hvalid
    hasNext := (nextEpoch_eq_ok_iff.1 hnext).1
    cycle_pos := (Spec.remainder_eq_ok_iff.1 (computed_eq_ok_iff.1 hi)).1
    room := not_false }

theorem ready_of_resetSlashings (h : resetSlashings spec state = .ok final) :
    Ready .slashingsReset spec state := by
  obtain ⟨hvalid, h⟩ := Result.check_bind_eq_ok_iff.1 h
  obtain ⟨next, hnext, h⟩ := Result.bind_eq_ok_iff.1 h
  obtain ⟨i, hi, -⟩ := Result.bind_eq_ok_iff.1 h
  exact {
    supported := rfl
    valid := fun _ => checked_eq_ok_iff.1 hvalid
    hasNext := (nextEpoch_eq_ok_iff.1 hnext).1
    cycle_pos := (Spec.remainder_eq_ok_iff.1 (computed_eq_ok_iff.1 hi)).1
    room := not_false }

/-- **A rule with a result was ready.** -/
theorem ready_of_apply (h : rule.apply spec state = .ok final) : rule.Ready spec state := by
  cases rule with
  | eth1DataReset => exact ready_of_resetVotes h
  | historicalRootsUpdate => exact ready_of_appending rfl rfl (updateRoots_eq.symm.trans h)
  | historicalSummariesUpdate => exact ready_of_appending rfl rfl (updateSummaries_eq.symm.trans h)
  | randaoMixesReset => exact ready_of_resetMixes h
  | slashingsReset => exact ready_of_resetSlashings h

/-- **A rule has a result exactly if it is ready, and the result is its effect.** -/
theorem apply_eq_ok_iff :
    rule.apply spec state = .ok final ↔ rule.Ready spec state ∧ rule.effect spec state = final := by
  constructor
  · intro h
    have hready := ready_of_apply h
    exact ⟨hready, Except.ok.inj ((apply_of_ready hready).symm.trans h)⟩
  · rintro ⟨hready, rfl⟩
    exact apply_of_ready hready

/-- A rule that is tried has its effect if it is ready, and otherwise none. -/
theorem attempt_cases (rule : Rule) (spec : Spec) (s : BeaconState) :
    rule.attempt spec s = s ∨ rule.Ready spec s ∧ rule.attempt spec s = rule.effect spec s := by
  cases happly : rule.apply spec s with
  | error halt => exact .inl (attempt_of_error happly)
  | ok next =>
    obtain ⟨hready, rfl⟩ := apply_eq_ok_iff.1 happly
    exact .inr ⟨hready, attempt_of_ok happly⟩

end Rule

end BeaconReplay
