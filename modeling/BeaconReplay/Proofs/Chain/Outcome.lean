import BeaconReplay.Proofs.Chain.Schedule

/-!
# What the rules do

The two historical rules share one outcome: behind their checks they append one entry if the next
epoch starts a period, and leave the state alone otherwise. The forks divide them up, so of the
two rules exactly one gets past its first check. Each reset sets or drops what the next epoch is to
find empty, if there is a next epoch.
-/
namespace BeaconReplay

namespace BeaconState

/-- The state with the root of its batch appended. -/
def appendRoot (s : BeaconState) : BeaconState :=
  { s with historicalRoots := s.historicalRoots.push (Rule.batchRoot s) }

/-- The state with its summary appended. -/
def appendSummary (s : BeaconState) : BeaconState :=
  { s with historicalSummaries := s.historicalSummaries.push (Rule.summary s) }

/-- The state with the entry of its fork appended: a root before Capella, and then a summary. -/
def appendEntry (s : BeaconState) : BeaconState :=
  if s.fork.before .capella then s.appendRoot else s.appendSummary

variable {s t : BeaconState} {spec : Spec}

@[simp] theorem fork_appendRoot : s.appendRoot.fork = s.fork := rfl
@[simp] theorem fork_appendSummary : s.appendSummary.fork = s.fork := rfl

@[simp] theorem fork_appendEntry : s.appendEntry.fork = s.fork := by
  unfold appendEntry; split <;> rfl

theorem historicalRoots_appendEntry : s.appendEntry.historicalRoots.toList =
    s.historicalRoots.toList ++ if s.fork.before .capella then [Rule.batchRoot s] else [] := by
  unfold appendEntry; split <;> simp [appendRoot, appendSummary]

theorem historicalSummaries_appendEntry : s.appendEntry.historicalSummaries.toList =
    s.historicalSummaries.toList ++ if s.fork.before .capella then [] else [Rule.summary s] := by
  unfold appendEntry; split <;> simp [appendRoot, appendSummary]

/-- Two states with vectors of the same lengths are valid together. -/
theorem validate_congr (hblock : s.blockRoots.size = t.blockRoots.size)
    (hstate : s.stateRoots.size = t.stateRoots.size)
    (hmixes : s.randaoMixes.size = t.randaoMixes.size)
    (hslash : s.slashings.size = t.slashings.size) : s.validate spec = t.validate spec := by
  simp only [validate, hblock, hstate, hmixes, hslash]

@[simp] theorem validate_appendEntry : s.appendEntry.validate spec = s.validate spec := by
  unfold appendEntry; split <;> rfl

theorem checkLength_eq_ok_iff {field : String} {expected : UInt64} {found : Nat} :
    checkLength field expected found = .ok () ↔ found = expected.toNat := by
  unfold checkLength
  split <;> simp_all [eq_comm]

/-- A state is valid exactly if its four vectors have the lengths that the profile gives. -/
theorem validate_eq_ok_iff : s.validate spec = .ok () ↔
    s.blockRoots.size = spec.slotsPerHistoricalRoot.toNat ∧
      s.stateRoots.size = spec.slotsPerHistoricalRoot.toNat ∧
      s.randaoMixes.size = spec.epochsPerHistoricalVector.toNat ∧
      s.slashings.size = spec.epochsPerSlashingsVector.toNat := by
  simp only [validate, Result.check_bind_eq_ok_iff, checkLength_eq_ok_iff]

end BeaconState

namespace Rule

variable {spec : Spec} {state : BeaconState}

/-- Refuse a fork that a rule does not support. -/
def requireSupport (rule : Rule) (fork : Fork) : Step Unit := gate (!rule.supports fork) rule fork

/-- **What a rule supports agrees with the comparison that it makes itself.** -/
theorem gate_reaches_capella (fork : Fork) :
    gate (fork.reaches .capella) .historicalRootsUpdate fork =
      requireSupport .historicalRootsUpdate fork := by
  cases fork <;> rfl

theorem gate_before_capella (fork : Fork) :
    gate (fork.before .capella) .historicalSummariesUpdate fork =
      requireSupport .historicalSummariesUpdate fork := by
  cases fork <;> rfl

theorem requireSupport_of_supports {rule : Rule} {fork : Fork} (h : rule.supports fork = true) :
    requireSupport rule fork = .ok () := by
  simp [requireSupport, gate, h]

/-- A fork that a rule does not support is refused by name. -/
theorem requireSupport_of_not_supports {rule : Rule} {fork : Fork}
    (h : rule.supports fork = false) :
    requireSupport rule fork = .error (.refused (.unsupportedFork rule.name fork)) := by
  simp [requireSupport, gate, h]

/-- What the historical rules share behind their checks: at the end of a period the next state is
taken, if the list has room for it, and elsewhere the state is left alone. -/
def appending (list : String) (size : Nat) (spec : Spec) (state next : BeaconState) :
    Step BeaconState := do
  if ← startsPeriod spec state then
    room list size
    pure next
  else pure state

theorem updateRoots_eq : updateRoots spec state = (do
    requireSupport .historicalRootsUpdate state.fork
    checked (state.validate spec)
    appending "historical_roots" state.historicalRoots.size spec state state.appendRoot) := by
  rw [← gate_reaches_capella]
  rfl

theorem updateSummaries_eq : updateSummaries spec state = (do
    requireSupport .historicalSummariesUpdate state.fork
    checked (state.validate spec)
    appending "historical_summaries" state.historicalSummaries.size spec state
      state.appendSummary) := by
  rw [← gate_before_capella]
  rfl

/-- A rule refuses a fork at which it is not defined. -/
theorem updateRoots_unsupported (hfork : state.fork.before .capella = false) :
    updateRoots spec state =
      .error (.refused (.unsupportedFork (name .historicalRootsUpdate) state.fork)) := by
  have hsupport : supports .historicalRootsUpdate state.fork = false := hfork
  rw [updateRoots_eq, requireSupport_of_not_supports hsupport]
  rfl

theorem updateSummaries_unsupported (hfork : state.fork.before .capella = true) :
    updateSummaries spec state =
      .error (.refused (.unsupportedFork (name .historicalSummariesUpdate) state.fork)) := by
  have hsupport : supports .historicalSummariesUpdate state.fork = false := by
    rw [supports, hfork, Bool.not_true]
  rw [updateSummaries_eq, requireSupport_of_not_supports hsupport]
  rfl

/-- Behind its checks the roots rule depends on the schedule and on the room in its list. -/
theorem updateRoots_eq_of_valid (hfork : state.fork.before .capella = true)
    (hvalid : state.validate spec = .ok ()) :
    updateRoots spec state =
      appending "historical_roots" state.historicalRoots.size spec state state.appendRoot := by
  have hsupport : supports .historicalRootsUpdate state.fork = true := hfork
  simp [updateRoots_eq, requireSupport_of_supports hsupport, checked, hvalid]

theorem updateSummaries_eq_of_valid (hfork : state.fork.before .capella = false)
    (hvalid : state.validate spec = .ok ()) :
    updateSummaries spec state =
      appending "historical_summaries" state.historicalSummaries.size spec state
        state.appendSummary := by
  have hsupport : supports .historicalSummariesUpdate state.fork = true := by
    rw [supports, hfork, Bool.not_false]
  simp [updateSummaries_eq, requireSupport_of_supports hsupport, checked, hvalid]

section Appending

variable {list : String} {size : Nat} {next : BeaconState}

theorem room_of_lt (h : size < historicalRootsLimit) : room list size = .ok () := by simp [room, h]

theorem room_of_ge (h : historicalRootsLimit ≤ size) :
    room list size = .error (.refused (.listFull list historicalRootsLimit)) := by
  simp [room, Nat.not_lt.2 h]

/-- With room in the list, the next state is taken exactly at the end of a period. -/
theorem appending_eq_ok (hE : 0 < spec.slotsPerEpoch.toNat) (hP : 0 < spec.period)
    (hnext : spec.epochOf state.slot + 1 < UInt64.size) (hroom : size < historicalRootsLimit) :
    appending list size spec state next =
      .ok (if spec.period ∣ spec.epochOf state.slot + 1 then next else state) := by
  rw [appending, startsPeriod_eq_ok hE hP hnext, room_of_lt hroom]
  by_cases h : spec.period ∣ spec.epochOf state.slot + 1 <;> simp [h]

/-- The only halt behind the checks is that of a full list at the end of a period. -/
theorem appending_eq_error_iff {halt : Halt ChainError} (hE : 0 < spec.slotsPerEpoch.toNat)
    (hP : 0 < spec.period) (hnext : spec.epochOf state.slot + 1 < UInt64.size) :
    appending list size spec state next = .error halt ↔
      (historicalRootsLimit ≤ size ∧ spec.period ∣ spec.epochOf state.slot + 1) ∧
        halt = .refused (.listFull list historicalRootsLimit) := by
  rcases Nat.lt_or_ge size historicalRootsLimit with hlt | hge
  · rw [appending_eq_ok hE hP hnext hlt]
    simp [Nat.not_le.2 hlt]
  · rw [appending, startsPeriod_eq_ok hE hP hnext, room_of_ge hge]
    by_cases h : spec.period ∣ spec.epochOf state.slot + 1
    · simp [h, hge, eq_comm]
    · simp [h]

/-- Whatever the profile, there is a result only where there is a schedule and the list is not to
overflow, and then the end of a period decides which one it is. -/
theorem appending_eq_ok_iff {final : BeaconState} :
    appending list size spec state next = .ok final ↔
      spec.HasNext state.slot ∧ 0 < spec.period ∧
        ¬(historicalRootsLimit ≤ size ∧ spec.period ∣ spec.epochOf state.slot + 1) ∧
        (if spec.period ∣ spec.epochOf state.slot + 1 then next else state) = final := by
  rw [appending, Result.bind_eq_ok_iff]
  simp only [startsPeriod_eq_ok_iff]
  constructor
  · rintro ⟨_, ⟨hslot, hP, rfl⟩, h⟩
    refine ⟨hslot, hP, ?_⟩
    by_cases hends : spec.period ∣ spec.epochOf state.slot + 1
    · rcases Nat.lt_or_ge size historicalRootsLimit with hlt | hge
      · simpa [hends, hlt, room_of_lt hlt] using h
      · simp [hends, room_of_ge hge] at h
    · simpa [hends] using h
  · rintro ⟨hslot, hP, hroom, rfl⟩
    refine ⟨_, ⟨hslot, hP, rfl⟩, ?_⟩
    by_cases hends : spec.period ∣ spec.epochOf state.slot + 1
    · have hlt : size < historicalRootsLimit := Nat.lt_of_not_le fun hge => hroom ⟨hge, hends⟩
      simp [hends, room_of_lt hlt]
    · simp [hends]

/-- Whatever the profile, nothing else than the next state or the state itself comes out. -/
theorem appending_ok_cases {final : BeaconState}
    (h : appending list size spec state next = .ok final) : final = state ∨ final = next := by
  obtain ⟨-, -, -, rfl⟩ := appending_eq_ok_iff.1 h
  split
  · exact .inr rfl
  · exact .inl rfl

end Appending

theorem checked_eq_ok_iff {α : Type} {x : Except ChainError α} {a : α} :
    checked x = .ok a ↔ x = .ok a := by
  cases x <;> simp [checked]

theorem requireSupport_eq_ok_iff {rule : Rule} {fork : Fork} :
    requireSupport rule fork = .ok () ↔ rule.supports fork = true := by
  cases h : rule.supports fork with
  | true => simp [requireSupport_of_supports h]
  | false => simp [requireSupport_of_not_supports h]

/-- A historical rule that does not halt has found a valid state, and leaves it alone or appends the
entry to its list. -/
theorem updateRoots_ok_cases {final : BeaconState} (h : updateRoots spec state = .ok final) :
    state.validate spec = .ok () ∧ (final = state ∨ final = state.appendRoot) := by
  rw [updateRoots_eq, Result.check_bind_eq_ok_iff, Result.check_bind_eq_ok_iff,
    checked_eq_ok_iff] at h
  exact ⟨h.2.1, appending_ok_cases h.2.2⟩

theorem updateSummaries_ok_cases {final : BeaconState}
    (h : updateSummaries spec state = .ok final) :
    state.validate spec = .ok () ∧ (final = state ∨ final = state.appendSummary) := by
  rw [updateSummaries_eq, Result.check_bind_eq_ok_iff, Result.check_bind_eq_ok_iff,
    checked_eq_ok_iff] at h
  exact ⟨h.2.1, appending_ok_cases h.2.2⟩

/-- The votes are dropped exactly at the end of a voting period. -/
theorem resetVotes_eq_ok (hV : 0 < spec.epochsPerEth1VotingPeriod.toNat)
    (hslot : spec.HasNext state.slot) :
    resetVotes spec state = .ok
      (if spec.epochsPerEth1VotingPeriod.toNat ∣ spec.epochOf state.slot + 1 then
        { state with eth1DataVotes := #[] }
      else state) := by
  obtain ⟨next, hok, hval⟩ := nextEpoch_eq_ok hslot.slotsPerEpoch_pos hslot.next_lt
  rw [← hval]
  by_cases h : spec.epochsPerEth1VotingPeriod.toNat ∣ next.toNat <;>
    simp [resetVotes, hok, computed, Spec.remainder_of_pos hV, Spec.mod_eq_zero_iff, h]

/-- On a valid state the entry of the next epoch is zeroed. -/
theorem resetSlashings_eq_ok (hL : 0 < spec.epochsPerSlashingsVector.toNat)
    (hvalid : state.validate spec = .ok ()) (hslot : spec.HasNext state.slot) :
    resetSlashings spec state = .ok { state with
      slashings := state.slashings.setIfInBounds
        ((spec.epochOf state.slot + 1) % spec.epochsPerSlashingsVector.toNat) 0 } := by
  obtain ⟨next, hok, hval⟩ := nextEpoch_eq_ok hslot.slotsPerEpoch_pos hslot.next_lt
  simp [resetSlashings, hvalid, hok, checked, computed, Spec.remainder_of_pos hL,
    UInt64.toNat_mod, hval]

/-- On a valid state whose epoch is not the last one of all, the mix of the epoch is carried to the
entry of the next. -/
theorem resetMixes_eq_ok (hE : 0 < spec.slotsPerEpoch.toNat)
    (hL : 0 < spec.epochsPerHistoricalVector.toNat) (hvalid : state.validate spec = .ok ())
    (hnext : spec.epochOf state.slot + 1 < UInt64.size) :
    resetMixes spec state = .ok { state with
      randaoMixes := state.randaoMixes.setIfInBounds
        ((spec.epochOf state.slot + 1) % spec.epochsPerHistoricalVector.toNat)
        (state.randaoMixes.getD
          (spec.epochOf state.slot % spec.epochsPerHistoricalVector.toNat) Root.zero) } := by
  obtain ⟨next, hok, hval⟩ := nextEpoch_eq_ok hE hnext
  have hcurrent : (state.slot / spec.slotsPerEpoch).toNat = spec.epochOf state.slot := by
    simp [Spec.epochOf]
  simp [resetMixes, hvalid, hok, checked, computed, Spec.epochAt, Spec.quotient_of_pos hE,
    Spec.remainder_of_pos hL, UInt64.toNat_mod, hval, Spec.epochOf]

/-- The state that a rule leaves behind when it is tried: a halt leaves the state as it was. -/
def attempt (rule : Rule) (spec : Spec) (state : BeaconState) : BeaconState :=
  match rule.apply spec state with
  | .ok next => next
  | .error _ => state

theorem attempt_of_ok {rule : Rule} {next : BeaconState} (h : rule.apply spec state = .ok next) :
    rule.attempt spec state = next := by simp [attempt, h]

theorem attempt_of_error {rule : Rule} {halt : Halt ChainError}
    (h : rule.apply spec state = .error halt) : rule.attempt spec state = state := by
  simp [attempt, h]

end Rule

end BeaconReplay
