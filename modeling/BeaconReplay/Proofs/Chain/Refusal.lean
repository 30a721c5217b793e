import BeaconReplay.Proofs.Chain.Outcome

/-!
# Which refusals a rule can end in

A halt of a sequence is a halt of one of its parts, so what every part avoids the whole avoids.
With this, the refusal of a fork is pinned to the first check of the historical rules. For a
profile that fits together, a valid state and a supported fork only one refusal is left: the list
that the rule appends to is full when a period ends.
-/
namespace BeaconReplay

namespace Rule

variable {spec : Spec} {state : BeaconState} {rule : Rule} {halt : Halt ChainError}
variable {α β : Type}

/-! ## Refusals of a fork -/

/-- Whether a halt is the refusal of a fork. -/
def IsForkRefusal (halt : Halt ChainError) : Prop :=
  ∃ rule fork, halt = .refused (.unsupportedFork rule fork)

/-- A step that ends in no refusal of a fork. -/
def AcceptsFork (x : Step α) : Prop := ∀ halt, x = .error halt → ¬IsForkRefusal halt

theorem AcceptsFork.ok (a : α) : AcceptsFork (.ok a) := by
  intro halt h
  cases h

theorem AcceptsFork.bind {x : Step α} {f : α → Step β} (hx : AcceptsFork x)
    (hf : ∀ a, AcceptsFork (f a)) : AcceptsFork (x >>= f) := by
  intro halt h
  rcases Result.bind_eq_error_iff.1 h with h | ⟨a, -, h⟩
  · exact hx halt h
  · exact hf a halt h

theorem AcceptsFork.computed (x : Except Crash α) : AcceptsFork (computed x) := by
  rintro halt h ⟨rule, fork, rfl⟩
  cases x <;> simp [Rule.computed] at h

theorem AcceptsFork.checkLength (field : String) (expected : UInt64) (found : Nat) :
    AcceptsFork (checked (BeaconState.checkLength field expected found)) := by
  rintro halt h ⟨rule, fork, rfl⟩
  unfold BeaconState.checkLength at h
  split at h <;> simp [checked] at h

theorem checked_bind (x : Except ChainError α) (f : α → Except ChainError β) :
    checked (x >>= f) = checked x >>= fun a => checked (f a) := by
  cases x <;> rfl

theorem AcceptsFork.validate : AcceptsFork (checked (state.validate spec)) := by
  simp only [BeaconState.validate, checked_bind]
  exact (AcceptsFork.checkLength _ _ _).bind fun _ => (AcceptsFork.checkLength _ _ _).bind fun _ =>
    (AcceptsFork.checkLength _ _ _).bind fun _ => .checkLength _ _ _

theorem AcceptsFork.nextEpoch : AcceptsFork (nextEpoch spec state) := by
  refine (AcceptsFork.computed _).bind fun epoch => ?_
  rintro halt h ⟨rule, fork, rfl⟩
  split at h <;> simp at h

theorem AcceptsFork.startsPeriod : AcceptsFork (startsPeriod spec state) :=
  AcceptsFork.nextEpoch.bind fun _ => (AcceptsFork.computed _).bind fun _ =>
    (AcceptsFork.computed _).bind fun _ => .ok _

theorem AcceptsFork.room (list : String) (size : Nat) : AcceptsFork (room list size) := by
  rintro halt h ⟨rule, fork, rfl⟩
  unfold Rule.room at h
  split at h <;> simp at h

theorem AcceptsFork.appending (list : String) (size : Nat) (next : BeaconState) :
    AcceptsFork (appending list size spec state next) := by
  refine AcceptsFork.startsPeriod.bind fun starts => ?_
  split
  · exact (AcceptsFork.room list size).bind fun _ => .ok next
  · exact .ok state

/-- A rule accepts each fork that it supports, whatever the profile and the rest of the state. -/
theorem acceptsFork_of_supports (spec : Spec) (h : rule.supports state.fork = true) :
    AcceptsFork (rule.apply spec state) := by
  cases rule with
  | eth1DataReset =>
    refine AcceptsFork.nextEpoch.bind fun _ => (AcceptsFork.computed _).bind fun _ => ?_
    split <;> exact .ok _
  | historicalRootsUpdate =>
    rw [apply, updateRoots_eq, requireSupport_of_supports h, Result.ok_bind]
    exact AcceptsFork.validate.bind fun _ => .appending _ _ _
  | historicalSummariesUpdate =>
    rw [apply, updateSummaries_eq, requireSupport_of_supports h, Result.ok_bind]
    exact AcceptsFork.validate.bind fun _ => .appending _ _ _
  | randaoMixesReset =>
    exact AcceptsFork.validate.bind fun _ => (AcceptsFork.computed _).bind fun _ =>
      AcceptsFork.nextEpoch.bind fun _ => (AcceptsFork.computed _).bind fun _ =>
        (AcceptsFork.computed _).bind fun _ => .ok _
  | slashingsReset =>
    exact AcceptsFork.validate.bind fun _ => AcceptsFork.nextEpoch.bind fun _ =>
      (AcceptsFork.computed _).bind fun _ => .ok _

/-- A rule refuses each fork that it does not support, and names it. -/
theorem apply_of_not_supports (h : rule.supports state.fork = false) :
    rule.apply spec state = .error (.refused (.unsupportedFork rule.name state.fork)) := by
  cases rule with
  | historicalRootsUpdate => exact updateRoots_unsupported h
  | historicalSummariesUpdate => exact updateSummaries_unsupported (by simpa [supports] using h)
  | _ => simp [supports] at h

end Rule

/-! ## Profiles that fit together -/

/-- A profile for which no rule divides by zero, and for which every epoch has a next one. -/
structure Spec.Fits (spec : Spec) : Prop where
  one_lt_slotsPerEpoch : 1 < spec.slotsPerEpoch.toNat
  slotsPerEpoch_le : spec.slotsPerEpoch.toNat ≤ spec.slotsPerHistoricalRoot.toNat
  votingPeriod_pos : 0 < spec.epochsPerEth1VotingPeriod.toNat
  slashingsVector_pos : 0 < spec.epochsPerSlashingsVector.toNat
  historicalVector_pos : 0 < spec.epochsPerHistoricalVector.toNat

namespace Spec

variable {spec : Spec} {name : String}

/-- The built-in profiles are the two with a name. -/
theorem ofName_eq_ok_iff :
    ofName name = .ok spec ↔
      name = "minimal" ∧ spec = minimal ∨ name = "mainnet" ∧ spec = mainnet := by
  unfold ofName
  split
  · simp_all [eq_comm]
  · split <;> simp_all [eq_comm]

/-- The built-in profiles fit together. -/
theorem fits_of_ofName (h : ofName name = .ok spec) : spec.Fits := by
  rcases ofName_eq_ok_iff.1 h with ⟨-, rfl⟩ | ⟨-, rfl⟩ <;> constructor <;> decide

namespace Fits

theorem slotsPerEpoch_pos (h : spec.Fits) : 0 < spec.slotsPerEpoch.toNat := by
  have := h.one_lt_slotsPerEpoch
  omega

theorem period_pos (h : spec.Fits) : 0 < spec.period :=
  Spec.period_pos h.slotsPerEpoch_pos h.slotsPerEpoch_le

/-- An epoch of at least two slots has a next one. -/
theorem next_lt (h : spec.Fits) (slot : UInt64) : spec.epochOf slot + 1 < UInt64.size := by
  have hslot : slot.toNat < UInt64.size := slot.toNat_lt_size
  have hdiv : slot.toNat / spec.slotsPerEpoch.toNat ≤ slot.toNat / 2 :=
    Nat.div_le_div_left h.one_lt_slotsPerEpoch (by decide)
  simp only [epochOf, UInt64.size] at *
  omega

theorem hasNext (h : spec.Fits) (slot : UInt64) : spec.HasNext slot :=
  ⟨h.slotsPerEpoch_pos, h.next_lt slot⟩

end Fits

end Spec

namespace Rule

variable {spec : Spec} {state : BeaconState} {rule : Rule} {halt : Halt ChainError}

/-- A rule is to append to a list that is full: a period ends, and the list has no room. -/
def Overfills (spec : Spec) (state : BeaconState) : Rule → Prop
  | historicalRootsUpdate =>
    historicalRootsLimit ≤ state.historicalRoots.size ∧ spec.period ∣ spec.epochOf state.slot + 1
  | historicalSummariesUpdate =>
    historicalRootsLimit ≤ state.historicalSummaries.size ∧
      spec.period ∣ spec.epochOf state.slot + 1
  | _ => False

theorem overfills_iff : rule.Overfills spec state ↔
    (rule = .historicalRootsUpdate ∧ historicalRootsLimit ≤ state.historicalRoots.size ∨
      rule = .historicalSummariesUpdate ∧
        historicalRootsLimit ≤ state.historicalSummaries.size) ∧
      spec.period ∣ spec.epochOf state.slot + 1 := by
  cases rule <;> simp [Overfills]

/-- The name of the list that a rule appends to; the resets append to none. -/
def listName : Rule → String
  | historicalRootsUpdate => "historical_roots"
  | historicalSummariesUpdate => "historical_summaries"
  | _ => ""

theorem resetVotes_ok (hfits : spec.Fits) (state : BeaconState) :
    ∃ next, resetVotes spec state = .ok next :=
  ⟨_, resetVotes_eq_ok hfits.votingPeriod_pos (hfits.hasNext state.slot)⟩

theorem resetSlashings_ok (hfits : spec.Fits) (hvalid : state.validate spec = .ok ()) :
    ∃ next, resetSlashings spec state = .ok next :=
  ⟨_, resetSlashings_eq_ok hfits.slashingsVector_pos hvalid (hfits.hasNext state.slot)⟩

theorem resetMixes_ok (hfits : spec.Fits) (hvalid : state.validate spec = .ok ()) :
    ∃ next, resetMixes spec state = .ok next :=
  ⟨_, resetMixes_eq_ok hfits.slotsPerEpoch_pos hfits.historicalVector_pos hvalid
    (hfits.next_lt state.slot)⟩

/-- **A rule halts on a valid state of a supported fork exactly if it overfills its list.** -/
theorem apply_eq_error_iff (hfits : spec.Fits) (hvalid : state.validate spec = .ok ())
    (hfork : rule.supports state.fork = true) : rule.apply spec state = .error halt ↔
      rule.Overfills spec state ∧
        halt = .refused (.listFull rule.listName historicalRootsLimit) := by
  have hE := hfits.slotsPerEpoch_pos
  have hP := hfits.period_pos
  have hnext := hfits.next_lt state.slot
  cases rule with
  | eth1DataReset =>
    obtain ⟨next, hok⟩ := resetVotes_ok hfits state
    simp [apply, hok, Overfills]
  | randaoMixesReset =>
    obtain ⟨next, hok⟩ := resetMixes_ok hfits hvalid
    simp [apply, hok, Overfills]
  | slashingsReset =>
    obtain ⟨next, hok⟩ := resetSlashings_ok hfits hvalid
    simp [apply, hok, Overfills]
  | historicalRootsUpdate =>
    rw [apply, updateRoots_eq_of_valid hfork hvalid]
    exact appending_eq_error_iff hE hP hnext
  | historicalSummariesUpdate =>
    rw [apply, updateSummaries_eq_of_valid (by simpa [supports] using hfork) hvalid]
    exact appending_eq_error_iff hE hP hnext

end Rule

end BeaconReplay
