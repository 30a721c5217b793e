import BeaconReplay.Proofs.Chain.Effect

/-!
# The checks of a rule in their order

A rule makes its checks one after the other. The first one that fails decides what the rule ends
in, and behind the last one the rule has its effect: the checks say in full what comes of any
profile and any state. Behind them no index is out of bounds, so for a profile without a zero among
its divisors no rule crashes.
-/
namespace BeaconReplay

namespace Spec

/-- A profile without a zero among the divisors of the rules. -/
structure DivisorsPos (spec : Spec) : Prop where
  slotsPerEpoch_pos : 0 < spec.slotsPerEpoch.toNat
  slotsPerEpoch_le : spec.slotsPerEpoch.toNat ≤ spec.slotsPerHistoricalRoot.toNat
  votingPeriod_pos : 0 < spec.epochsPerEth1VotingPeriod.toNat
  slashingsVector_pos : 0 < spec.epochsPerSlashingsVector.toNat
  historicalVector_pos : 0 < spec.epochsPerHistoricalVector.toNat

/-- The last epoch of all is reached only where an epoch has one slot. -/
theorem div_eq_last_iff {slot length : UInt64} (hpos : 0 < length.toNat) :
    slot / length = 0xffffffffffffffff ↔ length = 1 ∧ slot = 0xffffffffffffffff := by
  have hslot : slot.toNat < UInt64.size := slot.toNat_lt_size
  rw [← UInt64.toNat_inj, ← UInt64.toNat_inj, ← UInt64.toNat_inj, UInt64.toNat_div]
  change slot.toNat / length.toNat = UInt64.size - 1 ↔ length.toNat = 1 ∧
    slot.toNat = UInt64.size - 1
  constructor
  · intro h
    have hone : length.toNat = 1 := by
      by_contra hne
      have hhalf : slot.toNat / length.toNat ≤ slot.toNat / 2 :=
        Nat.div_le_div_left (by omega) two_pos
      simp only [UInt64.size] at *
      omega
    rw [hone, Nat.div_one] at h
    exact ⟨hone, h⟩
  · rintro ⟨hone, hlast⟩
    rw [hone, Nat.div_one, hlast]

end Spec

namespace Rule

variable {α β : Type}

/-! ## Checks -/

/-- A check: whether it fails, and what a step that makes it then ends in. -/
structure Check where
  fails : Bool
  halt : Halt ChainError

/-- The halt of the first check that fails. -/
def firstHalt (checks : List Check) : Option (Halt ChainError) :=
  (checks.find? Check.fails).map Check.halt

/-- The halt of a step that has no result. -/
def haltOf : Step α → Option (Halt ChainError)
  | .ok _ => none
  | .error halt => some halt

/-- A step that checks decide: it ends in the halt of the first one that fails, and it has a result
if none does. -/
def DecidedBy (checks : List Check) (x : Step α) : Prop := haltOf x = firstHalt checks

theorem firstHalt_append (before behind : List Check) :
    firstHalt (before ++ behind) = (firstHalt before).or (firstHalt behind) := by
  simp only [firstHalt, List.find?_append]
  cases before.find? Check.fails <;> rfl

theorem haltOf_eq_some_iff {x : Step α} {halt : Halt ChainError} :
    haltOf x = some halt ↔ x = .error halt := by
  cases x <;> simp [haltOf]

theorem haltOf_eq_none_iff {x : Step α} : haltOf x = none ↔ ∃ a, x = .ok a := by
  cases x <;> simp [haltOf]

namespace DecidedBy

theorem ok (a : α) : DecidedBy [] (.ok a) := rfl

/-- A step that makes one check. -/
theorem check {fails : Bool} {halt : Halt ChainError} {x : Step α}
    (hfails : fails = true → x = .error halt) (hpasses : fails = false → ∃ a, x = .ok a) :
    DecidedBy [⟨fails, halt⟩] x := by
  cases fails with
  | true => rw [hfails rfl]; rfl
  | false => obtain ⟨a, rfl⟩ := hpasses rfl; rfl

/-- The checks of a sequence are those of its first part, and behind them those of the part that
follows. -/
theorem bind {before behind : List Check} {x : Step α} {f : α → Step β}
    (hx : DecidedBy before x) (hf : ∀ a, x = .ok a → DecidedBy behind (f a)) :
    DecidedBy (before ++ behind) (x >>= f) := by
  rw [DecidedBy, firstHalt_append, ← hx]
  cases x with
  | error halt => rfl
  | ok a => exact hf a rfl

/-- A first part that makes no check. -/
theorem bind_ok {checks : List Check} {x : Step α} {f : α → Step β} {a : α} (hx : x = .ok a)
    (hf : DecidedBy checks (f a)) : DecidedBy checks (x >>= f) := by
  rw [hx]
  exact hf

end DecidedBy

/-! ## The checks of the rules -/

section Checks

variable (spec : Spec) (s : BeaconState)

/-- The historical rules meet at Capella: the one is for the forks before it, the other for those
from it on. -/
def forkChecks : Rule → List Check
  | historicalRootsUpdate =>
    [⟨!s.fork.before .capella, .refused (.unsupportedFork "historical_roots_update" s.fork)⟩]
  | historicalSummariesUpdate =>
    [⟨s.fork.before .capella, .refused (.unsupportedFork "historical_summaries_update" s.fork)⟩]
  | _ => []

/-- A vector has the length that a parameter gives. -/
def lengthCheck (field : String) (expected : UInt64) (found : ℕ) : Check :=
  ⟨expected.toNat != found, .refused (.invalidLength field expected.toNat found)⟩

/-- All rules but the one for the votes look at the lengths of the vectors. -/
def lengthChecks : Rule → List Check
  | eth1DataReset => []
  | _ =>
    [lengthCheck "block_roots" spec.slotsPerHistoricalRoot s.blockRoots.size,
     lengthCheck "state_roots" spec.slotsPerHistoricalRoot s.stateRoots.size,
     lengthCheck "randao_mixes" spec.epochsPerHistoricalVector s.randaoMixes.size,
     lengthCheck "slashings" spec.epochsPerSlashingsVector s.slashings.size]

/-- The slot has an epoch, and the epoch a next one. -/
def epochChecks : List Check :=
  [⟨spec.slotsPerEpoch == 0, .crashed .divideByZero⟩,
   ⟨spec.slotsPerEpoch == 1 && s.slot == 0xffffffffffffffff, .refused (.slotOverflow s.slot)⟩]

/-- The divisor of the next epoch is not zero. That of the historical rules is the number of whole
epochs in a period. -/
def divisorCheck : Rule → Check
  | eth1DataReset => ⟨spec.epochsPerEth1VotingPeriod == 0, .crashed .remainderByZero⟩
  | historicalRootsUpdate | historicalSummariesUpdate =>
    ⟨decide (spec.slotsPerHistoricalRoot < spec.slotsPerEpoch), .crashed .remainderByZero⟩
  | randaoMixesReset => ⟨spec.epochsPerHistoricalVector == 0, .crashed .remainderByZero⟩
  | slashingsReset => ⟨spec.epochsPerSlashingsVector == 0, .crashed .remainderByZero⟩

/-- At the end of a period the list has room for an entry. -/
def roomCheck (list : String) (size : ℕ) : Check :=
  ⟨decide (spec.period ∣ spec.epochOf s.slot + 1 ∧ historicalRootsLimit ≤ size),
    .refused (.listFull list historicalRootsLimit)⟩

/-- Only the historical rules add to a list. -/
def roomChecks : Rule → List Check
  | historicalRootsUpdate => [roomCheck spec s "historical_roots" s.historicalRoots.size]
  | historicalSummariesUpdate =>
    [roomCheck spec s "historical_summaries" s.historicalSummaries.size]
  | _ => []

/-- What a rule checks, in its order. -/
def checks (rule : Rule) : List Check :=
  rule.forkChecks s ++ (rule.lengthChecks spec s ++
    (epochChecks spec s ++ (rule.divisorCheck spec :: rule.roomChecks spec s)))

end Checks

variable {spec : Spec} {state : BeaconState} {rule : Rule}

/-! ## The parts of the rules -/

theorem decidedBy_requireSupport (rule : Rule) (fork : Fork) :
    DecidedBy [⟨!rule.supports fork, .refused (.unsupportedFork rule.name fork)⟩]
      (requireSupport rule fork) := by
  apply DecidedBy.check <;> intro h <;> simp_all [requireSupport, gate]

theorem decidedBy_checkLength (field : String) (expected : UInt64) (found : ℕ) :
    DecidedBy [lengthCheck field expected found]
      (checked (BeaconState.checkLength field expected found)) := by
  apply DecidedBy.check <;> intro h <;> simp_all [BeaconState.checkLength, checked]

theorem decidedBy_validate : DecidedBy (slashingsReset.lengthChecks spec state)
    (checked (state.validate spec)) := by
  simp only [BeaconState.validate, checked_bind]
  exact (decidedBy_checkLength ..).bind fun _ _ => (decidedBy_checkLength ..).bind fun _ _ =>
    (decidedBy_checkLength ..).bind fun _ _ => decidedBy_checkLength ..

theorem decidedBy_quotient (a b : UInt64) :
    DecidedBy [⟨b == 0, .crashed .divideByZero⟩] (computed (Spec.quotient a b)) := by
  apply DecidedBy.check <;> intro h <;> simp_all [Spec.quotient, computed]

theorem decidedBy_remainder (a b : UInt64) :
    DecidedBy [⟨b == 0, .crashed .remainderByZero⟩] (computed (Spec.remainder a b)) := by
  apply DecidedBy.check <;> intro h <;> simp_all [Spec.remainder, computed]

/-- Only at the last slot of all, and with epochs of one slot, is there no next epoch. -/
theorem decidedBy_nextEpoch : DecidedBy (epochChecks spec state) (nextEpoch spec state) := by
  refine (decidedBy_quotient state.slot spec.slotsPerEpoch).bind fun epoch hepoch => ?_
  obtain ⟨hpos, rfl⟩ := Spec.quotient_eq_ok_iff.1 (computed_eq_ok_iff.1 hepoch)
  have hlast : state.slot / spec.slotsPerEpoch = 0xffffffffffffffff ↔ _ := Spec.div_eq_last_iff hpos
  apply DecidedBy.check
  · intro h
    rw [Bool.and_eq_true, beq_iff_eq, beq_iff_eq] at h
    rw [if_pos (hlast.2 h)]
  · intro h
    have hne : ¬state.slot / spec.slotsPerEpoch = 0xffffffffffffffff := by
      rw [hlast]
      simpa using h
    rw [if_neg hne]
    exact ⟨_, rfl⟩

/-- Where the slot has an epoch, only the second check of the next one is left. -/
theorem decidedBy_nextEpoch_of_pos (hE : 0 < spec.slotsPerEpoch.toNat) :
    DecidedBy (epochChecks spec state).tail (nextEpoch spec state) := by
  have hne : (spec.slotsPerEpoch == 0) = false := by
    rw [beq_eq_false_iff_ne]
    rintro h
    simp [h] at hE
  rw [DecidedBy, decidedBy_nextEpoch]
  simp [firstHalt, epochChecks, hne]

theorem decidedBy_room (list : String) (size : ℕ) :
    DecidedBy [⟨decide (historicalRootsLimit ≤ size),
      .refused (.listFull list historicalRootsLimit)⟩] (room list size) := by
  apply DecidedBy.check
  · intro h
    exact room_of_ge (of_decide_eq_true h)
  · intro h
    exact ⟨(), room_of_lt (Nat.lt_of_not_le (of_decide_eq_false h))⟩

/-- The quotient of the two lengths is zero if an epoch is longer than the historical vectors. -/
theorem period_eq_zero_iff (hE : 0 < spec.slotsPerEpoch.toNat) :
    spec.slotsPerHistoricalRoot / spec.slotsPerEpoch = 0 ↔
      spec.slotsPerHistoricalRoot < spec.slotsPerEpoch := by
  rw [← UInt64.toNat_inj, UInt64.toNat_div, UInt64.lt_iff_toNat_lt]
  change _ / _ = 0 ↔ _
  rw [Nat.div_eq_zero_iff]
  omega

theorem decidedBy_startsPeriod : DecidedBy (epochChecks spec state ++
      [historicalRootsUpdate.divisorCheck spec]) (startsPeriod spec state) := by
  refine decidedBy_nextEpoch.bind fun next hnext => ?_
  have hE := (nextEpoch_eq_ok_iff.1 hnext).1.slotsPerEpoch_pos
  refine .bind_ok (congrArg computed (Spec.quotient_of_pos hE)) ?_
  have hzero : (spec.slotsPerHistoricalRoot / spec.slotsPerEpoch == 0) =
      decide (spec.slotsPerHistoricalRoot < spec.slotsPerEpoch) := by
    rw [Bool.eq_iff_iff, beq_iff_eq, decide_eq_true_iff, period_eq_zero_iff hE]
  have hrem := decidedBy_remainder next (spec.slotsPerHistoricalRoot / spec.slotsPerEpoch)
  rw [hzero] at hrem
  exact hrem.bind fun r _ => DecidedBy.ok _

/-- What the historical rules share makes the checks of the schedule, and behind them that of the
room. -/
theorem decidedBy_appending (list : String) (size : ℕ) (next : BeaconState) :
    DecidedBy (epochChecks spec state ++ [historicalRootsUpdate.divisorCheck spec,
      roomCheck spec state list size]) (appending list size spec state next) := by
  have hschedule : DecidedBy _ (startsPeriod spec state) := decidedBy_startsPeriod
  refine hschedule.bind fun starts hstarts => ?_
  obtain ⟨-, -, rfl⟩ := startsPeriod_eq_ok_iff.1 hstarts
  by_cases hends : spec.period ∣ spec.epochOf state.slot + 1
  · simp only [hends, decide_true, if_true, roomCheck, true_and]
    exact (decidedBy_room list size).bind fun _ _ => DecidedBy.ok next
  · simp only [hends, decide_false, Bool.false_eq_true, if_false, roomCheck, false_and]
    exact DecidedBy.check nofun fun _ => ⟨state, rfl⟩

/-! ## The rules -/

theorem decidedBy_resetVotes :
    DecidedBy (eth1DataReset.checks spec state) (resetVotes spec state) := by
  refine decidedBy_nextEpoch.bind fun next _ => ?_
  refine (decidedBy_remainder next spec.epochsPerEth1VotingPeriod).bind fun r _ => ?_
  change DecidedBy [] _
  split <;> exact DecidedBy.ok _

theorem decidedBy_updateRoots :
    DecidedBy (historicalRootsUpdate.checks spec state) (updateRoots spec state) := by
  rw [updateRoots_eq]
  exact (decidedBy_requireSupport .historicalRootsUpdate state.fork).bind fun _ _ =>
    decidedBy_validate.bind fun _ _ => decidedBy_appending ..

theorem decidedBy_updateSummaries :
    DecidedBy (historicalSummariesUpdate.checks spec state) (updateSummaries spec state) := by
  have hsupport := decidedBy_requireSupport .historicalSummariesUpdate state.fork
  rw [supports, Bool.not_not] at hsupport
  rw [updateSummaries_eq]
  exact hsupport.bind fun _ _ => decidedBy_validate.bind fun _ _ => decidedBy_appending ..

/-- The slot is divided twice and the divisor of the ring is used twice; only the first use of
either can fail. -/
theorem decidedBy_resetMixes :
    DecidedBy (randaoMixesReset.checks spec state) (resetMixes spec state) := by
  refine decidedBy_validate.bind fun _ _ => ?_
  refine (decidedBy_quotient state.slot spec.slotsPerEpoch).bind fun current hcurrent => ?_
  have hE := (Spec.quotient_eq_ok_iff.1 (computed_eq_ok_iff.1 hcurrent)).1
  refine (decidedBy_nextEpoch_of_pos hE).bind fun next _ => ?_
  refine (decidedBy_remainder current spec.epochsPerHistoricalVector).bind fun i hi => ?_
  have hL := (Spec.remainder_eq_ok_iff.1 (computed_eq_ok_iff.1 hi)).1
  exact .bind_ok (congrArg computed (Spec.remainder_of_pos hL)) (DecidedBy.ok _)

theorem decidedBy_resetSlashings :
    DecidedBy (slashingsReset.checks spec state) (resetSlashings spec state) :=
  decidedBy_validate.bind fun _ _ => decidedBy_nextEpoch.bind fun next _ =>
    (decidedBy_remainder next spec.epochsPerSlashingsVector).bind fun _ _ => DecidedBy.ok _

/-- **Every rule is decided by its checks.** -/
theorem decidedBy_apply (rule : Rule) (spec : Spec) (state : BeaconState) :
    DecidedBy (rule.checks spec state) (rule.apply spec state) := by
  cases rule with
  | eth1DataReset => exact decidedBy_resetVotes
  | historicalRootsUpdate => exact decidedBy_updateRoots
  | historicalSummariesUpdate => exact decidedBy_updateSummaries
  | randaoMixesReset => exact decidedBy_resetMixes
  | slashingsReset => exact decidedBy_resetSlashings

theorem apply_of_firstHalt {halt : Halt ChainError}
    (h : firstHalt (rule.checks spec state) = some halt) :
    rule.apply spec state = .error halt :=
  haltOf_eq_some_iff.1 ((decidedBy_apply rule spec state).trans h)

/-- Behind the last check the rule has its effect. -/
theorem apply_of_no_halt (h : firstHalt (rule.checks spec state) = none) :
    rule.apply spec state = .ok (rule.effect spec state) := by
  obtain ⟨final, happly⟩ := haltOf_eq_none_iff.1 ((decidedBy_apply rule spec state).trans h)
  rw [happly, (apply_eq_ok_iff.1 happly).2]

/-! ## Indices -/

/-- What an index behind the end of a vector ends in. -/
def outOfBounds (length i : ℕ) : Halt ChainError :=
  .crashed (.declared ("index out of bounds: the len is " ++ toString length
    ++ " but the index is " ++ toString i))

/-- The entry of a vector at an index, if there is one. -/
def entry (xs : Array α) (i : ℕ) : Step α :=
  match xs[i]? with
  | some x => .ok x
  | none => .error (outOfBounds xs.size i)

/-- A vector with another entry at an index, if there is one. -/
def replace (xs : Array α) (i : ℕ) (x : α) : Step (Array α) :=
  if i < xs.size then .ok (xs.setIfInBounds i x) else .error (outOfBounds xs.size i)

theorem entry_of_lt {xs : Array α} {i : ℕ} (h : i < xs.size) (other : α) :
    entry xs i = .ok (xs.getD i other) := by
  simp [entry, h]

theorem replace_of_lt {xs : Array α} {i : ℕ} (h : i < xs.size) (x : α) :
    replace xs i x = .ok (xs.setIfInBounds i x) := if_pos h

/-- The slashings rule with an index that is looked at. -/
def resetSlashingsStrict (spec : Spec) (state : BeaconState) : Step BeaconState := do
  checked (state.validate spec)
  let next ← nextEpoch spec state
  let i ← computed (Spec.remainder next spec.epochsPerSlashingsVector)
  let slashings ← replace state.slashings i.toNat 0
  pure { state with slashings := slashings }

/-- The mixes rule with indices that are looked at. -/
def resetMixesStrict (spec : Spec) (state : BeaconState) : Step BeaconState := do
  checked (state.validate spec)
  let current ← computed (spec.epochAt state.slot)
  let next ← nextEpoch spec state
  let i ← computed (Spec.remainder current spec.epochsPerHistoricalVector)
  let mix ← entry state.randaoMixes i.toNat
  let j ← computed (Spec.remainder next spec.epochsPerHistoricalVector)
  let mixes ← replace state.randaoMixes j.toNat mix
  pure { state with randaoMixes := mixes }

/-- Apply a rule, and crash where an index is behind the end of its vector. -/
def applyStrict : Rule → Spec → BeaconState → Step BeaconState
  | randaoMixesReset => resetMixesStrict
  | slashingsReset => resetSlashingsStrict
  | rule => rule.apply

/-- A remainder is an index of every vector that is as long as its divisor. -/
theorem toNat_lt_of_remainder {a b r : UInt64} (h : computed (Spec.remainder a b) = .ok r) :
    r.toNat < b.toNat := by
  obtain ⟨hb, rfl⟩ := Spec.remainder_eq_ok_iff.1 (computed_eq_ok_iff.1 h)
  rw [UInt64.toNat_mod]
  exact Nat.mod_lt _ hb

theorem resetSlashingsStrict_eq (spec : Spec) (state : BeaconState) :
    resetSlashingsStrict spec state = resetSlashings spec state := by
  refine Result.bind_congr fun _ hvalid => ?_
  obtain ⟨-, -, -, hsize⟩ := BeaconState.validate_eq_ok_iff.1 (checked_eq_ok_iff.1 hvalid)
  refine Result.bind_congr fun next _ => Result.bind_congr fun i hi => ?_
  rw [replace_of_lt ((toNat_lt_of_remainder hi).trans_eq hsize.symm)]
  rfl

theorem resetMixesStrict_eq (spec : Spec) (state : BeaconState) :
    resetMixesStrict spec state = resetMixes spec state := by
  refine Result.bind_congr fun _ hvalid => ?_
  obtain ⟨-, -, hsize, -⟩ := BeaconState.validate_eq_ok_iff.1 (checked_eq_ok_iff.1 hvalid)
  refine Result.bind_congr fun current _ => Result.bind_congr fun next _ =>
    Result.bind_congr fun i hi => ?_
  rw [entry_of_lt ((toNat_lt_of_remainder hi).trans_eq hsize.symm) Root.zero, Result.ok_bind]
  refine Result.bind_congr fun j hj => ?_
  rw [replace_of_lt ((toNat_lt_of_remainder hj).trans_eq hsize.symm)]
  rfl

/-- **No index is out of bounds.** -/
theorem applyStrict_eq (rule : Rule) (spec : Spec) (state : BeaconState) :
    rule.applyStrict spec state = rule.apply spec state := by
  cases rule with
  | randaoMixesReset => exact resetMixesStrict_eq spec state
  | slashingsReset => exact resetSlashingsStrict_eq spec state
  | _ => rfl

/-! ## Crashes -/

/-- The first halt is that of a check that fails. -/
theorem exists_check_of_firstHalt {checks : List Check} {halt : Halt ChainError}
    (h : firstHalt checks = some halt) :
    ∃ check ∈ checks, check.fails = true ∧ check.halt = halt := by
  obtain ⟨check, hfind, rfl⟩ := Option.map_eq_some_iff.1 h
  exact ⟨check, List.mem_of_find?_eq_some hfind, List.find?_some hfind, rfl⟩

section Refusals

variable {check : Check}

theorem refused_of_mem_forkChecks (h : check ∈ rule.forkChecks state) :
    ∃ cause, check.halt = .refused cause := by
  cases rule with
  | historicalRootsUpdate | historicalSummariesUpdate =>
    obtain rfl := List.mem_singleton.1 h
    exact ⟨_, rfl⟩
  | _ => cases h

theorem invalidLength_of_mem_lengthChecks (h : check ∈ rule.lengthChecks spec state) :
    ∃ field expected found, check.halt = .refused (.invalidLength field expected found) := by
  cases rule with
  | eth1DataReset => cases h
  | _ =>
    simp only [lengthChecks, List.mem_cons, List.not_mem_nil, or_false] at h
    rcases h with rfl | rfl | rfl | rfl <;> exact ⟨_, _, _, rfl⟩

theorem refused_of_mem_roomChecks (h : check ∈ rule.roomChecks spec state) :
    ∃ cause, check.halt = .refused cause := by
  cases rule with
  | historicalRootsUpdate | historicalSummariesUpdate =>
    obtain rfl := List.mem_singleton.1 h
    exact ⟨_, rfl⟩
  | _ => cases h

theorem ne_zero_of_pos {b : UInt64} (h : 0 < b.toNat) : (b == 0) = false := by
  rw [beq_eq_false_iff_ne]
  rintro rfl
  simp at h

theorem divisorCheck_passes (hspec : spec.DivisorsPos) :
    (rule.divisorCheck spec).fails = false := by
  cases rule with
  | eth1DataReset => exact ne_zero_of_pos hspec.votingPeriod_pos
  | historicalRootsUpdate | historicalSummariesUpdate =>
    exact decide_eq_false (UInt64.not_lt.2 (UInt64.le_iff_toNat_le.2 hspec.slotsPerEpoch_le))
  | randaoMixesReset => exact ne_zero_of_pos hspec.historicalVector_pos
  | slashingsReset => exact ne_zero_of_pos hspec.slashingsVector_pos

/-- Without a zero among the divisors, a check that fails is a refusal. -/
theorem refused_of_mem_checks (hspec : spec.DivisorsPos) (hmem : check ∈ rule.checks spec state)
    (hfails : check.fails = true) : ∃ cause, check.halt = .refused cause := by
  simp only [checks, List.mem_append, List.mem_cons] at hmem
  rcases hmem with hmem | hmem | hmem | rfl | hmem
  · exact refused_of_mem_forkChecks hmem
  · obtain ⟨field, expected, found, hhalt⟩ := invalidLength_of_mem_lengthChecks hmem
    exact ⟨_, hhalt⟩
  · simp only [epochChecks, List.mem_cons, List.not_mem_nil, or_false] at hmem
    rcases hmem with rfl | rfl
    · rw [ne_zero_of_pos hspec.slotsPerEpoch_pos] at hfails
      cases hfails
    · exact ⟨_, rfl⟩
  · rw [divisorCheck_passes hspec] at hfails
    cases hfails
  · exact refused_of_mem_roomChecks hmem

end Refusals

/-- **The first check that fails decides what a rule ends in**, whatever the profile and the state,
and if none fails the rule has its effect. No index is out of bounds, so where no divisor is zero
there is no crash. -/
theorem first_failing_check_decides (rule : Rule) (spec : Spec) (state : BeaconState) :
    (rule.apply spec state =
      match firstHalt (rule.checks spec state) with
      | some halt => .error halt
      | none => .ok (rule.effect spec state)) ∧
    rule.applyStrict spec state = rule.apply spec state ∧
    (spec.DivisorsPos → ∀ crash, rule.applyStrict spec state ≠ .error (.crashed crash)) := by
  refine ⟨?_, applyStrict_eq rule spec state, ?_⟩
  · cases hfirst : firstHalt (rule.checks spec state) with
    | some halt => exact apply_of_firstHalt hfirst
    | none => exact apply_of_no_halt hfirst
  · intro hspec crash hcrash
    rw [applyStrict_eq] at hcrash
    have hfirst : firstHalt (rule.checks spec state) = some (.crashed crash) :=
      (decidedBy_apply rule spec state).symm.trans (haltOf_eq_some_iff.2 hcrash)
    obtain ⟨check, hmem, hfails, hhalt⟩ := exists_check_of_firstHalt hfirst
    obtain ⟨cause, hcause⟩ := refused_of_mem_checks hspec hmem hfails
    cases hhalt.symm.trans hcause

/-- Vectors of one entry and epochs of one slot. -/
def single : Spec := ⟨"single", 1, 1, 1, 1, 1⟩

/-- Every parameter is zero. -/
def void : Spec := ⟨"void", 0, 0, 0, 0, 0⟩

/-- At the last slot of all, there is no next epoch and no crash either. Where every parameter is
zero, the vectors have their lengths, and the fork comes in front of the division. -/
theorem last_slot_has_no_next :
    let last := { BeaconState.new single .capella with slot := 0xffffffffffffffff }
    single.DivisorsPos ∧
    (∀ crash, applyStrict .randaoMixesReset single last ≠ .error (.crashed crash)) ∧
    apply .randaoMixesReset single last = .error (.refused (.slotOverflow 0xffffffffffffffff)) ∧
    apply .historicalRootsUpdate void (.new void .capella) =
      .error (.refused (.unsupportedFork "historical_roots_update" .capella)) ∧
    apply .historicalSummariesUpdate void (.new void .capella) =
      .error (.crashed .divideByZero) := by
  intro last
  have hspec : single.DivisorsPos := by constructor <;> decide
  have h := first_failing_check_decides .randaoMixesReset single last
  have hroots := first_failing_check_decides .historicalRootsUpdate void (.new void .capella)
  have hsummaries := first_failing_check_decides .historicalSummariesUpdate void
    (.new void .capella)
  exact ⟨hspec, h.2.2 hspec, h.1.trans rfl, hroots.1.trans rfl, hsummaries.1.trans rfl⟩

end Rule

end BeaconReplay
