import BeaconReplay.Proofs.Chain.Order

/-!
# Rules that are repeated at one slot

A reset finds its own work done: applied again it changes nothing, also where the mix that it reads
is the one that it has written. A historical rule has no memory of what it has appended, so at the
end of a period it appends an equal entry each time, up to the limit of its list.
-/
namespace BeaconReplay

namespace Rule

variable {spec : Spec} {s t : BeaconState} {rule : Rule}

/-! ## Repetition -/

theorem applyAll_append (rules others : List Rule) (spec : Spec) (s : BeaconState) :
    applyAll (rules ++ others) spec s = applyAll rules spec s >>= applyAll others spec :=
  List.foldlM_append

/-- A rule that leaves a state as it is can be repeated on it. -/
theorem applyAll_replicate_of_fixed (h : rule.apply spec s = .ok s) (k : ℕ) :
    applyAll (List.replicate k rule) spec s = .ok s := by
  induction k with
  | zero => rfl
  | succ k ih => rw [List.replicate_succ, applyAll_cons, h, Result.ok_bind, ih]

section Steps

variable {σ : ℕ → BeaconState} {k n : ℕ}

/-- A repeated rule goes from state to state. -/
theorem applyAll_replicate_eq_ok (hstep : ∀ j < k, rule.apply spec (σ j) = .ok (σ (j + 1))) :
    applyAll (List.replicate k rule) spec (σ 0) = .ok (σ k) := by
  induction k with
  | zero => rfl
  | succ k ih =>
    have hbefore := ih fun j hj => hstep j (hj.trans k.lt_succ_self)
    rw [List.replicate_succ', applyAll_append, hbefore, Result.ok_bind, applyAll_cons,
      hstep k k.lt_succ_self]
    rfl

/-- It halts with the first of its applications that does. -/
theorem applyAll_replicate_eq_error {halt : Halt ChainError}
    (hstep : ∀ j < k, rule.apply spec (σ j) = .ok (σ (j + 1)))
    (hhalt : rule.apply spec (σ k) = .error halt) (hn : k < n) :
    applyAll (List.replicate n rule) spec (σ 0) = .error halt := by
  obtain ⟨m, rfl⟩ := Nat.exists_eq_add_of_lt hn
  rw [Nat.add_assoc, Nat.add_comm m 1, List.replicate_add, applyAll_append,
    applyAll_replicate_eq_ok hstep, Result.ok_bind, List.replicate_add, List.replicate_one,
    List.singleton_append, applyAll_cons, hhalt, Result.error_bind]

end Steps

/-! ## Resets -/

/-- The rules that clear or carry over what the next epoch is to find. -/
def resets : List Rule := [eth1DataReset, randaoMixesReset, slashingsReset]

/-- Carrying an entry forward twice is the same as once: the second time the entry is the same, or
it is the one that has been written. -/
theorem carry_twice (mixes : Array Root) (i j : ℕ) :
    let carried := mixes.setIfInBounds j (mixes.getD i Root.zero)
    carried.setIfInBounds j (carried.getD i Root.zero) = carried := by
  intro carried
  rcases Nat.lt_or_ge j mixes.size with hj | hj
  · have hsame : carried.getD i Root.zero = mixes.getD i Root.zero := by
      by_cases hij : i = j
      · simp [carried, hij, hj]
      · simp [carried, Array.getD_eq_getD_getElem?, Array.getElem?_setIfInBounds_ne (Ne.symm hij)]
    rw [hsame, Array.setIfInBounds_setIfInBounds]
  · exact Array.setIfInBounds_eq_of_size_le (by simpa [carried] using hj)

theorem effect_votes_twice : effect .eth1DataReset spec (effect .eth1DataReset spec s) =
    effect .eth1DataReset spec s := by
  by_cases hends : spec.epochsPerEth1VotingPeriod.toNat ∣ spec.epochOf s.slot + 1
  · rw [effect_votes.trans (if_pos hends)]
    exact effect_votes.trans (if_pos hends)
  · rw [effect_votes.trans (if_neg hends)]
    exact effect_votes.trans (if_neg hends)

/-- A reset finds its own work done. -/
theorem effect_twice (hreset : rule ∈ resets) :
    rule.effect spec (rule.effect spec s) = rule.effect spec s := by
  cases rule with
  | eth1DataReset => exact effect_votes_twice
  | randaoMixesReset =>
    exact congrArg (fun mixes => { s with randaoMixes := mixes }) (carry_twice s.randaoMixes _ _)
  | slashingsReset =>
    exact congrArg (fun slashings => { s with slashings := slashings })
      (Array.setIfInBounds_setIfInBounds ..)
  | _ => simp [resets] at hreset

/-- A reset is ready again behind itself. -/
theorem ready_effect_of_reset (hreset : rule ∈ resets) (h : rule.Ready spec s) :
    rule.Ready spec (rule.effect spec s) where
  supported := by simpa [effect] using h.supported
  valid := fun hne => (validate_effect spec).trans (h.valid hne)
  hasNext := by simpa [effect] using h.hasNext
  cycle_pos := h.cycle_pos
  room := by cases rule <;> simp [Overfills, resets] at hreset ⊢

/-- **A reset that is repeated has the result of the first time.** -/
theorem applyAll_replicate_reset (hreset : rule ∈ resets) (h : rule.apply spec s = .ok t) {k : ℕ}
    (hk : 1 ≤ k) : applyAll (List.replicate k rule) spec s = .ok t := by
  obtain ⟨hready, rfl⟩ := apply_eq_ok_iff.1 h
  have hagain : rule.apply spec (rule.effect spec s) = .ok (rule.effect spec s) :=
    (apply_of_ready (ready_effect_of_reset hreset hready)).trans
      (congrArg Except.ok (effect_twice hreset))
  obtain ⟨k, rfl⟩ := Nat.exists_eq_add_of_le' hk
  rw [List.replicate_succ, applyAll_cons, h, Result.ok_bind]
  exact applyAll_replicate_of_fixed hagain k

end Rule

/-! ## Histories -/

namespace BeaconState

/-- The state with the root of its batch appended `k` times. -/
def appendRoots (s : BeaconState) (k : ℕ) : BeaconState :=
  { s with historicalRoots := s.historicalRoots ++ Array.replicate k (Rule.batchRoot s) }

/-- The state with its summary appended `k` times. -/
def appendSummaries (s : BeaconState) (k : ℕ) : BeaconState :=
  { s with historicalSummaries := s.historicalSummaries ++ Array.replicate k (Rule.summary s) }

variable {s : BeaconState} {k : ℕ}

@[simp] theorem appendRoots_zero : s.appendRoots 0 = s := by simp [appendRoots]

@[simp] theorem appendSummaries_zero : s.appendSummaries 0 = s := by simp [appendSummaries]

/-- What is appended does not depend on the history. -/
theorem appendRoot_appendRoots : (s.appendRoots k).appendRoot = s.appendRoots (k + 1) := by
  simp only [appendRoot, appendRoots, Array.replicate_succ, Array.push_append]
  rfl

theorem appendSummary_appendSummaries :
    (s.appendSummaries k).appendSummary = s.appendSummaries (k + 1) := by
  simp only [appendSummary, appendSummaries, Array.replicate_succ, Array.push_append]
  rfl

end BeaconState

namespace Rule

variable {spec : Spec} {s t : BeaconState} {rule : Rule}

/-- A rule that is repeated on a state `s` with a list of `size` entries: inside a period it keeps
the state, and at the end of one it goes on to `σ k` with its `k`-th entry, until an entry would be
one too many for the list. -/
structure Accumulates (rule : Rule) (spec : Spec) (s : BeaconState) (list : String) (size : ℕ)
    (σ : ℕ → BeaconState) : Prop where
  kept : ¬spec.period ∣ spec.epochOf s.slot + 1 →
    ∀ k, applyAll (List.replicate k rule) spec s = .ok s
  appended : spec.period ∣ spec.epochOf s.slot + 1 → ∀ k, size + k ≤ historicalRootsLimit →
    applyAll (List.replicate k rule) spec s = .ok (σ k)
  full : spec.period ∣ spec.epochOf s.slot + 1 → ∀ k, historicalRootsLimit < size + k →
    applyAll (List.replicate k rule) spec s =
      .error (.refused (.listFull list historicalRootsLimit))

/-- Each application of a historical rule is decided by the schedule and by the room left. -/
theorem Accumulates.of_appending {list : String} {size : ℕ} {σ : ℕ → BeaconState}
    (hslot : spec.HasNext s.slot) (hP : 0 < spec.period)
    (hsize : spec.period ∣ spec.epochOf s.slot + 1 → size < historicalRootsLimit)
    (hstart : σ 0 = s) (hfixed : ∀ k, (σ k).slot = s.slot)
    (hstep : ∀ k, rule.apply spec (σ k) = appending list (size + k) spec (σ k) (σ (k + 1))) :
    Accumulates rule spec s list size σ := by
  subst hstart
  have hE := hslot.slotsPerEpoch_pos
  have hnext : ∀ k, spec.epochOf (σ k).slot + 1 < UInt64.size := by
    intro k
    rw [hfixed k]
    exact hslot.next_lt
  have hgo : spec.period ∣ spec.epochOf (σ 0).slot + 1 → ∀ k, size + k < historicalRootsLimit →
      rule.apply spec (σ k) = .ok (σ (k + 1)) := by
    intro hends k hk
    rw [hstep k, appending_eq_ok hE hP (hnext k) hk, hfixed k, if_pos hends]
  constructor
  · intro hinside k
    refine applyAll_replicate_of_fixed ?_ k
    rw [hstep 0]
    exact appending_eq_ok_iff.2 ⟨hslot, hP, fun hfull => hinside hfull.2, if_neg hinside⟩
  · intro hends k hk
    exact applyAll_replicate_eq_ok fun j hj => hgo hends j (by omega)
  · intro hends k hk
    -- the application that finds the list full is the first one to halt
    have hroom := hsize hends
    refine applyAll_replicate_eq_error (k := historicalRootsLimit - size)
      (fun j hj => hgo hends j (by omega)) ?_ (by omega)
    rw [hstep]
    refine (appending_eq_error_iff hE hP (hnext _)).2 ⟨⟨by omega, ?_⟩, rfl⟩
    rwa [hfixed]

theorem accumulates_roots (h : Ready .historicalRootsUpdate spec s) :
    Accumulates .historicalRootsUpdate spec s "historical_roots" s.historicalRoots.size
      s.appendRoots := by
  refine .of_appending h.hasNext h.cycle_pos ?_ BeaconState.appendRoots_zero (fun k => rfl) ?_
  · intro hends
    exact Nat.lt_of_not_le fun hfull => h.room ⟨hfull, hends⟩
  · intro k
    have hsize : (s.appendRoots k).historicalRoots.size = s.historicalRoots.size + k := by
      simp [BeaconState.appendRoots]
    rw [← hsize, ← BeaconState.appendRoot_appendRoots]
    exact updateRoots_eq_of_valid h.supported (h.valid (by decide))

theorem accumulates_summaries (h : Ready .historicalSummariesUpdate spec s) :
    Accumulates .historicalSummariesUpdate spec s "historical_summaries"
      s.historicalSummaries.size s.appendSummaries := by
  have hfork : s.fork.before .capella = false := by simpa [supports] using h.supported
  refine .of_appending h.hasNext h.cycle_pos ?_ BeaconState.appendSummaries_zero (fun k => rfl) ?_
  · intro hends
    exact Nat.lt_of_not_le fun hfull => h.room ⟨hfull, hends⟩
  · intro k
    have hsize : (s.appendSummaries k).historicalSummaries.size =
        s.historicalSummaries.size + k := by
      simp [BeaconState.appendSummaries]
    rw [← hsize, ← BeaconState.appendSummary_appendSummaries]
    exact updateSummaries_eq_of_valid hfork (h.valid (by decide))

/-- **Repeating a rule at one slot**, where it has a result once. A reset has the same result every
time. A historical rule does nothing inside a period; at the end of one it appends an equal entry
each time, and it is refused when its list is full. -/
theorem repetition_at_one_slot (spec : Spec) (s t : BeaconState) :
    (∀ rule ∈ resets, rule.apply spec s = .ok t →
      ∀ k, 1 ≤ k → applyAll (List.replicate k rule) spec s = .ok t) ∧
    (apply .historicalSummariesUpdate spec s = .ok t →
      Accumulates .historicalSummariesUpdate spec s "historical_summaries"
        s.historicalSummaries.size s.appendSummaries) ∧
    (apply .historicalRootsUpdate spec s = .ok t →
      Accumulates .historicalRootsUpdate spec s "historical_roots" s.historicalRoots.size
        s.appendRoots) := by
  refine ⟨?_, ?_, ?_⟩
  · intro rule hreset happly k hk
    exact applyAll_replicate_reset hreset happly hk
  · intro happly
    exact accumulates_summaries (ready_of_apply happly)
  · intro happly
    exact accumulates_roots (ready_of_apply happly)

/-- A state at the end of a period whose lists have room for two more entries. -/
def nearlyFull (fork : Fork) : BeaconState :=
  { BeaconState.new pairs fork with
    slot := 1
    historicalRoots := Array.replicate (historicalRootsLimit - 2) Root.zero
    historicalSummaries := Array.replicate (historicalRootsLimit - 2) default }

theorem ready_nearlyFull {fork : Fork} (hfork : rule.supports fork = true) :
    rule.Ready pairs (nearlyFull fork) where
  supported := hfork
  valid := fun _ => rfl
  hasNext := ⟨by decide, (by decide : pairs.epochOf 1 + 1 < UInt64.size)⟩
  cycle_pos := by cases rule <;> decide
  room := by cases rule <;> simp [Overfills, nearlyFull, historicalRootsLimit]

/-- With room for two entries, the third application of a historical rule is refused; a ring of two
epochs is carried forward any number of times. -/
theorem repetition_of_nearlyFull :
    (∃ t, apply .randaoMixesReset pairs (nearlyFull .deneb) = .ok t ∧
      applyAll (List.replicate 5 .randaoMixesReset) pairs (nearlyFull .deneb) = .ok t) ∧
    applyAll (List.replicate 2 .historicalSummariesUpdate) pairs (nearlyFull .deneb) =
      .ok ((nearlyFull .deneb).appendSummaries 2) ∧
    applyAll (List.replicate 3 .historicalSummariesUpdate) pairs (nearlyFull .deneb) =
      .error (.refused (.listFull "historical_summaries" historicalRootsLimit)) ∧
    applyAll (List.replicate 2 .historicalRootsUpdate) pairs (nearlyFull .altair) =
      .ok ((nearlyFull .altair).appendRoots 2) := by
  have hends : pairs.period ∣ pairs.epochOf 1 + 1 := by decide
  have hmixes : apply .randaoMixesReset pairs (nearlyFull .deneb) = .ok _ :=
    apply_of_ready (ready_nearlyFull rfl)
  have hsummaries : apply .historicalSummariesUpdate pairs (nearlyFull .deneb) = .ok _ :=
    apply_of_ready (ready_nearlyFull rfl)
  have hroots : apply .historicalRootsUpdate pairs (nearlyFull .altair) = .ok _ :=
    apply_of_ready (ready_nearlyFull rfl)
  have hreset := (repetition_at_one_slot pairs _ _).1 .randaoMixesReset (by decide) hmixes 5
    (by decide)
  have hs := (repetition_at_one_slot pairs _ _).2.1 hsummaries
  have hr := (repetition_at_one_slot pairs _ _).2.2 hroots
  refine ⟨⟨_, hmixes, hreset⟩, hs.appended hends 2 ?_, hs.full hends 3 ?_, hr.appended hends 2 ?_⟩
  all_goals simp [nearlyFull, historicalRootsLimit]

end Rule

end BeaconReplay
