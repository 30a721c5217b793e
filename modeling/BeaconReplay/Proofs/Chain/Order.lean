import BeaconReplay.Proofs.Chain.Effect

/-!
# The order of the rules

Rules are applied from left to right, up to the first one that halts. No rule reads or writes the
part of another, and none changes what another asks for. So neighbours can change places, and every
arrangement of the same rules has the same result, whatever the profile and the state.
-/
namespace BeaconReplay.Rule

variable {spec : Spec} {state final : BeaconState} {a b rule : Rule} {rules others : List Rule}

/-! ## Two rules -/

/-- Different rules write different parts. -/
theorem setPart_comm (h : a ≠ b) (x : a.Part) (y : b.Part) (s : BeaconState) :
    a.setPart x (b.setPart y s) = b.setPart y (a.setPart x s) := by
  cases a <;> cases b <;> first | rfl | exact absurd rfl h

/-- What a rule writes does not depend on the part of another one. -/
theorem written_setPart (h : a ≠ b) (y : b.Part) (s : BeaconState) :
    a.written spec (b.setPart y s) = a.written spec s := by
  cases a <;> cases b <;> first | rfl | exact absurd rfl h

/-- Whether a list overflows does not depend on the part of another rule. -/
theorem overfills_setPart (h : a ≠ b) (y : b.Part) (s : BeaconState) :
    a.Overfills spec (b.setPart y s) = a.Overfills spec s := by
  cases a <;> cases b <;> first | rfl | exact absurd rfl h

/-- The effects of two rules come to the same in either order. -/
theorem effect_comm (h : a ≠ b) (spec : Spec) (s : BeaconState) :
    a.effect spec (b.effect spec s) = b.effect spec (a.effect spec s) := by
  calc
    a.effect spec (b.effect spec s)
        = a.setPart (a.written spec s) (b.setPart (b.written spec s) s) := by
          simp only [effect, written_setPart h]
    _ = b.setPart (b.written spec s) (a.setPart (a.written spec s) s) := setPart_comm h ..
    _ = b.effect spec (a.effect spec s) := by simp only [effect, written_setPart h.symm]

/-- A rule is ready behind another one exactly if it is ready in front of it. -/
theorem ready_effect_iff (h : a ≠ b) :
    a.Ready spec (b.effect spec state) ↔ a.Ready spec state := by
  have hroom : a.Overfills spec (b.effect spec state) = a.Overfills spec state :=
    overfills_setPart h ..
  constructor
  · intro hready
    exact {
      supported := by simpa [effect] using hready.supported
      valid := fun hne => (validate_effect spec).symm.trans (hready.valid hne)
      hasNext := by simpa [effect] using hready.hasNext
      cycle_pos := hready.cycle_pos
      room := hroom ▸ hready.room }
  · intro hready
    exact {
      supported := by simpa [effect] using hready.supported
      valid := fun hne => (validate_effect spec).trans (hready.valid hne)
      hasNext := by simpa [effect] using hready.hasNext
      cycle_pos := hready.cycle_pos
      room := hroom ▸ hready.room }

/-! ## Lists of rules -/

/-- Apply rules from left to right, up to the first one that halts. -/
def applyAll (rules : List Rule) (spec : Spec) (state : BeaconState) : Step BeaconState :=
  rules.foldlM (fun s rule => rule.apply spec s) state

theorem applyAll_cons : applyAll (rule :: rules) spec state =
    rule.apply spec state >>= applyAll rules spec := rfl

/-- A list of rules has a result if its first rule is ready and the others have a result behind. -/
theorem applyAll_cons_eq_ok_iff : applyAll (rule :: rules) spec state = .ok final ↔
    rule.Ready spec state ∧ applyAll rules spec (rule.effect spec state) = .ok final := by
  rw [applyAll_cons, Result.bind_eq_ok_iff]
  constructor
  · rintro ⟨next, hnext, hrest⟩
    obtain ⟨hready, rfl⟩ := apply_eq_ok_iff.1 hnext
    exact ⟨hready, hrest⟩
  · rintro ⟨hready, hrest⟩
    exact ⟨_, apply_of_ready hready, hrest⟩

/-- The first two rules can change places. -/
theorem applyAll_swap_eq_ok_iff (a b : Rule) : applyAll (a :: b :: rules) spec state = .ok final ↔
    applyAll (b :: a :: rules) spec state = .ok final := by
  by_cases h : a = b
  · rw [h]
  · simp only [applyAll_cons_eq_ok_iff, ready_effect_iff h, ready_effect_iff (Ne.symm h),
      effect_comm h]
    exact and_left_comm

/-- **The order of the rules does not matter.** Two arrangements of the same rules, with
repetitions, have a result together, and it is the same state; the profile and the state are
arbitrary. -/
theorem applyAll_eq_ok_iff_of_perm (h : rules.Perm others) (spec : Spec)
    (state final : BeaconState) :
    applyAll rules spec state = .ok final ↔ applyAll others spec state = .ok final := by
  induction h generalizing state with
  | nil => rfl
  | cons rule _ ih => rw [applyAll_cons_eq_ok_iff, applyAll_cons_eq_ok_iff, ih]
  | swap a b rules => exact applyAll_swap_eq_ok_iff b a
  | trans _ _ ih ih' => exact (ih state).trans (ih' state)

/-- A profile whose periods, rings and voting periods have two epochs of one slot. -/
def pairs : Spec := ⟨"pairs", 1, 2, 2, 2, 2⟩

/-- At the end of a period, four rules, one of them twice, in the order of their names and
backwards: both runs get to the end, and to the same state, with a summary in its list. -/
theorem applyAll_backwards :
    let rules := [eth1DataReset, historicalSummariesUpdate, randaoMixesReset, slashingsReset,
      slashingsReset]
    let state := { BeaconState.new pairs .capella with
      slot := 1, eth1DataVotes := #[default], slashings := #[7, 9] }
    ∃ final, applyAll rules pairs state = .ok final ∧
      applyAll rules.reverse pairs state = .ok final ∧
      final.historicalSummaries.size = 1 ∧ final.eth1DataVotes = #[] ∧
      final.slashings = #[0, 9] := by
  intro rules state
  have hrun : (applyAll rules pairs state).map
      (fun s => (s.historicalSummaries.size, s.eth1DataVotes, s.slashings)) =
        .ok (1, #[], #[0, 9]) := by decide +kernel
  obtain ⟨final, hok, hfinal⟩ := Result.map_eq_ok_iff.1 hrun
  simp only [Prod.mk.injEq] at hfinal
  have hperm : rules.Perm rules.reverse := (List.reverse_perm rules).symm
  exact ⟨final, hok, (applyAll_eq_ok_iff_of_perm hperm pairs state final).1 hok, hfinal⟩

end BeaconReplay.Rule
