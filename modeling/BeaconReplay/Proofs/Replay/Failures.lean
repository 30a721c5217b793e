import BeaconReplay.Proofs.Replay.Report

/-!
# How a case can fail

The checks of the suite and of the loader stand in front of those of the rules. What a rule could
refuse is refused before it is applied, with one exception: a list without room. So a case of a
supported fork fails for one of four reasons, and none of them is a crash.
-/
namespace BeaconReplay

namespace Operation

variable {rule : Rule} {spec : Spec} {state : BeaconState} {halt : Halt Failure}

/-- The transition of a rule halts where the rule does, and a refusal names the rule. -/
theorem transition_ofRule_eq_error_iff : (ofRule rule).transition spec state = .error halt ↔
    ∃ cause, rule.apply spec state = .error cause ∧
      cause.mapCause (Failure.transition rule.name) = halt := by
  simp only [ofRule]
  cases rule.apply spec state <;> simp [Except.mapError]

theorem transition_ofRule_eq_ok_iff {next : BeaconState} :
    (ofRule rule).transition spec state = .ok next ↔ rule.apply spec state = .ok next := by
  simp only [ofRule]
  cases rule.apply spec state <;> simp [Except.mapError]

/-- **A rule refuses a fork in its transition exactly where the suite would not run it.** -/
theorem transition_refuses_fork_iff :
    (∃ name other fork, (ofRule rule).transition spec state =
      .error (.refused (.transition name (.unsupportedFork other fork)))) ↔
      (ofRule rule).supports state.fork = false := by
  constructor
  · rintro ⟨name, other, fork, h⟩
    obtain ⟨cause, happly, hcause⟩ := transition_ofRule_eq_error_iff.1 h
    by_contra hsupports
    have haccepts := Rule.acceptsFork_of_supports spec (Bool.of_not_eq_false hsupports)
    cases cause with
    | crashed crash => simp [Halt.mapCause] at hcause
    | refused cause =>
      obtain ⟨-, rfl⟩ : rule.name = name ∧ cause = .unsupportedFork other fork := by
        simpa [Halt.mapCause] using hcause
      exact haccepts _ happly ⟨other, fork, rfl⟩
  · intro h
    exact ⟨rule.name, rule.name, state.fork,
      transition_ofRule_eq_error_iff.2 ⟨_, Rule.apply_of_not_supports h, rfl⟩⟩

/-- Past the checks of the loader, the transition of a rule halts only for a list that is full. -/
theorem transition_ofRule_eq_error_iff_overfills (hfits : spec.Fits)
    (hvalid : state.validate spec = .ok ()) (hfork : rule.supports state.fork = true) :
    (ofRule rule).transition spec state = .error halt ↔ rule.Overfills spec state ∧
      halt = .refused (.transition rule.name (.listFull rule.listName historicalRootsLimit)) := by
  simp only [transition_ofRule_eq_error_iff, Rule.apply_eq_error_iff hfits hvalid hfork]
  constructor
  · rintro ⟨cause, ⟨hover, rfl⟩, rfl⟩
    exact ⟨hover, rfl⟩
  · rintro ⟨hover, rfl⟩
    exact ⟨_, ⟨hover, rfl⟩, rfl⟩

end Operation

namespace Subtest

variable {disk : Disk} {spec : Spec} {fork : Fork} {rule : Rule} {folder : CaseFolder}
  {fixture : Fixture} {op : Operation} {failure : Failure}

theorem failure_of_load_error (h : Fixture.load disk spec fork folder.path = .error failure) :
    (run disk spec fork op folder).failure = some failure := by
  simp [run, Fixture.replay, h]

/-- A case that is loaded is judged by what its transition does. -/
theorem failure_of_load_ok (h : Fixture.load disk spec fork folder.path = .ok fixture) :
    (run disk spec fork op folder).failure =
      match op.transition spec fixture.pre, fixture.post with
      | .error (.crashed crash), _ => some (.crashed crash.message)
      | .error (.refused (.transition _ _)), none => none
      | .error (.refused failure), _ => some failure
      | .ok _, none => some (.unexpectedSuccess op.rule)
      | .ok actual, some expected =>
        if expected = actual then none else some (.mismatch (expected.diff actual)) := by
  obtain ⟨pre, post⟩ := fixture
  simp only [run, Fixture.replay, h]
  rcases op.transition spec pre with (failure | crash) | actual
  · cases post <;> cases failure <;> simp [Fixture.judge, Except.mapError]
  · simp
  · cases post with
    | none => simp [Fixture.judge, Except.mapError]
    | some expected =>
      by_cases heq : expected = actual <;> simp [Fixture.judge, Except.mapError, heq]

end Subtest

namespace Fixture

variable {disk : Disk} {spec : Spec} {fork : Fork} {rule : Rule} {folder : CaseFolder}
  {fixture : Fixture} {halt : Halt Failure}

/-- What the loader has checked in front of a transition. -/
theorem checks_of_load (h : load disk spec fork folder.path = .ok fixture) :
    fixture.pre.fork = fork ∧ fixture.pre.validate spec = .ok () := by
  obtain ⟨text, -, -, hfork, hvalid⟩ := readState_eq_ok_iff.1 (load_eq_ok_iff.1 h).1
  exact ⟨hfork, hvalid⟩

/-- The transition of a case that is loaded halts only for a list that is full. -/
theorem transition_of_load (hfits : spec.Fits) (hfork : rule.supports fork = true)
    (hload : load disk spec fork folder.path = .ok fixture) :
    (Operation.ofRule rule).transition spec fixture.pre = .error halt ↔
      rule.Overfills spec fixture.pre ∧
        halt = .refused (.transition rule.name (.listFull rule.listName historicalRootsLimit)) := by
  obtain ⟨rfl, hvalid⟩ := checks_of_load hload
  exact Operation.transition_ofRule_eq_error_iff_overfills hfits hvalid hfork

end Fixture

namespace Subtest

variable {disk : Disk} {spec : Spec} {fork : Fork} {rule : Rule} {folder : CaseFolder}
  {name : String} {cause : ChainError}

/-- **What can go wrong with a case of a supported fork**: it is not loaded, the list that the
rule appends to is full, or the outcome is not the expected one. -/
theorem failure_cases {failure : Failure} (hfits : spec.Fits) (hfork : rule.supports fork = true)
    (h : (run disk spec fork (.ofRule rule) folder).failure = some failure) :
    failure.isLoading = true ∨
      failure = .transition rule.name (.listFull rule.listName historicalRootsLimit) ∨
      failure = .unexpectedSuccess rule.name ∨ ∃ differences, failure = .mismatch differences := by
  cases hload : Fixture.load disk spec fork folder.path with
  | error other =>
    rw [failure_of_load_error hload] at h
    cases h
    exact .inl (Fixture.load_isLoading hload)
  | ok fixture =>
    obtain ⟨pre, post⟩ := fixture
    rw [failure_of_load_ok hload] at h
    cases happly : (Operation.ofRule rule).transition spec pre with
    | error halt =>
      obtain ⟨-, rfl⟩ := (Fixture.transition_of_load hfits hfork hload).1 happly
      cases post <;> simp only [happly] at h <;> cases h
      exact .inr (.inl rfl)
    | ok actual =>
      cases post with
      | none =>
        simp only [happly] at h
        cases h
        exact .inr (.inr (.inl rfl))
      | some expected =>
        simp only [happly] at h
        split at h <;> cases h
        exact .inr (.inr (.inr ⟨_, rfl⟩))

/-- A case without a state behind its transition passes exactly if its state is loaded and the
rule overfills its list. -/
theorem passes_without_post_iff (hfits : spec.Fits) (hfork : rule.supports fork = true)
    (hpost : disk.holds (Path.join folder.path Fixture.postName) = false) :
    (run disk spec fork (.ofRule rule) folder).failure = none ↔
      ∃ pre, Fixture.readState disk spec fork (Path.join folder.path Fixture.preName) = .ok pre ∧
        rule.Overfills spec pre := by
  cases hpre : Fixture.readState disk spec fork (Path.join folder.path Fixture.preName) with
  | error failure =>
    have hload : Fixture.load disk spec fork folder.path = .error failure := by
      simp [Fixture.load, hpre]
    simp [failure_of_load_error hload]
  | ok pre =>
    have hload : Fixture.load disk spec fork folder.path = .ok ⟨pre, none⟩ :=
      Fixture.load_eq_ok_iff.2 (by simp [hpre, hpost])
    rw [failure_of_load_ok hload]
    cases happly : (Operation.ofRule rule).transition spec pre with
    | error halt =>
      obtain ⟨hover, rfl⟩ := (Fixture.transition_of_load hfits hfork hload).1 happly
      simpa using hover
    | ok next =>
      have hover : ¬rule.Overfills spec pre := by
        intro hover
        have herror := (Fixture.transition_of_load hfits hfork hload).2 ⟨hover, rfl⟩
        rw [happly] at herror
        cases herror
      simpa using hover

end Subtest

end BeaconReplay
