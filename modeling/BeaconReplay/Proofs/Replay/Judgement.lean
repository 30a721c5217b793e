import BeaconReplay.Proofs.Replay.Differences
import BeaconReplay.Proofs.Replay.Failures

/-!
# The judgement on a case

A case is judged step by step: its states are read and checked one after the other, the transition
is applied, and what it gives is held against what the case expects. The first step that goes wrong
is the failure of the case, and a case in which none does passes. Only a refusal of the chain's own
checks meets the expectation that a transition fails: a crash does not, nor does any other failure.
-/
namespace BeaconReplay

namespace Fixture

/-- A file holds a state of a fork that fits a profile. -/
def Loads (disk : Disk) (spec : Spec) (fork : Fork) (path : String) (state : BeaconState) : Prop :=
  ∃ text, disk.read path = .ok text ∧ Yaml.decode Yaml.source.state text = .ok state ∧
    state.fork = fork ∧ state.validate spec = .ok ()

/-- What a state of a case comes to: it is loaded, or the first of its checks that fails is the
failure. -/
inductive StateRead (disk : Disk) (spec : Spec) (fork : Fork) (path : String) :
    Except Failure BeaconState → Prop
  | unreadable {fault : ReadFault} (read : disk.read path = .error fault) :
      StateRead disk spec fork path (.error (.unreadable path fault))
  | unparsable {text : String} {fault : Fault} (read : disk.read path = .ok text)
      (parse : Yaml.decode Yaml.source.state text = .error fault) :
      StateRead disk spec fork path (.error (.unparsable path fault))
  | foreign {text : String} {state : BeaconState} (read : disk.read path = .ok text)
      (parse : Yaml.decode Yaml.source.state text = .ok state) (other : state.fork ≠ fork) :
      StateRead disk spec fork path (.error (.forkMismatch fork state.fork))
  | unfit {text : String} {state : BeaconState} {cause : ChainError}
      (read : disk.read path = .ok text) (parse : Yaml.decode Yaml.source.state text = .ok state)
      (same : state.fork = fork) (lengths : state.validate spec = .error cause) :
      StateRead disk spec fork path (.error (.invalidState path cause))
  | loaded {state : BeaconState} (loads : Loads disk spec fork path state) :
      StateRead disk spec fork path (.ok state)

/-- What a case expects of its transition: the state in its second file, or a failure if there is
no such file, links being followed. -/
inductive Expects (disk : Disk) (spec : Spec) (fork : Fork) (folder : String) :
    Option BeaconState → Prop
  | failure (absent : disk.holds (Path.join folder postName) = false) :
      Expects disk spec fork folder none
  | state {expected : BeaconState} (present : disk.holds (Path.join folder postName) = true)
      (post : StateRead disk spec fork (Path.join folder postName) (.ok expected)) :
      Expects disk spec fork folder (some expected)

/-- How a transition is judged by what a case expects of it; a case that passes has no failure. -/
inductive Outcome (rule : String) :
    Option BeaconState → Except (Halt Failure) BeaconState → Option Failure → Prop
  | crash {expected : Option BeaconState} {crash : Crash} :
      Outcome rule expected (.error (.crashed crash)) (some (.crashed crash.message))
  | refusal {expected : BeaconState} {failure : Failure} :
      Outcome rule (some expected) (.error (.refused failure)) (some failure)
  | mismatch {expected actual : BeaconState} (differ : expected.diff actual ≠ []) :
      Outcome rule (some expected) (.ok actual) (some (.mismatch (expected.diff actual)))
  | met {state : BeaconState} : Outcome rule (some state) (.ok state) none
  | success {actual : BeaconState} :
      Outcome rule none (.ok actual) (some (.unexpectedSuccess rule))
  | otherRefusal {failure : Failure} (other : ∀ name cause, failure ≠ .transition name cause) :
      Outcome rule none (.error (.refused failure)) (some failure)
  | expectedRefusal {name : String} {cause : ChainError} :
      Outcome rule none (.error (.refused (.transition name cause))) none

/-- The judgement on a case, the first failure of its steps deciding. -/
inductive Judged (disk : Disk) (spec : Spec) (fork : Fork) (op : Operation) (folder : String) :
    Option Failure → Prop
  | pre {failure : Failure}
      (read : StateRead disk spec fork (Path.join folder preName) (.error failure)) :
      Judged disk spec fork op folder (some failure)
  | post {pre : BeaconState} {failure : Failure}
      (loaded : StateRead disk spec fork (Path.join folder preName) (.ok pre))
      (present : disk.holds (Path.join folder postName) = true)
      (read : StateRead disk spec fork (Path.join folder postName) (.error failure)) :
      Judged disk spec fork op folder (some failure)
  | transition {pre : BeaconState} {expected : Option BeaconState} {verdict : Option Failure}
      (loaded : StateRead disk spec fork (Path.join folder preName) (.ok pre))
      (expects : Expects disk spec fork folder expected)
      (outcome : Outcome op.rule expected (op.transition spec pre) verdict) :
      Judged disk spec fork op folder verdict

variable {disk : Disk} {spec : Spec} {fork : Fork} {path folder : String} {failure : Failure}
  {fixture : Fixture} {state : BeaconState} {op : Operation} {verdict : Option Failure}

/-- Reading a state takes its checks in their order. -/
theorem stateRead_readState (disk : Disk) (spec : Spec) (fork : Fork) (path : String) :
    StateRead disk spec fork path (readState disk spec fork path) := by
  unfold readState
  cases hread : disk.read path with
  | error fault => exact .unreadable hread
  | ok text =>
    dsimp only [parseState]
    cases hparse : Yaml.decode Yaml.source.state text with
    | error fault => exact .unparsable hread hparse
    | ok state =>
      by_cases hfork : state.fork = fork
      · cases hvalid : state.validate spec with
        | error cause => simpa [hfork, hvalid] using .unfit hread hparse hfork hvalid
        | ok _ => simpa [hfork, hvalid] using .loaded ⟨text, hread, hparse, hfork, hvalid⟩
      · simpa [hfork] using .foreign hread hparse hfork

theorem readState_of_read {text : String} (h : disk.read path = .ok text) :
    readState disk spec fork path = parseState spec fork path text := by
  rw [readState, h]

theorem stateRead_iff {result : Except Failure BeaconState} :
    StateRead disk spec fork path result ↔ readState disk spec fork path = result := by
  constructor
  · rintro (⟨hread⟩ | ⟨hread, hparse⟩ | ⟨hread, hparse, hfork⟩ | ⟨hread, hparse, hfork, hvalid⟩ | h)
    · rw [readState, hread]
      rfl
    · rw [readState_of_read hread]
      dsimp only [parseState]
      rw [hparse]
      rfl
    · rw [readState_of_read hread]
      dsimp only [parseState]
      rw [hparse]
      exact if_pos hfork
    · rw [readState_of_read hread]
      dsimp only [parseState]
      rw [hparse]
      dsimp only
      rw [if_neg (not_not.2 hfork), hvalid]
      rfl
    · exact readState_eq_ok_iff.2 h
  · rintro rfl
    exact stateRead_readState disk spec fork path

theorem loads_iff : Loads disk spec fork path state ↔ readState disk spec fork path = .ok state :=
  readState_eq_ok_iff.symm

/-- A case is not loaded if its first state is not, or else its second one is there and is not. -/
theorem load_eq_error_iff : load disk spec fork folder = .error failure ↔
    readState disk spec fork (Path.join folder preName) = .error failure ∨
      ∃ pre, readState disk spec fork (Path.join folder preName) = .ok pre ∧
        disk.holds (Path.join folder postName) = true ∧
        readState disk spec fork (Path.join folder postName) = .error failure := by
  rw [load, Result.bind_eq_error_iff]
  refine or_congr Iff.rfl (exists_congr fun pre => and_congr_right fun _ => ?_)
  dsimp only
  cases disk.holds (Path.join folder postName) with
  | false => simp
  | true => simp [Result.bind_eq_error_iff]

/-- A case that is loaded expects what its second file says. -/
theorem expects_of_load (h : load disk spec fork folder = .ok fixture) :
    Expects disk spec fork folder fixture.post := by
  obtain ⟨-, hpost⟩ := load_eq_ok_iff.1 h
  cases hholds : disk.holds (Path.join folder postName) with
  | false =>
    rw [if_neg (by simp [hholds])] at hpost
    rw [← hpost]
    exact .failure hholds
  | true =>
    rw [if_pos hholds] at hpost
    obtain ⟨post, hread, hpost⟩ := hpost
    rw [← hpost]
    exact .state hholds (stateRead_iff.2 hread)

theorem load_of_expects {expected : Option BeaconState}
    (hpre : readState disk spec fork (Path.join folder preName) = .ok state)
    (h : Expects disk spec fork folder expected) :
    load disk spec fork folder = .ok ⟨state, expected⟩ := by
  refine load_eq_ok_iff.2 ⟨hpre, ?_⟩
  cases h with
  | failure absent => rw [if_neg (by simp [absent])]
  | state present post =>
    rw [if_pos present]
    exact ⟨_, stateRead_iff.1 post, rfl⟩

end Fixture

namespace Subtest

open Fixture

variable {disk : Disk} {spec : Spec} {fork : Fork} {op : Operation} {folder : CaseFolder}
  {fixture : Fixture} {verdict : Option Failure}

/-- A case that is loaded is judged by its transition. -/
theorem outcome_of_load (h : load disk spec fork folder.path = .ok fixture) :
    Outcome op.rule fixture.post (op.transition spec fixture.pre)
      (run disk spec fork op folder).failure := by
  rw [failure_of_load_ok h]
  rcases op.transition spec fixture.pre with (failure | crash) | actual
  · cases fixture.post with
    | some expected => cases failure <;> exact .refusal
    | none =>
      cases failure with
      | transition name cause => exact .expectedRefusal
      | _ => exact .otherRefusal (by simp)
  · exact .crash
  · cases fixture.post with
    | none => exact .success
    | some expected =>
      by_cases heq : expected = actual
      · subst heq
        simpa using .met
      · simpa [heq] using .mismatch (mt (BeaconState.diff_eq_nil_iff expected actual).1 heq)

/-- A transition is judged in one way only. -/
theorem outcome_unique {rule : String} {expected : Option BeaconState}
    {result : Except (Halt Failure) BeaconState} {verdict other : Option Failure}
    (h : Outcome rule expected result verdict) (hother : Outcome rule expected result other) :
    verdict = other := by
  cases h with
  | crash | refusal | success =>
    cases hother
    rfl
  | mismatch differ =>
    cases hother with
    | mismatch => rfl
    | met => exact absurd ((BeaconState.diff_eq_nil_iff _ _).2 rfl) differ
  | met =>
    cases hother with
    | mismatch differ => exact absurd ((BeaconState.diff_eq_nil_iff _ _).2 rfl) differ
    | met => rfl
  | otherRefusal other =>
    cases hother with
    | otherRefusal => rfl
    | expectedRefusal => exact absurd rfl (other _ _)
  | expectedRefusal =>
    cases hother with
    | otherRefusal other => exact absurd rfl (other _ _)
    | expectedRefusal => rfl

/-- The outcome of a replay is the judgement on its case, and no other one is. -/
theorem failure_eq_iff_judged :
    (run disk spec fork op folder).failure = verdict ↔
      Judged disk spec fork op folder.path verdict := by
  constructor
  · rintro rfl
    cases hload : load disk spec fork folder.path with
    | error failure =>
      rw [failure_of_load_error hload]
      rcases load_eq_error_iff.1 hload with hpre | ⟨pre, hpre, hholds, hpost⟩
      · exact .pre (stateRead_iff.2 hpre)
      · exact .post (stateRead_iff.2 hpre) hholds (stateRead_iff.2 hpost)
    | ok fixture =>
      have hpre := (load_eq_ok_iff.1 hload).1
      exact .transition (stateRead_iff.2 hpre) (expects_of_load hload) (outcome_of_load hload)
  · intro h
    cases h with
    | pre read =>
      exact failure_of_load_error (load_eq_error_iff.2 (.inl (stateRead_iff.1 read)))
    | post loaded present read =>
      exact failure_of_load_error (load_eq_error_iff.2
        (.inr ⟨_, stateRead_iff.1 loaded, present, stateRead_iff.1 read⟩))
    | transition loaded expects outcome =>
      have hload := load_of_expects (stateRead_iff.1 loaded) expects
      exact outcome_unique (outcome_of_load hload) outcome

/-- **A case is judged step by step, and the first failure decides.** Its states are read, decoded
and checked for their fork and their lengths, the one before the transition first; a crash of the
transition is a failure whatever the case expects; and then the expectation is met or not, where a
mismatch always lists a difference. So a case passes exactly if its first state is loaded and
either its second file is there, is loaded, and holds the very state that the transition gives, or
there is no such file and the transition refuses the state. -/
theorem verdict_is_first_failure (disk : Disk) (spec : Spec) (fork : Fork) (op : Operation)
    (folder : CaseFolder) :
    let test := run disk spec fork op folder
    let postPath := Path.join folder.path postName
    test.name = folder.name ∧
    (∀ verdict, test.failure = verdict ↔ Judged disk spec fork op folder.path verdict) ∧
    (test.failure = none ↔
      ∃ pre, Loads disk spec fork (Path.join folder.path preName) pre ∧
        (disk.holds postPath = true ∧
            (∃ post, Loads disk spec fork postPath post ∧ op.transition spec pre = .ok post) ∨
          disk.holds postPath = false ∧
            ∃ name cause,
              op.transition spec pre = .error (.refused (.transition name cause)))) := by
  refine ⟨rfl, fun verdict => failure_eq_iff_judged, ?_⟩
  rw [failure_eq_iff_judged]
  constructor
  · rintro (_ | _ | ⟨hpre, hexpects, houtcome⟩)
    refine ⟨_, loads_iff.2 (stateRead_iff.1 hpre), ?_⟩
    generalize op.transition spec _ = result at houtcome
    cases hexpects with
    | failure absent =>
      cases houtcome with
      | expectedRefusal => exact .inr ⟨absent, _, _, rfl⟩
    | state present hpost =>
      cases houtcome with
      | met => exact .inl ⟨present, _, loads_iff.2 (stateRead_iff.1 hpost), rfl⟩
  · rintro ⟨pre, hpre, ⟨present, post, hpost, hresult⟩ | ⟨absent, name, cause, hresult⟩⟩
    · refine .transition (.loaded hpre) (.state present (.loaded hpost)) ?_
      rw [hresult]
      exact .met
    · refine .transition (.loaded hpre) (.failure absent) ?_
      rw [hresult]
      exact .expectedRefusal

end Subtest

end BeaconReplay
