import BeaconReplay.Proofs.Chain.Refusal
import BeaconReplay.Proofs.Replay.Workers
import BeaconReplay.Replay.Suite

/-!
# What a suite reports

Replaying cases at the same time changes nothing, as long as the threads for it can be started.
So a report has one subtest for each case of the operation. A case is loaded if its states can be
read, decoded, belong to the fork and fit the profile; nothing that goes wrong while it is loaded
is a failed transition or a crash.
-/
namespace BeaconReplay

namespace Suite

/-- Start the threads of a suite; none are needed for one case at a time. -/
def starting (pool : Pool) (suite : Suite) : Except String Unit :=
  if 1 < suite.concurrency then pool.start suite.concurrency else .ok ()

/-- Whether the threads of a suite can be started. -/
def Starts (pool : Pool) (suite : Suite) : Prop := suite.starting pool = .ok ()

variable {pool : Pool} {suite : Suite} {disk : Disk} {config : String} {spec : Spec} {fork : Fork}
  {op : Operation} {report : Report}

theorem starts_of_one (h : suite.concurrency ≤ 1) : suite.Starts pool := by
  rw [Starts, starting, if_neg (not_lt.2 h)]

theorem starts_tasks (suite : Suite) : suite.Starts .tasks := by
  rw [Starts, starting]
  split_ifs <;> rfl

/-- The number of cases replayed at a time does not matter. -/
theorem replayAll_eq_map {α β : Type} (hpool : pool.Collects) (suite : Suite)
    (f : α → β) (xs : List α) :
    replayAll pool suite.concurrency f xs = (suite.starting pool).map fun _ => xs.map f := by
  rw [replayAll, starting]
  split_ifs
  · rw [hpool.collect_eq_map]
    cases pool.start suite.concurrency <;> rfl
  · rfl

theorem replayAll_of_starts {α β : Type} (hpool : pool.Collects) (h : suite.Starts pool)
    (f : α → β) (xs : List α) : replayAll pool suite.concurrency f xs = .ok (xs.map f) := by
  rw [replayAll_eq_map hpool, h]
  rfl

/-- The cases of an operation at a fork. -/
def cases (suite : Suite) (disk : Disk) (spec : Spec) (fork : Fork) (op : Operation) :
    List CaseFolder :=
  (CaseFolder.locate disk suite.root spec fork op.category).1

theorem run_of_unknown {e : ChainError} (h : Spec.ofName config = .error e) :
    (suite.run pool disk config fork op).1 = .error (.unknownConfig config) := by
  simp [run, h]

/-- The report on the cases of an operation. -/
def reportOn (suite : Suite) (disk : Disk) (config : String) (spec : Spec) (fork : Fork)
    (op : Operation) : Report :=
  ⟨config, fork, op.rule, (suite.cases disk spec fork op).map (Subtest.run disk spec fork op)⟩

/-- A suite of a known profile runs if its fork is supported, if there are cases and if its threads
can be started. -/
theorem run_of_known (hpool : pool.Collects) (h : Spec.ofName config = .ok spec) :
    (suite.run pool disk config fork op).1 =
      if op.supports fork then
        if (suite.cases disk spec fork op).isEmpty then
          .error (.noFixtures (CaseFolder.categoryDir suite.root spec fork op.category))
        else
          ((suite.starting pool).mapError .threadPool).map
            fun _ => suite.reportOn disk config spec fork op
      else .error (.unsupportedFork op.rule fork) := by
  cases hsup : op.supports fork <;>
    cases hcases : (suite.cases disk spec fork op).isEmpty <;>
    cases hstart : suite.starting pool <;>
    simp_all [run, cases, replayAll_eq_map, reportOn, Except.map, Except.mapError]

theorem run_eq_ok_iff (hpool : pool.Collects) :
    (suite.run pool disk config fork op).1 = .ok report ↔ ∃ spec,
      Spec.ofName config = .ok spec ∧ op.supports fork = true ∧
      suite.cases disk spec fork op ≠ [] ∧ suite.Starts pool ∧
      report = suite.reportOn disk config spec fork op := by
  cases h : Spec.ofName config with
  | error e => simp [run_of_unknown h]
  | ok spec =>
    rw [run_of_known hpool h]
    cases hsup : op.supports fork
    · simp
    · cases hcases : suite.cases disk spec fork op with
      | nil => simp [hcases]
      | cons folder folders =>
        simp only [if_true, List.isEmpty_cons, Bool.false_eq_true, if_false, Except.ok.injEq,
          exists_eq_left', hcases, ne_eq, reduceCtorEq, not_false_eq_true, true_and, Starts]
        cases suite.starting pool with
        | error reason => simp [Except.map, Except.mapError]
        | ok => simp [Except.map, Except.mapError, eq_comm]

end Suite

namespace Subtest

variable {disk : Disk} {spec : Spec} {fork : Fork} {op : Operation} {folder : CaseFolder}

theorem failure_eq_none_iff : (run disk spec fork op folder).failure = none ↔
    Fixture.replay disk spec fork folder.path op = .ok () := by
  simp only [run]
  rcases Fixture.replay disk spec fork folder.path op with (failure | crash) | _ <;> simp

/-- A case that passed is reported with its name alone. -/
theorem run_of_failure_none (h : (run disk spec fork op folder).failure = none) :
    run disk spec fork op folder = ⟨folder.name, none⟩ := by
  have hname : (run disk spec fork op folder).name = folder.name := rfl
  rw [← h, ← hname]

end Subtest

namespace Fixture

variable {disk : Disk} {spec : Spec} {fork : Fork} {path folder : String} {state : BeaconState}
  {fixture : Fixture} {failure : Failure}

/-- A text gives a state if it decodes to it, and if the state passes the checks. -/
theorem parseState_eq_ok_iff {text : String} : parseState spec fork path text = .ok state ↔
    Yaml.decode Yaml.source.state text = .ok state ∧ state.fork = fork ∧
      state.validate spec = .ok () := by
  unfold parseState
  cases hdecode : Yaml.decode Yaml.source.state text with
  | error fault => simp
  | ok decoded =>
    constructor
    · intro h
      by_cases hfork : decoded.fork = fork
      · cases hvalid : decoded.validate spec with
        | error cause => simp [hfork, hvalid] at h
        | ok _ =>
          obtain rfl : decoded = state := by simpa [hfork, hvalid] using h
          exact ⟨rfl, hfork, hvalid⟩
      · simp [hfork] at h
    · rintro ⟨h, hfork, hvalid⟩
      obtain rfl : decoded = state := by simpa using h
      simp [hfork, hvalid]

/-- A state is read if its file is a text that gives it. -/
theorem readState_eq_ok_iff : readState disk spec fork path = .ok state ↔
    ∃ text, disk.read path = .ok text ∧ Yaml.decode Yaml.source.state text = .ok state ∧
      state.fork = fork ∧ state.validate spec = .ok () := by
  unfold readState
  cases hread : disk.read path with
  | error fault => simp
  | ok text => simp [parseState_eq_ok_iff]

/-- A case is loaded if its states are read; the state behind the transition may be absent. -/
theorem load_eq_ok_iff : load disk spec fork folder = .ok fixture ↔
    readState disk spec fork (Path.join folder preName) = .ok fixture.pre ∧
      if disk.holds (Path.join folder postName) then
        ∃ post, readState disk spec fork (Path.join folder postName) = .ok post ∧
          some post = fixture.post
      else none = fixture.post := by
  obtain ⟨pre, post⟩ := fixture
  unfold load
  cases hpre : readState disk spec fork (Path.join folder preName) with
  | error failure => simp
  | ok state =>
    cases hholds : disk.holds (Path.join folder postName)
    · simp [hholds]
    · cases hpost : readState disk spec fork (Path.join folder postName) with
      | error failure => simp [hpost, hholds]
      | ok other => simp [hpost, hholds]

end Fixture

/-- Whether a failure comes up while a case is loaded. -/
def Failure.isLoading : Failure → Bool
  | unreadable .. | unparsable .. | invalidState .. | forkMismatch .. => true
  | _ => false

namespace Fixture

variable {disk : Disk} {spec : Spec} {fork : Fork} {path folder text : String} {failure : Failure}

theorem parseState_isLoading (h : parseState spec fork path text = .error failure) :
    failure.isLoading = true := by
  unfold parseState at h
  split at h
  · cases h; rfl
  · split at h
    · cases h; rfl
    · split at h <;> cases h
      rfl

theorem readState_isLoading (h : readState disk spec fork path = .error failure) :
    failure.isLoading = true := by
  unfold readState at h
  split at h
  · cases h; rfl
  · exact parseState_isLoading h

/-- What goes wrong while a case is loaded is no failed transition, and no crash. -/
theorem load_isLoading (h : load disk spec fork folder = .error failure) :
    failure.isLoading = true := by
  unfold load at h
  rcases Result.bind_eq_error_iff.1 h with h | ⟨pre, -, h⟩
  · exact readState_isLoading h
  · dsimp only at h
    split at h
    · rcases Result.bind_eq_error_iff.1 h with h | ⟨post, -, h⟩
      · exact readState_isLoading h
      · cases h
    · cases h

end Fixture

end BeaconReplay
