import BeaconReplay.Proofs.Replay.Differences
import BeaconReplay.Proofs.Replay.Failures
import BeaconReplay.Proofs.Yaml.Decoding

/-!
# Cases that hold printed states

A state that is printed is read back as it was, so a case that holds the texts of two states is
judged by these states. It passes exactly if the expected state is the one that the rule gives, and
else the failure lists where the two differ.
-/
namespace BeaconReplay

namespace BeaconState

/-- The empty state of a profile is valid. -/
theorem validate_new (spec : Spec) (fork : Fork) : (new spec fork).validate spec = .ok () := by
  rw [validate_eq_ok_iff]
  simp [new]

end BeaconState

namespace Disk

variable {d : Disk} {path name text : String}

theorem holds_of_read (h : d.read path = .ok text) : d.holds path = true := by
  unfold read at h
  cases hfind : d.find path with
  | error fault => simp [hfind] at h
  | ok entry => simp [holds, hfind, Except.isOk, Except.toBool]

/-- A file at the top of a tree is read by its name. -/
theorem read_top (hparts : Path.below? d.mount path = some [name])
    (hname : name ∉ ["", ".", ".."]) (hentry : d.entries.lookup name = some (.file (some text))) :
    d.read path = .ok text := by
  simp only [List.mem_cons, List.not_mem_nil, or_false, not_or] at hname
  obtain ⟨hempty, hhere, hup⟩ := hname
  have hwalk : d.walk linkLimit [d.entries] [name] = .ok (.file (some text)) := by
    rw [linkLimit, walk]
    simp [Directories.follow, hempty, hhere, hup, hentry]
  simp [read, find, hparts, hwalk]

end Disk

namespace Fixture

variable {disk : Disk} {spec : Spec} {fork : Fork} {path folder : String}
  {state pre post : BeaconState}

/-- A printed state is read if it passes the checks. -/
theorem readState_printed (hread : disk.read path = .ok state.yaml) (hfork : state.fork = fork)
    (hvalid : state.validate spec = .ok ()) : readState disk spec fork path = .ok state :=
  readState_eq_ok_iff.2 ⟨state.yaml, hread, Yaml.decode_state state, hfork, hvalid⟩

/-- A case is loaded with the states that its files hold. -/
theorem load_of_readState
    (hpre : readState disk spec fork (Path.join folder preName) = .ok pre)
    (hpost : readState disk spec fork (Path.join folder postName) = .ok post) :
    load disk spec fork folder = .ok ⟨pre, some post⟩ := by
  obtain ⟨text, hread, -⟩ := readState_eq_ok_iff.1 hpost
  refine load_eq_ok_iff.2 ⟨hpre, ?_⟩
  rw [if_pos (Disk.holds_of_read hread)]
  exact ⟨post, hpost, rfl⟩

/-- Where the transition gives a state, a case is judged by whether it is the expected one. -/
theorem replay_of_transition {op : Operation} {actual expected : BeaconState}
    (hload : load disk spec fork folder = .ok ⟨pre, some expected⟩)
    (htransition : op.transition spec pre = .ok actual) :
    replay disk spec fork folder op =
      if expected = actual then .ok ()
      else .error (.refused (.mismatch (expected.diff actual))) := by
  by_cases heq : expected = actual
  · simp [replay, hload, htransition, judge, heq, Except.mapError]
  · simp [replay, hload, htransition, judge, heq, Except.mapError]

/-- **A case of printed states passes exactly if the expected state is the one that the rule
gives.** If it is another one, the failure carries the differences of the two states, and there is
at least one. -/
theorem replay_printed_iff {spec : Spec} {rule : Rule} {fork : Fork}
    {pre post expected : BeaconState} {disk : Disk} {folder : String} (hpre : pre.fork = fork)
    (hpreValid : pre.validate spec = .ok ())
    (happly : rule.apply spec pre = .ok post) (hexpected : expected.fork = fork)
    (hexpectedValid : expected.validate spec = .ok ())
    (hpreText : disk.read (Path.join folder preName) = .ok pre.yaml)
    (hpostText : disk.read (Path.join folder postName) = .ok expected.yaml) :
    (replay disk spec fork folder (.ofRule rule) = .ok () ↔ expected = post) ∧
      (expected ≠ post →
        replay disk spec fork folder (.ofRule rule) =
            .error (.refused (.mismatch (expected.diff post))) ∧
          expected.diff post ≠ []) := by
  have hload : load disk spec fork folder = .ok ⟨pre, some expected⟩ :=
    load_of_readState (readState_printed hpreText hpre hpreValid)
      (readState_printed hpostText hexpected hexpectedValid)
  have htransition : (Operation.ofRule rule).transition spec pre = .ok post :=
    Operation.transition_ofRule_eq_ok_iff.2 happly
  rw [replay_of_transition hload htransition]
  constructor
  · by_cases heq : expected = post <;> simp [heq]
  · intro hne
    rw [if_neg hne, ne_eq, BeaconState.diff_eq_nil_iff]
    exact ⟨rfl, hne⟩

/-- The empty state of the small profile at Capella. -/
def emptyState : BeaconState := .new .minimal .capella

/-- The empty state with another slot. -/
def tamperedState : BeaconState := { emptyState with slot := 1 }

/-- A directory that holds a case of two texts and nothing else. -/
def caseOf (preText postText : String) : Disk :=
  ⟨"case", [(preName, .file (some preText)), (postName, .file (some postText))]⟩

theorem read_pre (preText postText : String) :
    (caseOf preText postText).read (Path.join "case" preName) = .ok preText := by
  have hparts : Path.below? "case" (Path.join "case" preName) = some [preName] := by
    decide +kernel
  exact Disk.read_top hparts (by decide) rfl

theorem read_post (preText postText : String) :
    (caseOf preText postText).read (Path.join "case" postName) = .ok postText := by
  have hparts : Path.below? "case" (Path.join "case" postName) = some [postName] := by
    decide +kernel
  exact Disk.read_top hparts (by decide) rfl

/-- A case of the empty state passes where a rule changes nothing, and a case whose expected state
has been tampered with does not. -/
theorem tampered_case_fails :
    replay (caseOf emptyState.yaml emptyState.yaml) .minimal .capella "case"
        (.ofRule .eth1DataReset) = .ok () ∧
      replay (caseOf emptyState.yaml tamperedState.yaml) .minimal .capella "case"
          (.ofRule .eth1DataReset) =
        .error (.refused (.mismatch (tamperedState.diff emptyState))) ∧
      tamperedState.diff emptyState ≠ [] := by
  have hfork : emptyState.fork = .capella := rfl
  have hvalid : emptyState.validate .minimal = .ok () := BeaconState.validate_new .minimal .capella
  have htamperedFork : tamperedState.fork = .capella := rfl
  have htamperedValid : tamperedState.validate .minimal = .ok () := hvalid
  have hne : tamperedState ≠ emptyState := by
    intro h
    have hslot := congrArg BeaconState.slot h
    simp [tamperedState, emptyState, BeaconState.new] at hslot
  have happly : Rule.apply .eth1DataReset .minimal emptyState = .ok emptyState := rfl
  constructor
  · exact (replay_printed_iff hfork hvalid happly hfork hvalid
      (read_pre emptyState.yaml emptyState.yaml)
      (read_post emptyState.yaml emptyState.yaml)).1.2 rfl
  · exact (replay_printed_iff hfork hvalid happly htamperedFork htamperedValid
      (read_pre emptyState.yaml tamperedState.yaml)
      (read_post emptyState.yaml tamperedState.yaml)).2 hne

end Fixture

end BeaconReplay
