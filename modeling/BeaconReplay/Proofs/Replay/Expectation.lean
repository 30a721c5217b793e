import BeaconReplay.Proofs.Disk.Entries
import BeaconReplay.Proofs.Replay.Judgement
import BeaconReplay.Proofs.Replay.Printed

/-!
# When a case expects a failure

A case without a second file expects its transition to fail. Whether there is such a file is asked
over links, and any fault on the way counts as its absence. So a case whose directory does hold an
entry of that name expects a failure exactly if the entry is a link that leads nowhere: the case
then passes where the transition fails, although its expected state is lost.
-/
namespace BeaconReplay

namespace Disk

variable {d : Disk} {path : String}

/-- What cannot be found is not held, whatever the fault. -/
theorem holds_eq_false_iff : d.holds path = false ↔ ∃ fault, d.find path = .error fault := by
  rw [holds]
  cases d.find path with
  | error fault => simp [Except.isOk, Except.toBool]
  | ok entry => simp [Except.isOk, Except.toBool]

end Disk

namespace Fixture

/-- An entry that is a link, where following it ends in a fault: nothing is there, a file stands in
the way, or there are too many links. -/
structure Dangles (disk : Disk) (path : String) (e : Entry) : Prop where
  isLink : ∃ target, e = .link target
  lost : ∃ fault, disk.find path = .error fault

variable {disk : Disk} {spec : Spec} {fork : Fork} {folder : String} {pre : BeaconState}
  {entries : List (String × Entry)} {e : Entry}

/-- A case expects a failure if its first state is loaded and its second file is not held. -/
theorem load_none_iff : load disk spec fork folder = .ok ⟨pre, none⟩ ↔
    Loads disk spec fork (Path.join folder preName) pre ∧
      disk.holds (Path.join folder postName) = false := by
  rw [load_eq_ok_iff, loads_iff]
  refine and_congr_right fun _ => ?_
  cases disk.holds (Path.join folder postName) with
  | false => simp
  | true => simp

/-- In a directory that holds an entry, a path comes to nothing exactly if the entry dangles. -/
theorem holds_entry_iff (hopen : Path.Open folder)
    (hdir : disk.find folder = .ok (.directory entries))
    (hentry : entries.lookup postName = some e) :
    disk.holds (Path.join folder postName) = false ↔
      Dangles disk (Path.join folder postName) e := by
  rw [Disk.holds_eq_false_iff]
  refine ⟨fun hlost => ⟨?_, hlost⟩, Dangles.lost⟩
  by_contra hlink
  have hfound : disk.find (Path.join folder postName) = .ok e :=
    Disk.find_entry hopen hdir (by decide) hentry fun target h => hlink ⟨target, h⟩
  obtain ⟨fault, hlost⟩ := hlost
  rw [hfound] at hlost
  cases hlost

/-- A case whose transition fails passes exactly if its second file is not held. -/
theorem replay_of_failure {op : Operation} {name : String} {cause : ChainError}
    (hpre : Loads disk spec fork (Path.join folder preName) pre)
    (hfails : op.transition spec pre = .error (.refused (.transition name cause))) :
    replay disk spec fork folder op = .ok () ↔
      disk.holds (Path.join folder postName) = false := by
  constructor
  · intro hpasses
    cases hload : load disk spec fork folder with
    | error failure => simp [replay, hload] at hpasses
    | ok fixture =>
      obtain ⟨state, post⟩ := fixture
      obtain ⟨hstate, hpost⟩ := load_eq_ok_iff.1 hload
      obtain rfl : state = pre := Except.ok.inj (hstate.symm.trans (loads_iff.1 hpre))
      cases post with
      | none => exact (load_none_iff.1 hload).2
      | some expected => simp [replay, hload, hfails, judge, Except.mapError] at hpasses
  · intro habsent
    have hload := load_none_iff.2 ⟨hpre, habsent⟩
    simp [replay, hload, hfails, judge, Except.mapError]

/-- **A case whose directory holds an entry for its second file expects a failure exactly if that
entry is a link that leads nowhere.** Where it is any other entry, the case is loaded with the state
in it or is not loaded at all, and a transition that fails is never taken for the expected outcome.
Where it dangles, every case whose first state is loaded passes if its transition fails. -/
theorem expects_failure_iff_dangles {disk : Disk} {folder : String}
    {entries : List (String × Entry)} {e : Entry} (hopen : Path.Open folder)
    (hdir : disk.find folder = .ok (.directory entries))
    (hentry : entries.lookup postName = some e) (spec : Spec) (fork : Fork) (pre : BeaconState) :
    let dangles := Dangles disk (Path.join folder postName) e
    let loads := Loads disk spec fork (Path.join folder preName) pre
    (load disk spec fork folder = .ok ⟨pre, none⟩ ↔ loads ∧ dangles) ∧
    ∀ (op : Operation) (name : String) (cause : ChainError), loads →
      op.transition spec pre = .error (.refused (.transition name cause)) →
      (replay disk spec fork folder op = .ok () ↔ dangles) := by
  have hholds := holds_entry_iff hopen hdir hentry
  refine ⟨?_, fun op name cause hpre hfails => ?_⟩
  · rw [load_none_iff, hholds]
  · rw [replay_of_failure hpre hfails, hholds]

/-- A directory with a printed state and a link for the state behind the transition. -/
def linkedPost (target : String) : Disk :=
  ⟨"case", [(preName, .file (some emptyState.yaml)), (postName, .link target)]⟩

theorem loads_linkedPost (target : String) :
    Loads (linkedPost target) .minimal .capella (Path.join "case" preName) emptyState := by
  have hparts : Path.below? "case" (Path.join "case" preName) = some [preName] := by
    decide +kernel
  have hread : (linkedPost target).read (Path.join "case" preName) = .ok emptyState.yaml :=
    Disk.read_top hparts (by decide) rfl
  exact loads_iff.2 (readState_printed hread rfl (BeaconState.validate_new .minimal .capella))

theorem apply_emptyState :
    (Operation.ofRule .historicalRootsUpdate).transition .minimal emptyState =
      .error (.refused (.transition "historical_roots_update"
        (.unsupportedFork "historical_roots_update" .capella))) :=
  Operation.transition_ofRule_eq_error_iff.2 ⟨_, Rule.apply_of_not_supports rfl, rfl⟩

/-- A link that leads to the first state is followed: the case expects that state. -/
theorem linked_case_expects_state :
    load (linkedPost "pre.yaml") .minimal .capella "case" ≠ .ok ⟨emptyState, none⟩ ∧
      replay (linkedPost "pre.yaml") .minimal .capella "case" (.ofRule .historicalRootsUpdate) ≠
        .ok () := by
  have hfound : (linkedPost "pre.yaml").holds (Path.join "case" postName) = true := by
    decide +kernel
  have hkept : ¬Dangles (linkedPost "pre.yaml") (Path.join "case" postName) (.link "pre.yaml") :=
    fun h => by simp [Disk.holds_eq_false_iff.2 h.lost] at hfound
  have hopen : Path.Open "case" := ⟨by decide, by decide⟩
  have hdir : (linkedPost "pre.yaml").find "case" =
      .ok (.directory (linkedPost "pre.yaml").entries) := rfl
  have hcase := expects_failure_iff_dangles hopen hdir rfl .minimal .capella emptyState
  refine ⟨fun h => hkept (hcase.1.1 h).2, fun h => hkept ?_⟩
  exact (hcase.2 _ _ _ (loads_linkedPost "pre.yaml") apply_emptyState).1 h

/-- **A case that holds a second file can pass because its transition fails**: the file is a link to
a place where nothing is. -/
theorem broken_link_passes :
    (linkedPost "nowhere").find "case" = .ok (.directory (linkedPost "nowhere").entries) ∧
      (linkedPost "nowhere").entries.lookup postName = some (.link "nowhere") ∧
      load (linkedPost "nowhere") .minimal .capella "case" = .ok ⟨emptyState, none⟩ ∧
      replay (linkedPost "nowhere") .minimal .capella "case" (.ofRule .historicalRootsUpdate) =
        .ok () := by
  have habsent : (linkedPost "nowhere").holds (Path.join "case" postName) = false := by
    decide +kernel
  have hpre := loads_linkedPost "nowhere"
  have hpasses := (replay_of_failure hpre apply_emptyState).2 habsent
  exact ⟨rfl, rfl, load_none_iff.2 ⟨hpre, habsent⟩, hpasses⟩

end Fixture

end BeaconReplay
