import BeaconReplay.Proofs.Replay.CaseTrees

/-!
# What a report blames

No case of a report crashes, and the only refusal in it is that of a list without room. So a case
that expects its transition to fail passes for that one reason only.
-/
namespace BeaconReplay

namespace Report

/-- **A report on a rule names no crash, and no refusal but that of a full list.** A case without
a state behind its transition passes exactly if its state is loaded, the rule is one of the
historical ones, its list is full and a period ends. Behind this stands that the suite and the
transition agree on the forks that a rule supports. -/
theorem report_blames_only_full_lists :
    (∀ (rule : Rule) (spec : Spec) (state : BeaconState),
      (∃ name other fork, (Operation.ofRule rule).transition spec state =
        .error (.refused (.transition name (.unsupportedFork other fork)))) ↔
        (Operation.ofRule rule).supports state.fork = false) ∧
    ∀ (pool : Pool), pool.Collects →
    ∀ (suite : Suite) (disk : Disk) (config : String) (fork : Fork) (rule : Rule) (report : Report),
      (suite.run pool disk config fork (.ofRule rule)).1 = .ok report →
      ∃ spec, Spec.ofName config = .ok spec ∧
        let cases := suite.cases disk spec fork (.ofRule rule)
        let run := Subtest.run disk spec fork (.ofRule rule)
        report.subtests = cases.map run ∧
        (∀ test ∈ report.subtests, (∀ reason, test.failure ≠ some (.crashed reason)) ∧
          ∀ name cause, test.failure = some (.transition name cause) →
            cause = .listFull rule.listName historicalRootsLimit) ∧
        (∀ folder ∈ cases, ∀ fixture halt,
          Fixture.load disk spec fork folder.path = .ok fixture →
          (Operation.ofRule rule).transition spec fixture.pre = .error halt →
            halt = .refused
              (.transition rule.name (.listFull rule.listName historicalRootsLimit))) ∧
        ∀ folder ∈ cases, disk.holds (Path.join folder.path Fixture.postName) = false →
          ((run folder).failure = none ↔ ∃ text pre,
            disk.read (Path.join folder.path Fixture.preName) = .ok text ∧
              Yaml.decode Yaml.source.state text = .ok pre ∧ pre.fork = fork ∧
              pre.validate spec = .ok () ∧
              (rule = .historicalRootsUpdate ∧
                  historicalRootsLimit ≤ pre.historicalRoots.size ∨
                rule = .historicalSummariesUpdate ∧
                  historicalRootsLimit ≤ pre.historicalSummaries.size) ∧
              spec.period ∣ spec.epochOf pre.slot + 1) := by
  refine ⟨fun rule spec state => Operation.transition_refuses_fork_iff, ?_⟩
  intro pool hpool suite disk config fork rule report h
  obtain ⟨spec, hname, hfork, -, -, rfl⟩ := (Suite.run_eq_ok_iff hpool).1 h
  have hfits := Spec.fits_of_ofName hname
  refine ⟨spec, hname, rfl, ?_, ?_, ?_⟩
  · intro test htest
    obtain ⟨folder, -, rfl⟩ := List.mem_map.1 htest
    refine ⟨fun reason hfail => ?_, fun name cause hfail => ?_⟩
    · rcases Subtest.failure_cases hfits hfork hfail with h | h | h | ⟨_, h⟩ <;> cases h
    · rcases Subtest.failure_cases hfits hfork hfail with h | h | h | ⟨_, h⟩ <;> cases h
      rfl
  · intro folder _ fixture halt hload hhalt
    exact ((Fixture.transition_of_load hfits hfork hload).1 hhalt).2
  · intro folder _ hpost
    simp only [Subtest.passes_without_post_iff hfits hfork hpost, Fixture.readState_eq_ok_iff,
      Rule.overfills_iff]
    grind

open Fixture Suite

/-- A state at the end of a period with a list of some length. -/
def crowdedState (n : ℕ) : BeaconState :=
  { emptyState with slot := 56, historicalSummaries := .replicate n ⟨Root.zero, Root.zero⟩ }

theorem validate_crowdedState (n : ℕ) : (crowdedState n).validate .minimal = .ok () :=
  BeaconState.validate_new .minimal .capella

theorem size_crowdedState (n : ℕ) : (crowdedState n).historicalSummaries.size = n := by
  simp [crowdedState]

theorem period_crowdedState (n : ℕ) :
    Spec.minimal.period ∣ Spec.minimal.epochOf (crowdedState n).slot + 1 := by
  have hslot : (crowdedState n).slot = 56 := rfl
  rw [hslot]
  decide

/-- A case with a list of some length, which expects a failure, and one in which nothing is to be
done. -/
def crowdedCases (n : ℕ) : List (String × Entry) :=
  [("full", .directory (failingCase (crowdedState n))),
    ("kept", .directory (printedCase emptyState emptyState))]

/-- A tree with these cases. -/
def crowdedTree (n : ℕ) : Disk := ruleTree .capella .historicalSummariesUpdate (crowdedCases n)

section Crowded

variable {n : ℕ}

/-- Where a case of the crowded tree lies. -/
def crowdedFolder (name : String) : CaseFolder :=
  ⟨name, Path.join (ruleDir .capella .historicalSummariesUpdate) name⟩

theorem lookup_full : (crowdedCases n).lookup "full" =
    some (.directory (failingCase (crowdedState n))) := rfl

theorem lookup_kept : (crowdedCases n).lookup "kept" =
    some (.directory (printedCase emptyState emptyState)) := rfl

theorem full_mem_cases : crowdedFolder "full" ∈
    cases ⟨"v", 4⟩ (crowdedTree n) .minimal .capella (.ofRule .historicalSummariesUpdate) :=
  mem_cases_ruleTree (by decide) lookup_full

theorem kept_mem_cases : crowdedFolder "kept" ∈
    cases ⟨"v", 4⟩ (crowdedTree n) .minimal .capella (.ofRule .historicalSummariesUpdate) :=
  mem_cases_ruleTree (by decide) lookup_kept

theorem run_crowdedTree :
    (Suite.run .tasks (crowdedTree n) ⟨"v", 4⟩ "minimal" .capella
      (.ofRule .historicalSummariesUpdate)).1 =
      .ok (reportOn ⟨"v", 4⟩ (crowdedTree n) "minimal" .minimal .capella
        (.ofRule .historicalSummariesUpdate)) :=
  run_ruleTree (by decide) lookup_full rfl

theorem run_kept : Subtest.run (crowdedTree n) .minimal .capella
    (.ofRule .historicalSummariesUpdate) (crowdedFolder "kept") = ⟨"kept", none⟩ :=
  run_printedCase (by decide) lookup_kept rfl (BeaconState.validate_new .minimal .capella) rfl rfl
    (BeaconState.validate_new .minimal .capella)

theorem read_full : (crowdedTree n).read (Path.join (crowdedFolder "full").path preName) =
    .ok (crowdedState n).yaml :=
  read_file (by decide) lookup_full (by decide) rfl

theorem holds_full : (crowdedTree n).holds (Path.join (crowdedFolder "full").path postName) =
    false :=
  holds_file (by decide) lookup_full (by decide) rfl

end Crowded

/-- Where the list is full, both cases pass, and neither of them crashes. -/
theorem full_list_is_expected : ∃ report,
    (Suite.run .tasks (crowdedTree historicalRootsLimit) ⟨"v", 4⟩ "minimal" .capella
      (.ofRule .historicalSummariesUpdate)).1 = .ok report ∧
    ⟨"full", none⟩ ∈ report.subtests ∧ ⟨"kept", none⟩ ∈ report.subtests ∧
    ∀ test ∈ report.subtests, ∀ reason, test.failure ≠ some (.crashed reason) := by
  -- The list is never written out: its length is all that counts.
  generalize hn : historicalRootsLimit = n
  obtain ⟨spec, hspec, hsubtests, hblame, -, hpasses⟩ :=
    report_blames_only_full_lists.2 _ Pool.collects_tasks _ _ _ _ _ _ (run_crowdedTree (n := n))
  obtain rfl : Spec.minimal = spec := Except.ok.inj hspec
  have hroom : historicalRootsLimit ≤ (crowdedState n).historicalSummaries.size := by
    rw [size_crowdedState, hn]
  have hfull := (hpasses _ full_mem_cases holds_full).2 ⟨_, _, read_full, Yaml.decode_state _, rfl,
    validate_crowdedState n, .inr ⟨rfl, hroom⟩, period_crowdedState n⟩
  refine ⟨_, run_crowdedTree, ?_, ?_, fun test htest => (hblame test htest).1⟩
  · rw [hsubtests]
    exact List.mem_map.2 ⟨_, full_mem_cases, Subtest.run_of_failure_none hfull⟩
  · rw [hsubtests]
    exact List.mem_map.2 ⟨_, kept_mem_cases, run_kept⟩

end Report

end BeaconReplay
