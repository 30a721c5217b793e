import BeaconReplay.Proofs.Replay.CaseTrees
import BeaconReplay.Proofs.Replay.Judgement

/-!
# The cases that a suite registers

Names of a tidy tree are different, so each case is registered once and its place in the report is
settled by the names alone: neither the order in which the directory lists its entries nor the order
in which cases are finished leaves a trace. The result under each name is the judgement on the case
of that name.
-/
namespace BeaconReplay

namespace Spec

theorem ofName_eq_error_iff {config : String} :
    (∃ e, ofName config = .error e) ↔ config ∉ names := by
  rw [ofName, names]
  split_ifs <;> simp_all

end Spec

namespace Fixture

variable {d e : Disk} {spec : Spec} {fork : Fork} {folder : String} {op : Operation}

/-- A replay depends on two files only. -/
theorem replay_congr
    (hread : ∀ name ∈ [preName, postName],
      d.read (Path.join folder name) = e.read (Path.join folder name))
    (hpost : d.holds (Path.join folder postName) = e.holds (Path.join folder postName)) :
    replay d spec fork folder op = replay e spec fork folder op := by
  have hload : load d spec fork folder = load e spec fork folder := by
    simp only [load, readState, hread preName (by simp), hread postName (by simp), hpost]
  rw [replay, replay, hload]

end Fixture

namespace Suite

variable {suite : Suite} {d e : Disk} {config : String} {spec : Spec} {fork : Fork}
  {op : Operation}

theorem IsCase.of_alike {dir name : String} (h : d.Alike e) (hcase : IsCase d dir name) :
    IsCase e dir name := by
  obtain ⟨⟨names, hnames, hmem⟩, hdir⟩ := hcase
  obtain ⟨names', hnames', hiff⟩ := h.exists_names? hnames
  refine ⟨⟨names', hnames', (hiff name).1 hmem⟩, ?_⟩
  rw [← Disk.isDirectory_congr (h.find_kind _), hdir]

/-- Trees that are alike have the same cases. -/
theorem caseNames_of_alike (hd : d.Tidy) (he : e.Tidy) (h : d.Alike e)
    (hname : Spec.ofName config = .ok spec) :
    suite.caseNames d spec fork op = suite.caseNames e spec fork op := by
  refine (caseNames_ascending hd).eq_of_mem_iff (caseNames_ascending he) fun name => ?_
  rw [mem_caseNames_iff hname, mem_caseNames_iff hname]
  exact ⟨IsCase.of_alike h, IsCase.of_alike h.symm⟩

theorem locate_of_alike (hd : d.Tidy) (he : e.Tidy) (h : d.Alike e) (root : String)
    (hname : Spec.ofName config = .ok spec) :
    CaseFolder.locate d root spec fork op.category =
      CaseFolder.locate e root spec fork op.category := by
  have hcases : cases ⟨root, 1⟩ d spec fork op = cases ⟨root, 1⟩ e spec fork op := by
    rw [cases_eq_map hname, cases_eq_map hname, caseNames_of_alike hd he h hname]
  refine Prod.ext hcases ?_
  rw [CaseFolder.locate, CaseFolder.locate]
  cases hnames : d.names? (CaseFolder.categoryDir root spec fork op.category) with
  | none =>
    cases hnames' : e.names? (CaseFolder.categoryDir root spec fork op.category) with
    | none => rfl
    | some names' =>
      obtain ⟨names, hsome, -⟩ := h.symm.exists_names? hnames'
      cases hnames.symm.trans hsome
  | some names =>
    obtain ⟨names', hnames', -⟩ := h.exists_names? hnames
    rw [hnames']

/-- Neither the order of entries nor the number of workers changes a run. -/
theorem run_of_alike {p q : Pool} (hp : p.Collects) (hq : q.Collects) (hd : d.Tidy) (he : e.Tidy)
    (h : d.Alike e) (root : String) {m n : ℕ} (hm : Starts p ⟨root, m⟩) (hn : Starts q ⟨root, n⟩) :
    Suite.run p d ⟨root, m⟩ config fork op = Suite.run q e ⟨root, n⟩ config fork op := by
  rw [Suite.run, Suite.run]
  cases hname : Spec.ofName config with
  | error fault => rfl
  | ok spec =>
    have hlocate : CaseFolder.locate d root spec fork op.category =
        CaseFolder.locate e root spec fork op.category := locate_of_alike hd he h root hname
    have hreplay : Subtest.run d spec fork op = Subtest.run e spec fork op := by
      funext folder
      rw [Subtest.run, Subtest.run, Fixture.replay_congr
        (fun name _ => Disk.read_congr (h.find_kind _)) (Disk.holds_congr (h.find_kind _))]
    simp only [hlocate, hreplay, replayAll_of_starts hp hm, replayAll_of_starts hq hn]

/-- **A suite registers exactly the cases on disk, in the order of their names.** Before that it
asks for a known profile, for a supported fork, for a case, and for threads if several cases are to
be replayed at a time, in this order. The report then names each case once and gives the judgement
on each. It is the same for every pool that collects results and every number of threads that can be
started, and for every tree that is like this one. -/
theorem run_registers_cases {pool : Pool} (hpool : pool.Collects) (suite : Suite) (config : String)
    (fork : Fork) (op : Operation) (hd : d.Tidy) :
    let dir := suite.casesDir config fork op
    let result := (suite.run pool d config fork op).1
    (config ∉ Spec.names → result = .error (.unknownConfig config)) ∧
    (∀ spec, Spec.ofName config = .ok spec →
      (op.supports fork = false → result = .error (.unsupportedFork op.rule fork)) ∧
      (op.supports fork = true →
        (d.isDirectory dir = false ∨ (∀ name, ¬IsCase d dir name) →
          result = .error (.noFixtures dir)) ∧
        (d.isDirectory dir = true → (∃ name, IsCase d dir name) →
          (∀ reason, suite.starting pool = .error reason → result = .error (.threadPool reason)) ∧
          (suite.Starts pool →
            ∃ report, result = .ok report ∧
              report.config = config ∧ report.fork = fork ∧ report.rule = op.rule ∧
              report.names.Pairwise (fun a b => Utf8.encode a < Utf8.encode b) ∧
              report.names.Nodup ∧ (∀ name, name ∈ report.names ↔ IsCase d dir name) ∧
              (∀ test ∈ report.subtests,
                Fixture.Judged d spec fork op (Path.join dir test.name) test.failure) ∧
              report.subtests = report.names.map fun name =>
                Subtest.run d spec fork op ⟨name, Path.join dir name⟩)))) ∧
    (suite.concurrency ≤ 1 → suite.Starts pool) ∧
    ∀ (other : Pool) e n, other.Collects → e.Tidy → d.Alike e → suite.Starts pool →
      Starts other ⟨suite.root, n⟩ →
      Suite.run other e ⟨suite.root, n⟩ config fork op = suite.run pool d config fork op := by
  intro dir result
  refine ⟨fun h => ?_, fun spec hname => ⟨fun hfork => ?_, fun hfork => ⟨fun hnone => ?_, ?_⟩⟩,
    starts_of_one, fun other e n hother he h hstarts hn =>
      (run_of_alike hpool hother hd he h suite.root hstarts hn).symm⟩
  · obtain ⟨fault, hfault⟩ := Spec.ofName_eq_error_iff.2 h
    exact run_of_unknown hfault
  · exact (run_of_known hpool hname).trans (by simp [hfork])
  · have hno (name : String) : ¬IsCase d dir name := fun hcase =>
      hnone.elim (fun h => by rw [hcase.isDirectory_dir] at h; cases h) fun h => h name hcase
    have hempty : suite.caseNames d spec fork op = [] :=
      List.eq_nil_iff_forall_not_mem.2 fun name hmem => hno name ((mem_caseNames_iff hname).1 hmem)
    refine (run_of_known hpool hname).trans ?_
    rw [if_pos hfork, cases_eq_map hname, hempty, categoryDir_eq hname]
    rfl
  · rintro - ⟨name, hcase⟩
    have hne : suite.cases d spec fork op ≠ [] :=
      List.ne_nil_of_mem (mem_cases_of_isCase hname hcase)
    refine ⟨fun reason hreason => ?_, fun hstarts => ?_⟩
    · refine (run_of_known hpool hname).trans ?_
      rw [if_pos hfork, if_neg (by simpa using hne), hreason]
      rfl
    have hascending : (suite.caseNames d spec fork op).Pairwise (· < ·) := caseNames_ascending hd
    refine ⟨_, run_of_isCase hpool hname hfork hstarts hcase, rfl, rfl, rfl, ?_⟩
    rw [names_reportOn]
    refine ⟨hascending.imp Utf8.encode_lt_encode_iff.2, hascending.nodup,
      fun name => mem_caseNames_iff hname, fun test htest => ?_, ?_⟩
    · obtain ⟨folder, hfolder, rfl⟩ := List.mem_map.1 htest
      obtain ⟨-, -, -, hpath, -⟩ := mem_cases_iff.1 hfolder
      rw [categoryDir_eq hname] at hpath
      exact hpath ▸ Subtest.failure_eq_iff_judged.1 rfl
    · rw [reportOn, cases_eq_map hname, List.map_map]
      rfl

/-- A directory with a case that passes, a link to it, and a file. -/
def linkedCase : List (String × Entry) :=
  [("first", .directory (printedCase Fixture.emptyState Fixture.emptyState)),
    ("README", .file (some "no case")), ("again", .link "first")]

theorem tidy_printedCase (pre post : BeaconState) :
    (Entry.directory (printedCase pre post)).Tidy := by
  have hnames : ∀ name ∈ [Fixture.preName, Fixture.postName], Entry.IsName name := by decide
  have hdistinct : [Fixture.preName, Fixture.postName].Nodup := by decide
  refine .directory (fun e he => hnames _ (List.mem_map_of_mem he)) hdistinct ?_
  simpa [printedCase] using ⟨.file _, .file _⟩

theorem tidy_linkedCase : (Entry.directory linkedCase).Tidy := by
  refine .directory (by decide) (by decide) ?_
  simpa [linkedCase] using ⟨tidy_printedCase _ _, .file _, .link _⟩

theorem run_first : Subtest.run (ruleTree .capella .eth1DataReset linkedCase) .minimal .capella
    (.ofRule .eth1DataReset) ⟨"first", Path.join (ruleDir .capella .eth1DataReset) "first"⟩ =
      ⟨"first", none⟩ := by
  have hname : Entry.IsName "first" := by decide
  have hvalid := BeaconState.validate_new .minimal .capella
  exact run_printedCase hname rfl rfl hvalid rfl rfl hvalid

/-- Listed backwards and replayed by another number of workers, the directory and the link are
registered, the link first, and the case passes. -/
theorem linkedCase_is_registered : ∃ report,
    (Suite.run .tasks (ruleTree .capella .eth1DataReset linkedCase) ⟨"v", 4⟩ "minimal" .capella
      (.ofRule .eth1DataReset)).1 = .ok report ∧
    report.names.Pairwise (fun a b => Utf8.encode a < Utf8.encode b) ∧
    "again" ∈ report.names ∧ ⟨"first", none⟩ ∈ report.subtests ∧ "README" ∉ report.names ∧
    Suite.run .tasks (ruleTree .capella .eth1DataReset linkedCase.reverse) ⟨"v", 1⟩ "minimal"
        .capella (.ofRule .eth1DataReset) =
      Suite.run .tasks (ruleTree .capella .eth1DataReset linkedCase) ⟨"v", 4⟩ "minimal" .capella
        (.ofRule .eth1DataReset) := by
  have htidy : (ruleTree .capella .eth1DataReset linkedCase).Tidy := tidy_ruleTree tidy_linkedCase
  obtain ⟨-, hknown, -, halike⟩ := run_registers_cases Pool.collects_tasks ⟨"v", 4⟩ "minimal"
    .capella (.ofRule .eth1DataReset) htidy
  rw [casesDir_eq_ruleDir] at hknown
  have hfirst : IsCase (ruleTree .capella .eth1DataReset linkedCase)
      (ruleDir .capella .eth1DataReset) "first" := isCase_ruleTree_iff.2 (by decide +kernel)
  have hagain : IsCase (ruleTree .capella .eth1DataReset linkedCase)
      (ruleDir .capella .eth1DataReset) "again" := isCase_ruleTree_iff.2 (by decide +kernel)
  have hreadme : ¬IsCase (ruleTree .capella .eth1DataReset linkedCase)
      (ruleDir .capella .eth1DataReset) "README" :=
    mt isCase_ruleTree_iff.1 (by decide +kernel)
  obtain ⟨report, hrun, -, -, -, hascending, -, hiff, -, hsubtests⟩ :=
    (((hknown .minimal rfl).2 rfl).2 hfirst.isDirectory_dir ⟨_, hfirst⟩).2 (starts_tasks _)
  have hpasses : ⟨"first", none⟩ ∈ report.subtests := by
    rw [hsubtests]
    exact List.mem_map.2 ⟨"first", (hiff _).2 hfirst, run_first⟩
  refine ⟨report, hrun, hascending, (hiff _).2 hagain, hpasses, mt (hiff _).1 hreadme, ?_⟩
  have hreverse : linkedCase.Perm linkedCase.reverse := (List.reverse_perm _).symm
  exact halike .tasks _ 1 Pool.collects_tasks (tidy_ruleTree (tidy_linkedCase.perm hreverse))
    (alike_ruleTree (Entry.alike_of_perm (by decide) hreverse)) (starts_tasks _) (starts_tasks _)

end Suite

end BeaconReplay
