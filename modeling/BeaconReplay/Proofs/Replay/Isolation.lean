import BeaconReplay.Proofs.Disk.Descent
import BeaconReplay.Proofs.Replay.Registration

/-!
# Cases do not see each other

Two trees without links may differ in one case as they like, one of them need not have it at all.
The reports on them tell the same of all other cases: the directory of the cases lists the same
other names, and what is read of another case does not lie below the one that differs.
-/
namespace BeaconReplay

namespace Suite

open Entry

variable {p q : Pool} {d e : Disk} {root config c name : String} {spec : Spec} {fork : Fork}
  {op : Operation}
  {m n : ℕ} {dir : String} {here here' : List (String × Entry)}

section Differing

variable (hdir : Path.Open dir) (h : d.AgreeOutside e (Path.place d.mount dir ++ [c]))
  (hd : d.LinkFree) (he : e.LinkFree) (hhere : d.find dir = .ok (.directory here))
  (hhere' : e.find dir = .ok (.directory here')) (hname : IsName name) (hne : name ≠ c)

include hdir h hd he hhere hhere' hname hne

/-- Another entry than the differing one is found to be the same. -/
theorem find_entry_agree :
    Agree Alike (d.find (Path.join dir name)) (e.find (Path.join dir name)) := by
  rw [hdir.join hname.slash_free]
  exact h.find_agree hd he hhere hhere' hne hname (List.forall_mem_nil _)
    (Path.split_of_slash_free hname.slash_free)

/-- So is what another entry holds. -/
theorem find_file_agree {file : String} (hfile : IsName file) :
    Agree Alike (d.find (Path.join (Path.join dir name) file))
      (e.find (Path.join (Path.join dir name) file)) := by
  have hjoin : Path.join (Path.join dir name) file = dir ++ "/" ++ (name ++ "/" ++ file) := by
    rw [(Path.open_join dir hname.ne_empty hname.slash_free).join hfile.slash_free,
      hdir.join hname.slash_free]
    simp [String.append_assoc]
  have hparts : ∀ part ∈ [file], IsName part := by simpa using hfile
  rw [hjoin]
  refine h.find_agree hd he hhere hhere' hne hname hparts ?_
  rw [Path.split_slash, Path.split_of_slash_free hname.slash_free,
    Path.split_of_slash_free hfile.slash_free]
  rfl

/-- Another case of one tree is a case of the other. -/
theorem IsCase.of_agreeOutside (hcase : IsCase d dir name) : IsCase e dir name := by
  refine ⟨⟨here'.map Prod.fst, Disk.names?_eq_some_iff.2 ⟨here', hhere', rfl⟩, ?_⟩, ?_⟩
  · obtain ⟨names, hnames, hmem⟩ := hcase.listed
    obtain ⟨entries, hfind, rfl⟩ := Disk.names?_eq_some_iff.1 hnames
    cases hhere.symm.trans hfind
    have hlookup := h.rel_lookup hd he hhere hhere' hne
    by_contra hnone
    rw [Names.lookup_eq_none_iff.2 hnone] at hlookup
    generalize hx : here.lookup name = x at hlookup
    cases hlookup
    exact Names.lookup_eq_none_iff.1 hx hmem
  · rw [← Disk.isDirectory_congr
      ((find_entry_agree hdir h hd he hhere hhere' hname hne).imp alike_simulation.kind)]
    exact hcase.isDirectory

/-- The replay of another case is the same on both trees. -/
theorem run_of_agreeOutside : Subtest.run d spec fork op ⟨name, Path.join dir name⟩ =
    Subtest.run e spec fork op ⟨name, Path.join dir name⟩ := by
  have hfile (file : String) (hfile : IsName file) := (find_file_agree hdir h hd he hhere hhere'
    hname hne hfile).imp alike_simulation.kind
  rw [Subtest.run, Subtest.run, Fixture.replay_congr (d := d) (e := e)]
  · intro file hmem
    refine Disk.read_congr (hfile file ?_)
    rcases List.mem_pair.1 hmem with rfl | rfl <;> decide
  · exact Disk.holds_congr (hfile _ (by decide))

end Differing

/-- Where a suite runs, the directory of its cases is found. -/
theorem exists_casesDir (hp : p.Collects) {suite : Suite} {report : Report}
    (h : (suite.run p d config fork op).1 = .ok report) :
    ∃ here, d.find (suite.casesDir config fork op) = .ok (.directory here) := by
  obtain ⟨spec, hname, -, hne, -⟩ := (run_eq_ok_iff hp).1 h
  obtain ⟨folder, hfolder⟩ := List.exists_mem_of_ne_nil _ hne
  have hmem : folder.name ∈ suite.caseNames d spec fork op := List.mem_map_of_mem hfolder
  exact Disk.isDirectory_iff.1 ((mem_caseNames_iff hname).1 hmem).isDirectory_dir

/-- The names of the cases are names of entries. -/
theorem isName_of_isCase (hd : d.Tidy) (hcase : IsCase d dir name) : IsName name := by
  obtain ⟨names, hnames, hmem⟩ := hcase.listed
  obtain ⟨entries, hfind, rfl⟩ := Disk.names?_eq_some_iff.1 hnames
  obtain ⟨entry, hentry, rfl⟩ := List.mem_map.1 hmem
  cases hd.find hfind with
  | directory isName _ _ => exact isName entry hentry

/-- **Cases are isolated from each other.** If two trees without links differ in one case only,
whatever it holds and whatever becomes of it, then two reports on them name the same other cases in
the same order and with the same results. -/
theorem run_isolates_cases {r s : Report} (hp : p.Collects) (hq : q.Collects) (hd : d.Tidy)
    (he : e.Tidy) (hdfree : d.LinkFree) (hefree : e.LinkFree)
    (h : d.AgreeOutside e (Path.place d.mount (casesDir ⟨root, m⟩ config fork op) ++ [c]))
    (hr : (Suite.run p d ⟨root, m⟩ config fork op).1 = .ok r)
    (hs : (Suite.run q e ⟨root, n⟩ config fork op).1 = .ok s) :
    r.subtests.filter (fun t => t.name ≠ c) = s.subtests.filter (fun t => t.name ≠ c) := by
  obtain ⟨here, hhere⟩ := exists_casesDir hp hr
  obtain ⟨here', hhere'⟩ := exists_casesDir hq hs
  obtain ⟨spec, hspec, -, -, -, rfl⟩ := (run_eq_ok_iff hp).1 hr
  obtain ⟨spec', hspec', -, -, -, rfl⟩ := (run_eq_ok_iff hq).1 hs
  cases hspec.symm.trans hspec'
  have hopen := open_casesDir ⟨root, m⟩ config fork op
  have hback : e.AgreeOutside d (Path.place e.mount (casesDir ⟨root, m⟩ config fork op) ++ [c]) :=
    h.mount ▸ h.symm
  have hiff (name : String) (hne : name ≠ c) :
      IsCase d (casesDir ⟨root, m⟩ config fork op) name ↔
        IsCase e (casesDir ⟨root, n⟩ config fork op) name :=
    ⟨fun hcase => hcase.of_agreeOutside hopen h hdfree hefree hhere hhere'
        (isName_of_isCase hd hcase) hne,
      fun hcase => hcase.of_agreeOutside hopen hback hefree hdfree hhere' hhere
        (isName_of_isCase he hcase) hne⟩
  have hnames : (caseNames ⟨root, m⟩ d spec fork op).filter (fun name => name ≠ c) =
      (caseNames ⟨root, n⟩ e spec fork op).filter (fun name => name ≠ c) := by
    refine ((caseNames_ascending hd).filter _).eq_of_mem_iff ((caseNames_ascending he).filter _)
      fun name => ?_
    rw [List.mem_filter, List.mem_filter, mem_caseNames_iff hspec, mem_caseNames_iff hspec]
    exact and_congr_left fun hne => hiff name (of_decide_eq_true hne)
  rw [reportOn, reportOn, cases_eq_map hspec, cases_eq_map hspec, List.map_map, List.map_map,
    List.filter_map, List.filter_map]
  refine (List.map_congr_left fun name hmem => ?_).trans
    (congrArg (List.map (Subtest.run e spec fork op ∘ _)) hnames)
  obtain ⟨hcase, hne⟩ := List.mem_filter.1 hmem
  have hcase := (mem_caseNames_iff hspec).1 hcase
  exact run_of_agreeOutside hopen h hdfree hefree hhere hhere' (isName_of_isCase hd hcase)
    (of_decide_eq_true hne)

/-- One case without files. -/
def emptyCase : List (String × Entry) := [("empty", .directory [])]

/-- Another case in front, with a text that is no state. -/
def brokenAndEmptyCase : List (String × Entry) :=
  ("broken", .directory [("pre.yaml", .file (some "fork: ["))]) :: emptyCase

/-- A tree with both cases. -/
def brokenTree : Disk := ruleTree .capella .slashingsReset brokenAndEmptyCase

/-- The tree with the empty case only. -/
def emptyTree : Disk := ruleTree .capella .slashingsReset emptyCase

/-- A case that only one tree has, and that fails there, leaves the other case alone. -/
theorem broken_case_is_isolated : ∃ r s,
    (Suite.run .tasks brokenTree ⟨"v", 4⟩ "minimal" .capella (.ofRule .slashingsReset)).1 = .ok r ∧
    (Suite.run .tasks emptyTree ⟨"v", 1⟩ "minimal" .capella (.ofRule .slashingsReset)).1 = .ok s ∧
    "broken" ∈ r.names ∧ "empty" ∈ r.names ∧ "broken" ∉ s.names ∧
    r.subtests.filter (fun t => t.name ≠ "broken") =
      s.subtests.filter (fun t => t.name ≠ "broken") := by
  have hfree : (Entry.directory []).LinkFree := .directory (List.forall_mem_nil _)
  have htidy : (Entry.directory brokenAndEmptyCase).Tidy := by
    refine .directory (by decide) (by decide) ?_
    simpa [brokenAndEmptyCase, emptyCase] using ⟨(Tidy.file _).single (by decide), tidy_empty⟩
  have hbrokenFree : (Entry.directory brokenAndEmptyCase).LinkFree := by
    refine .directory ?_
    simpa [brokenAndEmptyCase, emptyCase] using ⟨(LinkFree.file _).single _, hfree⟩
  have hagree : brokenTree.AgreeOutside emptyTree (Path.place brokenTree.mount
      (casesDir ⟨"v", 4⟩ "minimal" .capella (.ofRule .slashingsReset)) ++ ["broken"]) := by
    rw [casesDir_eq_ruleDir]
    exact agreeOutside_ruleTree (agreeOutside_cons _ _ _)
  have hbroken : IsCase brokenTree (ruleDir .capella .slashingsReset) "broken" :=
    isCase_ruleTree_iff.2 (by decide +kernel)
  have hempty : IsCase brokenTree (ruleDir .capella .slashingsReset) "empty" :=
    isCase_ruleTree_iff.2 (by decide +kernel)
  have hempty' : IsCase emptyTree (ruleDir .capella .slashingsReset) "empty" :=
    isCase_ruleTree_iff.2 (by decide +kernel)
  have hbroken' : ¬IsCase emptyTree (ruleDir .capella .slashingsReset) "broken" :=
    mt isCase_ruleTree_iff.1 (by decide +kernel)
  rw [← casesDir_eq_ruleDir 4] at hbroken hempty
  rw [← casesDir_eq_ruleDir 1] at hempty' hbroken'
  have hspec : Spec.ofName "minimal" = .ok .minimal := rfl
  have hr := run_of_isCase Pool.collects_tasks hspec rfl (starts_tasks _) hbroken
  have hs := run_of_isCase Pool.collects_tasks hspec rfl (starts_tasks _) hempty'
  refine ⟨_, _, hr, hs, ?_, ?_, ?_, run_isolates_cases Pool.collects_tasks Pool.collects_tasks
    (tidy_ruleTree htidy) (tidy_ruleTree (tidy_empty.single (by decide)))
    (linkFree_ruleTree hbrokenFree) (linkFree_ruleTree (hfree.single _)) hagree hr hs⟩
  · rw [names_reportOn]
    exact (mem_caseNames_iff hspec).2 hbroken
  · rw [names_reportOn]
    exact (mem_caseNames_iff hspec).2 hempty
  · rw [names_reportOn]
    exact mt (mem_caseNames_iff hspec).1 hbroken'

end Suite

end BeaconReplay
