import BeaconReplay.Proofs.Disk.Paths
import BeaconReplay.Proofs.Disk.Trees
import BeaconReplay.Proofs.Replay.Report
import BeaconReplay.Proofs.Text.Order

/-!
# The cases of an operation

The cases of an operation at a fork are the directories in one directory of the tree. The path of
that directory is made of names, and each case is told by its own name; in a tidy tree the names
ascend, so that each case is listed once.
-/
namespace BeaconReplay

namespace Spec

theorem configName_of_ofName {config : String} {spec : Spec} (h : ofName config = .ok spec) :
    spec.configName = config := by
  rw [ofName] at h
  split_ifs at h with hminimal hmainnet
  · cases h
    exact hminimal.symm
  · cases h
    exact hmainnet.symm

end Spec

namespace CaseFolder

/-- Folders of different names are listed in strictly ascending order. -/
theorem inside_ascending {d : Disk} {dir : String} {names : List String} (h : names.Nodup) :
    ((inside d dir names).map name).Pairwise (· < ·) := by
  rw [inside]
  generalize hfolders : (names.map fun name => CaseFolder.mk name (Path.join dir name)).filter
    (fun f => d.isDirectory f.path) = folders
  let le (a b : CaseFolder) : Bool := decide (a.name ≤ b.name)
  have hsorted : (folders.mergeSort le).Pairwise fun a b => a.name ≤ b.name := by
    refine (List.pairwise_mergeSort (fun a b c hab hbc => ?_) (fun a b => ?_) folders).imp
      of_decide_eq_true
    · exact decide_eq_true ((of_decide_eq_true hab).trans (of_decide_eq_true hbc))
    · simpa [le] using le_total a.name b.name
  have hdistinct : ((folders.mergeSort le).map name).Nodup := by
    have hnames :
        (names.map fun name => CaseFolder.mk name (Path.join dir name)).map name = names := by
      rw [List.map_map]
      exact List.map_id names
    rw [← hnames] at h
    rw [((List.mergeSort_perm folders le).map name).nodup_iff, ← hfolders]
    exact h.sublist (List.filter_sublist.map name)
  rw [List.pairwise_map]
  exact (hsorted.and (List.pairwise_map.1 hdistinct)).imp fun h => lt_of_le_of_ne h.1 h.2

end CaseFolder

namespace Suite

variable {disk : Disk} {suite : Suite} {spec : Spec} {fork : Fork} {op : Operation}
  {folder : CaseFolder}

/-- Whether a folder holds a case of an operation at a fork: it is one of the directories in the
directory of the category. -/
def HasCase (suite : Suite) (disk : Disk) (spec : Spec) (fork : Fork) (op : Operation)
    (folder : CaseFolder) : Prop :=
  let dir := CaseFolder.categoryDir suite.root spec fork op.category
  ∃ names, disk.names? dir = some names ∧ folder.name ∈ names ∧
    folder.path = Path.join dir folder.name ∧ disk.isDirectory folder.path = true

theorem mem_cases_iff :
    folder ∈ suite.cases disk spec fork op ↔ suite.HasCase disk spec fork op folder := by
  obtain ⟨name, path⟩ := folder
  unfold cases CaseFolder.locate HasCase
  cases hnames : disk.names? (CaseFolder.categoryDir suite.root spec fork op.category) with
  | none => simp [hnames]
  | some names =>
    simp only [CaseFolder.inside, List.mem_mergeSort, List.mem_filter, List.mem_map,
      CaseFolder.mk.injEq, hnames, Option.some.injEq, exists_eq_left']
    constructor
    · rintro ⟨⟨other, hmem, rfl, rfl⟩, hdir⟩
      exact ⟨hmem, rfl, hdir⟩
    · rintro ⟨hmem, rfl, hdir⟩
      exact ⟨⟨name, hmem, rfl, rfl⟩, hdir⟩

theorem cases_ne_nil_iff :
    suite.cases disk spec fork op ≠ [] ↔ ∃ folder, suite.HasCase disk spec fork op folder := by
  simp [← mem_cases_iff, List.eq_nil_iff_forall_not_mem]

variable {d : Disk} {config : String}

/-- The directory of the cases of an operation. -/
def casesDir (suite : Suite) (config : String) (fork : Fork) (op : Operation) : String :=
  ([config, fork.label, "epoch_processing"] ++ Path.names op.rule ++ [CaseFolder.casesName]).foldl
    Path.join suite.root

theorem categoryDir_eq (h : Spec.ofName config = .ok spec) :
    CaseFolder.categoryDir suite.root spec fork op.category = suite.casesDir config fork op := by
  have hcategory : Path.names op.category = "epoch_processing" :: Path.names op.rule := by
    have hslash : op.category = "epoch_processing" ++ "/" ++ op.rule := rfl
    rw [hslash, Path.names_slash, Path.names_of_slash_free (by decide) (by decide)]
    rfl
  rw [CaseFolder.categoryDir, hcategory, Spec.configName_of_ofName h, casesDir]
  simp

/-- The names of the cases of an operation. -/
def caseNames (suite : Suite) (d : Disk) (spec : Spec) (fork : Fork) (op : Operation) :
    List String :=
  (suite.cases d spec fork op).map CaseFolder.name

/-- A case is one of the entries of a directory, and a directory itself. -/
structure IsCase (d : Disk) (dir name : String) : Prop where
  listed : ∃ names, d.names? dir = some names ∧ name ∈ names
  isDirectory : d.isDirectory (Path.join dir name) = true

theorem IsCase.isDirectory_dir {dir name : String} (h : IsCase d dir name) :
    d.isDirectory dir = true := by
  obtain ⟨names, hnames, -⟩ := h.listed
  obtain ⟨entries, hfind, -⟩ := Disk.names?_eq_some_iff.1 hnames
  exact Disk.isDirectory_iff.2 ⟨entries, hfind⟩

theorem mem_caseNames_iff (h : Spec.ofName config = .ok spec) {name : String} :
    name ∈ suite.caseNames d spec fork op ↔ IsCase d (suite.casesDir config fork op) name := by
  rw [caseNames, List.mem_map]
  simp only [mem_cases_iff, HasCase, categoryDir_eq h]
  constructor
  · rintro ⟨⟨name, path⟩, ⟨names, hnames, hmem, hpath, hdir⟩, rfl⟩
    exact ⟨⟨names, hnames, hmem⟩, hpath ▸ hdir⟩
  · rintro ⟨⟨names, hnames, hmem⟩, hdir⟩
    exact ⟨⟨name, _⟩, ⟨names, hnames, hmem, rfl, hdir⟩, rfl⟩

/-- The folder of a case is told by its name. -/
theorem cases_eq_map (h : Spec.ofName config = .ok spec) : suite.cases d spec fork op =
    (suite.caseNames d spec fork op).map fun name =>
      ⟨name, Path.join (suite.casesDir config fork op) name⟩ := by
  rw [caseNames, List.map_map]
  refine ((List.map_congr_left fun folder hfolder => ?_).trans (List.map_id _)).symm
  obtain ⟨names, -, -, hpath, -⟩ := mem_cases_iff.1 hfolder
  rw [categoryDir_eq h] at hpath
  rw [Function.comp_apply, ← hpath]
  rfl

/-- A case is listed with the path of its directory. -/
theorem mem_cases_of_isCase (h : Spec.ofName config = .ok spec) {name : String}
    (hcase : IsCase d (suite.casesDir config fork op) name) :
    ⟨name, Path.join (suite.casesDir config fork op) name⟩ ∈ suite.cases d spec fork op := by
  rw [cases_eq_map h]
  exact List.mem_map.2 ⟨name, (mem_caseNames_iff h).2 hcase, rfl⟩

/-- A suite with a case reports on its cases, if its threads can be started. -/
theorem run_of_isCase {pool : Pool} (hpool : pool.Collects) (hname : Spec.ofName config = .ok spec)
    (hfork : op.supports fork = true) (hstarts : suite.Starts pool) {name : String}
    (hcase : IsCase d (suite.casesDir config fork op) name) :
    (suite.run pool d config fork op).1 = .ok (suite.reportOn d config spec fork op) :=
  (run_eq_ok_iff hpool).2
    ⟨spec, hname, hfork, List.ne_nil_of_mem (mem_cases_of_isCase hname hcase), hstarts, rfl⟩

theorem names_reportOn : (suite.reportOn d config spec fork op).names =
    suite.caseNames d spec fork op := by
  rw [reportOn, Report.names, List.map_map]
  rfl

/-- The names of the cases ascend. -/
theorem caseNames_ascending (hd : d.Tidy) :
    (suite.caseNames d spec fork op).Pairwise (· < ·) := by
  rw [caseNames, cases, CaseFolder.locate]
  cases hnames : d.names? (CaseFolder.categoryDir suite.root spec fork op.category) with
  | none => exact .nil
  | some names => exact CaseFolder.inside_ascending (hd.nodup_names hnames)

/-- The path of the directory of the cases ends in a name. -/
theorem open_casesDir (suite : Suite) (config : String) (fork : Fork) (op : Operation) :
    Path.Open (suite.casesDir config fork op) := by
  rw [casesDir, List.foldl_append]
  exact Path.open_join (q := CaseFolder.casesName) _ (by decide) (by decide)

end Suite

end BeaconReplay
