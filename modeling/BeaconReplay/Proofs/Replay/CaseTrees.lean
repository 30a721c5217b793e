import BeaconReplay.Proofs.Disk.Descent
import BeaconReplay.Proofs.Disk.Entries
import BeaconReplay.Proofs.Replay.Cases
import BeaconReplay.Proofs.Replay.Printed

/-!
# Trees with the cases of one rule

A tree may hold the cases of one rule at one fork and nothing else: directories with one entry each
lead to these cases. What a suite finds there is told by the entries of the last directory, and a
case among them that holds printed states is judged by the states, however large their lists are.
-/
namespace BeaconReplay

namespace Entry

variable {names : List String} {ds es : List (String × Entry)}

/-- Entries below directories that hold nothing else. -/
def nest : List String → List (String × Entry) → List (String × Entry)
  | [], entries => entries
  | name :: names, entries => [(name, .directory (nest names entries))]

theorem Tidy.nest (hnames : ∀ name ∈ names, IsName name) (h : (Entry.directory es).Tidy) :
    (Entry.directory (nest names es)).Tidy := by
  induction names with
  | nil => exact h
  | cons name names ih =>
    obtain ⟨hname, hnames⟩ := List.forall_mem_cons.1 hnames
    exact (ih hnames).single hname

theorem Alike.nest (names : List String) (h : (Entry.directory ds).Alike (.directory es)) :
    (Entry.directory (nest names ds)).Alike (.directory (nest names es)) := by
  induction names with
  | nil => exact h
  | cons name names ih => exact ih.directory name

theorem LinkFree.nest (names : List String) (h : (Entry.directory es).LinkFree) :
    (Entry.directory (nest names es)).LinkFree := by
  induction names with
  | nil => exact h
  | cons name names ih => exact ih.single name

theorem AgreeOutside.nest (names : List String) {place : List String}
    (h : (Entry.directory ds).AgreeOutside (.directory es) place) :
    (Entry.directory (nest names ds)).AgreeOutside (.directory (nest names es))
      (names ++ place) := by
  induction names with
  | nil => exact h
  | cons name names ih => exact ih.directory name

/-- The names of the directories lead to the entries. -/
theorem follow_nest {onLink : Directories → String → List String → Except ReadFault Entry}
    {around : Directories} (hnames : ∀ name ∈ names, IsName name) :
    Directories.follow onLink (nest names es :: around) names = .ok (.directory es) := by
  induction names generalizing around with
  | nil => rfl
  | cons name names ih =>
    obtain ⟨hname, hnames⟩ := List.forall_mem_cons.1 hnames
    rw [nest, Directories.follow_name (not_or.2 ⟨hname.ne_empty, hname.ne_here⟩) hname.ne_above,
      List.lookup_cons_self]
    exact ih hnames

end Entry

namespace Suite

open Fixture

variable {n : ℕ} {fork : Fork} {rule : Rule} {ds es files : List (String × Entry)} {name : String}
  {pre post : BeaconState}

/-- The names that lead to the cases of a rule of the small profile. -/
def ruleNames (fork : Fork) (rule : Rule) : List String :=
  ["minimal", fork.label, "epoch_processing", rule.name, CaseFolder.casesName]

theorem isName_ruleName (rule : Rule) : Entry.IsName rule.name := by
  cases rule <;> decide

theorem isName_of_mem_ruleNames : ∀ name ∈ ruleNames fork rule, Entry.IsName name := by
  cases fork <;> cases rule <;> decide

/-- A tree with the cases of one rule of the small profile. -/
def ruleTree (fork : Fork) (rule : Rule) (entries : List (String × Entry)) : Disk :=
  ⟨"v", Entry.nest (ruleNames fork rule) entries⟩

theorem tidy_ruleTree (h : (Entry.directory es).Tidy) : (ruleTree fork rule es).Tidy :=
  h.nest isName_of_mem_ruleNames

theorem alike_ruleTree (h : (Entry.directory ds).Alike (.directory es)) :
    (ruleTree fork rule ds).Alike (ruleTree fork rule es) :=
  ⟨rfl, h.nest _⟩

theorem linkFree_ruleTree (h : (Entry.directory es).LinkFree) :
    (ruleTree fork rule es).LinkFree :=
  h.nest _

/-- The directory of the cases of a rule. -/
def ruleDir (fork : Fork) (rule : Rule) : String := (ruleNames fork rule).foldl Path.join "v"

theorem casesDir_eq_ruleDir (n : ℕ) (fork : Fork) (rule : Rule) :
    casesDir ⟨"v", n⟩ "minimal" fork (.ofRule rule) = ruleDir fork rule := by
  have hname := isName_ruleName rule
  have hrule : Path.names (Operation.ofRule rule).rule = [rule.name] :=
    Path.names_of_slash_free hname.ne_empty hname.slash_free
  rw [casesDir, hrule]
  rfl

theorem open_ruleDir : Path.Open (ruleDir fork rule) :=
  casesDir_eq_ruleDir 0 fork rule ▸ open_casesDir _ _ _ _

theorem below?_ruleDir : Path.below? "v" (ruleDir fork rule) = some (ruleNames fork rule) := by
  have hopen : Path.Open "v" := Path.open_of_slash_free (by decide) (by decide)
  have htop : Path.below? "v" "v" = some [] := by decide +kernel
  refine Path.below?_foldl_join hopen htop fun name hname => ?_
  have hname := isName_of_mem_ruleNames name hname
  exact ⟨hname.ne_empty, hname.slash_free⟩

theorem place_ruleDir : Path.place "v" (ruleDir fork rule) = ruleNames fork rule := by
  rw [Path.place, below?_ruleDir]
  cases fork <;> cases rule <;> rfl

theorem agreeOutside_ruleTree {place : List String}
    (h : (Entry.directory ds).AgreeOutside (.directory es) place) :
    (ruleTree fork rule ds).AgreeOutside (ruleTree fork rule es)
      (Path.place "v" (ruleDir fork rule) ++ place) :=
  ⟨rfl, place_ruleDir ▸ h.nest _⟩

theorem find_ruleDir (es : List (String × Entry)) :
    (ruleTree fork rule es).find (ruleDir fork rule) = .ok (.directory es) := by
  have hmount : (ruleTree fork rule es).mount = "v" := rfl
  rw [Disk.find, hmount, below?_ruleDir]
  exact Entry.follow_nest isName_of_mem_ruleNames

/-- The cases are the entries that lead to directories. -/
theorem isCase_ruleTree_iff : IsCase (ruleTree fork rule es) (ruleDir fork rule) name ↔
    name ∈ es.map Prod.fst ∧
      (ruleTree fork rule es).isDirectory (Path.join (ruleDir fork rule) name) = true := by
  have hnames : (ruleTree fork rule es).names? (ruleDir fork rule) = some (es.map Prod.fst) :=
    Disk.names?_eq_some_iff.2 ⟨es, find_ruleDir es, rfl⟩
  constructor
  · rintro ⟨⟨names, hsome, hmem⟩, hdirectory⟩
    cases hnames.symm.trans hsome
    exact ⟨hmem, hdirectory⟩
  · rintro ⟨hmem, hdirectory⟩
    exact ⟨⟨_, hnames, hmem⟩, hdirectory⟩

theorem hasCase_ruleTree_iff {folder : CaseFolder} :
    HasCase ⟨"v", n⟩ (ruleTree fork rule es) .minimal fork (.ofRule rule) folder ↔
      folder.name ∈ es.map Prod.fst ∧ folder.path = Path.join (ruleDir fork rule) folder.name ∧
        (ruleTree fork rule es).isDirectory folder.path = true := by
  have hspec : Spec.ofName "minimal" = .ok .minimal := rfl
  have hdir : CaseFolder.categoryDir "v" .minimal fork (Operation.ofRule rule).category =
      ruleDir fork rule := by
    rw [← casesDir_eq_ruleDir n, ← categoryDir_eq hspec]
  have hnames : (ruleTree fork rule es).names? (ruleDir fork rule) = some (es.map Prod.fst) :=
    Disk.names?_eq_some_iff.2 ⟨es, find_ruleDir es, rfl⟩
  simp only [HasCase, hdir, hnames, Option.some.injEq, exists_eq_left']

section Case

variable (hname : Entry.IsName name) (hentry : es.lookup name = some (.directory files))
include hname hentry

theorem find_case : (ruleTree fork rule es).find (Path.join (ruleDir fork rule) name) =
    .ok (.directory files) :=
  Disk.find_entry open_ruleDir (find_ruleDir es) hname hentry (by simp)

theorem isCase_of_lookup : IsCase (ruleTree fork rule es) (ruleDir fork rule) name := by
  refine isCase_ruleTree_iff.2 ⟨?_, Disk.isDirectory_iff.2 ⟨_, find_case hname hentry⟩⟩
  exact List.mem_map_of_mem (Names.mem_of_lookup hentry)

/-- The case is one of those that a suite replays. -/
theorem mem_cases_ruleTree : ⟨name, Path.join (ruleDir fork rule) name⟩ ∈
    cases ⟨"v", n⟩ (ruleTree fork rule es) .minimal fork (.ofRule rule) := by
  have hcase : IsCase (ruleTree fork rule es) (ruleDir fork rule) name :=
    isCase_of_lookup hname hentry
  rw [← casesDir_eq_ruleDir n] at hcase ⊢
  exact mem_cases_of_isCase rfl hcase

/-- A tree with a case is reported on. -/
theorem run_ruleTree (hfork : rule.supports fork = true) :
    (Suite.run .tasks (ruleTree fork rule es) ⟨"v", n⟩ "minimal" fork (.ofRule rule)).1 =
      .ok (reportOn ⟨"v", n⟩ (ruleTree fork rule es) "minimal" .minimal fork (.ofRule rule)) :=
  (run_eq_ok_iff Pool.collects_tasks).2 ⟨.minimal, rfl, hfork,
    List.ne_nil_of_mem (mem_cases_ruleTree hname hentry), starts_tasks _, rfl⟩

/-- A file of a case is read. -/
theorem read_file {file text : String} (hfile : Entry.IsName file)
    (htext : files.lookup file = some (.file (some text))) :
    (ruleTree fork rule es).read (Path.join (Path.join (ruleDir fork rule) name) file) =
      .ok text := by
  rw [Disk.read, Disk.find_entry (Path.open_join _ hname.ne_empty hname.slash_free)
    (find_case hname hentry) hfile htext (by simp)]
  rfl

/-- A file that a case does not have is not there. -/
theorem holds_file {file : String} (hfile : Entry.IsName file)
    (hnone : files.lookup file = none) :
    (ruleTree fork rule es).holds (Path.join (Path.join (ruleDir fork rule) name) file) =
      false := by
  rw [Disk.holds, Disk.find_missing (Path.open_join _ hname.ne_empty hname.slash_free)
    (find_case hname hentry) hfile hnone]
  rfl

end Case

/-! ## Cases of printed states -/

/-- A case of two printed states. -/
def printedCase (pre post : BeaconState) : List (String × Entry) :=
  [(preName, .file (some pre.yaml)), (postName, .file (some post.yaml))]

/-- A case of a printed state that expects a failure. -/
def failingCase (pre : BeaconState) : List (String × Entry) := [(preName, .file (some pre.yaml))]

/-- A case of a state and of what the rule makes of it passes. -/
theorem replay_printedCase (hname : Entry.IsName name)
    (hentry : es.lookup name = some (.directory (printedCase pre post))) (hfork : pre.fork = fork)
    (hvalid : pre.validate .minimal = .ok ()) (happly : rule.apply .minimal pre = .ok post)
    (hpostFork : post.fork = fork) (hpostValid : post.validate .minimal = .ok ()) :
    replay (ruleTree fork rule es) .minimal fork (Path.join (ruleDir fork rule) name)
      (.ofRule rule) = .ok () := by
  have hload : load (ruleTree fork rule es) .minimal fork (Path.join (ruleDir fork rule) name) =
      .ok ⟨pre, some post⟩ :=
    load_of_readState (readState_printed (read_file hname hentry (by decide) rfl) hfork hvalid)
      (readState_printed (read_file hname hentry (by decide) rfl) hpostFork hpostValid)
  rw [replay_of_transition hload (Operation.transition_ofRule_eq_ok_iff.2 happly), if_pos rfl]

/-- So nothing is reported to be wrong with it. -/
theorem run_printedCase (hname : Entry.IsName name)
    (hentry : es.lookup name = some (.directory (printedCase pre post))) (hfork : pre.fork = fork)
    (hvalid : pre.validate .minimal = .ok ()) (happly : rule.apply .minimal pre = .ok post)
    (hpostFork : post.fork = fork) (hpostValid : post.validate .minimal = .ok ()) :
    Subtest.run (ruleTree fork rule es) .minimal fork (.ofRule rule)
      ⟨name, Path.join (ruleDir fork rule) name⟩ = ⟨name, none⟩ := by
  have hpasses := replay_printedCase hname hentry hfork hvalid happly hpostFork hpostValid
  exact Subtest.run_of_failure_none (Subtest.failure_eq_none_iff.2 hpasses)

/-- A tree with one case of the voting rule, in which nothing is to be done. -/
def keptTree : Disk :=
  ruleTree .capella .eth1DataReset [("kept", .directory (printedCase emptyState emptyState))]

/-- Its case passes, and there is no other one. -/
theorem replay_keptTree {folder : CaseFolder}
    (h : HasCase ⟨"v", n⟩ keptTree .minimal .capella (.ofRule .eth1DataReset) folder) :
    replay keptTree .minimal .capella folder.path (.ofRule .eth1DataReset) = .ok () := by
  have hvalid : emptyState.validate .minimal = .ok () := BeaconState.validate_new .minimal .capella
  have happly : Rule.apply .eth1DataReset .minimal emptyState = .ok emptyState := rfl
  obtain ⟨hname, hpath, -⟩ := hasCase_ruleTree_iff.1 h
  rw [hpath, List.mem_singleton.1 hname]
  exact replay_printedCase (by decide) rfl rfl hvalid happly rfl hvalid

theorem passed_keptTree : (reportOn ⟨"v", n⟩ keptTree "minimal" .minimal .capella
    (.ofRule .eth1DataReset)).passed = true := by
  simp only [Report.passed, reportOn, List.all_map, List.all_eq_true, Function.comp_apply,
    Option.isNone_iff_eq_none, Subtest.failure_eq_none_iff]
  exact fun folder hfolder => replay_keptTree (mem_cases_iff.1 hfolder)

theorem run_keptTree :
    (Suite.run .tasks keptTree ⟨"v", n⟩ "minimal" .capella (.ofRule .eth1DataReset)).1 =
      .ok (reportOn ⟨"v", n⟩ keptTree "minimal" .minimal .capella (.ofRule .eth1DataReset)) := by
  have hname : Entry.IsName "kept" := by decide
  exact run_ruleTree hname rfl rfl

theorem hasCase_keptTree : ∃ folder,
    HasCase ⟨"v", n⟩ keptTree .minimal .capella (.ofRule .eth1DataReset) folder := by
  have hname : Entry.IsName "kept" := by decide
  exact ⟨_, mem_cases_iff.1 (mem_cases_ruleTree hname rfl)⟩

end Suite

end BeaconReplay
