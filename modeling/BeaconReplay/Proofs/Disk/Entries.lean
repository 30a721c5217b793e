import BeaconReplay.Proofs.Disk.Paths
import BeaconReplay.Proofs.Disk.Trees

/-!
# Looking up the entries of a directory

A path may lead to a directory over links. What is joined to that path is looked up in the
directory, over the links that are left. So a file or a directory is found under the name of its
entry however many links lead to it, and only a link may come to nothing.
-/
namespace BeaconReplay

namespace Directories

variable {onLink : Directories → String → List String → Except ReadFault Entry}
  {ds around : Directories} {parts : List String} {here : List (String × Entry)} {name : String}

/-- If links that lead to a directory are gone on from there, so are paths. -/
theorem follow_directory {walk : ℕ → Directories → List String → Except ReadFault Entry}
    {links : ℕ} (hwalk : follow onLink = walk links)
    (hlink : ∀ {ds target parts here}, onLink ds target parts = .ok (.directory here) →
      ∃ around left, ∀ rest, onLink ds target (parts ++ rest) = walk left (here :: around) rest)
    (h : follow onLink ds parts = .ok (.directory here)) : ∃ around left,
      ∀ rest, follow onLink ds (parts ++ rest) = walk left (here :: around) rest := by
  induction parts generalizing ds with
  | nil =>
    cases ds with
    | nil => cases h
    | cons first around =>
      cases h
      exact ⟨around, links, fun rest => by rw [hwalk, List.nil_append]⟩
  | cons name parts ih =>
    cases ds with
    | nil => cases h
    | cons first around =>
      by_cases hself : name = "" ∨ name = "."
      · rw [follow_here hself] at h
        obtain ⟨around', left, hrest⟩ := ih h
        exact ⟨around', left, fun rest => by rw [List.cons_append, follow_here hself, hrest]⟩
      by_cases habove : name = ".."
      · subst habove
        rw [follow_above] at h
        obtain ⟨around', left, hrest⟩ := ih h
        exact ⟨around', left, fun rest => by rw [List.cons_append, follow_above, hrest]⟩
      rw [follow_name hself habove] at h
      simp only [List.cons_append, follow_name hself habove]
      cases hentry : first.lookup name with
      | none => simp [hentry] at h
      | some e =>
        simp only [hentry] at h
        cases e with
        | file text =>
          split_ifs at h
          cases h
        | directory inner => exact ih h
        | link target => exact hlink h

/-- A name without a link is looked up as the entry that it stands for. -/
theorem follow_entry {e : Entry} (hname : Entry.IsName name) (hentry : here.lookup name = some e)
    (hlink : ∀ target, e ≠ .link target) : follow onLink (here :: around) [name] = .ok e := by
  rw [follow_name (not_or.2 ⟨hname.ne_empty, hname.ne_here⟩) hname.ne_above, hentry]
  cases e with
  | file text => rfl
  | directory inner => rfl
  | link target => exact absurd rfl (hlink target)

/-- A name that no entry has leads nowhere. -/
theorem follow_missing (hname : Entry.IsName name) (hentry : here.lookup name = none) :
    follow onLink (here :: around) [name] = .error .notFound := by
  rw [follow_name (not_or.2 ⟨hname.ne_empty, hname.ne_here⟩) hname.ne_above, hentry]

end Directories

namespace Disk

variable {d : Disk} {dir name : String} {ds : Directories} {parts : List String}
  {here : List (String × Entry)} {e : Entry} {links : ℕ}

/-- Behind a directory the look-up goes on from there. -/
theorem walk_directory (h : d.walk links ds parts = .ok (.directory here)) : ∃ around left,
    ∀ rest, d.walk links ds (parts ++ rest) = d.walk left (here :: around) rest := by
  induction links generalizing ds parts here with
  | zero =>
    have hwalk : Directories.follow (fun _ _ _ => throw .tooManyLinks) = d.walk 0 := rfl
    exact Directories.follow_directory hwalk (fun h => nomatch h) h
  | succ links ih =>
    have hwalk : Directories.follow _ = d.walk (links + 1) := rfl
    refine Directories.follow_directory hwalk (fun {ds target parts here} h => ?_) h
    cases haim : d.aim ds target with
    | error fault =>
      rw [haim] at h
      cases h
    | ok aim =>
      rw [haim] at h
      obtain ⟨around, left, hrest⟩ := ih h
      exact ⟨around, left, fun rest => by rw [← hrest, List.append_assoc]⟩

/-- A walk follows the parts of a path, whatever links are left. -/
theorem walk_eq_follow (d : Disk) (links : ℕ) :
    ∃ onLink, d.walk links = Directories.follow onLink := by
  cases links with
  | zero => exact ⟨_, rfl⟩
  | succ links => exact ⟨_, rfl⟩

/-- What is joined to the path of a directory is looked up in the directory. -/
theorem find_join (hopen : Path.Open dir) (hdir : d.find dir = .ok (.directory here))
    (hname : Entry.IsName name) : ∃ onLink around,
      d.find (Path.join dir name) = Directories.follow onLink (here :: around) [name] := by
  rw [find] at hdir
  cases hbelow : Path.below? d.mount dir with
  | none => simp [hbelow] at hdir
  | some parts =>
    rw [hbelow] at hdir
    obtain ⟨around, left, hrest⟩ := walk_directory hdir
    obtain ⟨onLink, hwalk⟩ := walk_eq_follow d left
    refine ⟨onLink, around, ?_⟩
    rw [hopen.join hname.slash_free, find, Path.below?_slash hbelow,
      Path.split_of_slash_free hname.slash_free, ← hwalk]
    exact hrest [name]

/-- **Whatever links lead to a directory, an entry that is no link is found there by its name.** -/
theorem find_entry (hopen : Path.Open dir) (hdir : d.find dir = .ok (.directory here))
    (hname : Entry.IsName name) (hentry : here.lookup name = some e)
    (hlink : ∀ target, e ≠ .link target) : d.find (Path.join dir name) = .ok e := by
  obtain ⟨onLink, around, hjoin⟩ := find_join hopen hdir hname
  rw [hjoin, Directories.follow_entry hname hentry hlink]

/-- Under a name that it does not list, a directory holds nothing. -/
theorem find_missing (hopen : Path.Open dir) (hdir : d.find dir = .ok (.directory here))
    (hname : Entry.IsName name) (hentry : here.lookup name = none) :
    d.find (Path.join dir name) = .error .notFound := by
  obtain ⟨onLink, around, hjoin⟩ := find_join hopen hdir hname
  rw [hjoin, Directories.follow_missing hname hentry]

end Disk

end BeaconReplay
