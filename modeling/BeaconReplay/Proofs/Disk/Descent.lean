import BeaconReplay.Proofs.Disk.Paths
import BeaconReplay.Proofs.Disk.Trees

/-!
# Descending into a tree without links

Without links the parts of a path alone tell the place that they lead to. A look-up that goes on
from a directory by names of entries sees that directory and what is below it, and nothing else of
the tree. So trees that agree outside one place give the same answers at every path that leads past
that place.
-/
namespace BeaconReplay

namespace Path

/-- The place that parts lead to from another one; of both the innermost name stands first. -/
def resolve : List String → List String → List String
  | above, [] => above
  | above, name :: rest =>
    if name = "" ∨ name = "." then resolve above rest
    else if name = ".." then resolve above.tail rest
    else resolve (name :: above) rest

/-- The place in a tree that a path leads to. -/
def place (mount path : String) : List String :=
  (resolve [] ((below? mount path).getD [])).reverse

end Path

namespace Entry

/-- An entry without links. -/
inductive LinkFree : Entry → Prop
  | file (text : Option String) : LinkFree (.file text)
  | directory {entries : List (String × Entry)} (inner : ∀ e ∈ entries, LinkFree e.2) :
      LinkFree (.directory entries)

theorem LinkFree.lookup {entries : List (String × Entry)} {name : String} {e : Entry}
    (h : LinkFree (.directory entries)) (he : entries.lookup name = some e) : e.LinkFree := by
  cases h with
  | directory inner => exact inner (name, e) (Names.mem_of_lookup he)

theorem LinkFree.single {e : Entry} (h : e.LinkFree) (name : String) :
    LinkFree (.directory [(name, e)]) :=
  .directory (by simpa using h)

/-- Entries that hold the same everywhere but at a place and below it. -/
def AgreeOutside (d e : Entry) (place : List String) : Prop :=
  ∀ other, ¬place <+: other → d.kindAt other = e.kindAt other

/-- A directory may have one entry more. -/
theorem agreeOutside_cons (name : String) (e : Entry) (entries : List (String × Entry)) :
    AgreeOutside (.directory ((name, e) :: entries)) (.directory entries) [name] := by
  intro other hother
  cases other with
  | nil => rfl
  | cons k other =>
    have hne : k ≠ name := by
      rintro rfl
      exact hother (List.cons_prefix_cons.2 ⟨rfl, List.nil_prefix⟩)
    rw [kindAt_cons, kindAt_cons, List.lookup_cons, beq_false_of_ne hne]

theorem AgreeOutside.directory {d e : Entry} {place : List String} (h : d.AgreeOutside e place)
    (name : String) :
    AgreeOutside (.directory [(name, d)]) (.directory [(name, e)]) (name :: place) := by
  intro other hother
  cases other with
  | nil => rfl
  | cons k other =>
    by_cases hk : k = name
    · subst hk
      have hrest : ¬place <+: other := fun hprefix =>
        hother (List.cons_prefix_cons.2 ⟨rfl, hprefix⟩)
      simpa using h other hrest
    · simp [List.lookup_cons, beq_false_of_ne hk]

end Entry

namespace Directories

open Entry

variable {top here : List (String × Entry)} {above : List String} {ds : Directories}
  {onLink onLink' : Directories → String → List String → Except ReadFault Entry}

/-- The directories from a place of a tree up to its top. -/
inductive At (top : List (String × Entry)) : List String → Directories → Prop
  | top : At top [] [top]
  | down {above : List String} {here inner : List (String × Entry)} {around : Directories}
      {name : String} (h : At top above (here :: around))
      (hinner : here.lookup name = some (.directory inner)) :
      At top (name :: above) (inner :: here :: around)

theorem At.exists_cons (h : At top above ds) : ∃ here around, ds = here :: around := by
  cases h with
  | top => exact ⟨_, _, rfl⟩
  | down _ _ => exact ⟨_, _, rfl⟩

theorem At.linkFree {around : Directories} (htop : LinkFree (.directory top))
    (h : At top above (here :: around)) : LinkFree (.directory here) := by
  generalize hds : here :: around = ds at h
  induction h generalizing here around with
  | top =>
    cases hds
    exact htop
  | down _ hinner ih =>
    cases hds
    exact (ih rfl).lookup hinner

/-- What stands below a place of the tree stands below its directory. -/
theorem At.kindAt {around : Directories} (h : At top above (here :: around))
    (place : List String) : (Entry.directory top).kindAt (above.reverse ++ place) =
      (Entry.directory here).kindAt place := by
  generalize hds : here :: around = ds at h
  induction h generalizing here around place with
  | top =>
    cases hds
    rfl
  | @down above here inner around name _ hinner ih =>
    cases hds
    rw [List.reverse_cons, List.append_assoc, ih _ rfl, List.singleton_append, kindAt_cons, hinner]
    rfl

/-- A directory is found at the place that the parts tell, and what is behind them is looked up
from there. -/
theorem At.follow_directory (htop : LinkFree (.directory top)) (h : At top above ds)
    {parts : List String} (hfound : follow onLink ds parts = .ok (.directory here)) :
    ∃ around, At top (Path.resolve above parts) (here :: around) ∧
      ∀ rest, follow onLink ds (parts ++ rest) = follow onLink (here :: around) rest := by
  -- The stack of directories and the place go along the parts together, also upwards.
  induction parts generalizing above ds with
  | nil =>
    cases h with
    | top =>
      cases hfound
      exact ⟨[], .top, fun _ => rfl⟩
    | down h hinner =>
      cases hfound
      exact ⟨_, .down h hinner, fun _ => rfl⟩
  | cons name parts ih =>
    obtain ⟨first, around, rfl⟩ := h.exists_cons
    rw [Path.resolve]
    split_ifs with hself habove
    · rw [follow_here hself] at hfound
      obtain ⟨around', hat, hrest⟩ := ih h hfound
      exact ⟨around', hat, fun rest => by rw [List.cons_append, follow_here hself, hrest]⟩
    · subst habove
      rw [follow_above] at hfound
      cases h with
      | top =>
        rw [follow] at hfound
        cases hfound
      | down h _ =>
        obtain ⟨around', hat, hrest⟩ := ih h hfound
        exact ⟨around', hat, fun rest => by rw [List.cons_append, follow_above, hrest]⟩
    · rw [follow_name hself habove] at hfound
      cases hlookup : first.lookup name with
      | none =>
        rw [hlookup] at hfound
        cases hfound
      | some e =>
        rw [hlookup] at hfound
        cases e with
        | file text =>
          dsimp only at hfound
          split_ifs at hfound
          cases hfound
        | link target =>
          cases (h.linkFree htop).lookup hlookup
        | directory inner =>
          obtain ⟨around', hat, hrest⟩ := ih (.down h hlookup) hfound
          refine ⟨around', hat, fun rest => ?_⟩
          rw [List.cons_append, follow_name hself habove, hlookup, ← hrest]

section Names

variable {here' : List (String × Entry)} {around around' : Directories} {name : String}
  {rest : List String}

/-- Below directories without links a name leads to alike entries if it stands for such entries and
the directories among them do so. -/
theorem follow_linkFree_agree (hfree : LinkFree (.directory here)) (hname : IsName name)
    (h : Option.Rel Alike (here.lookup name) (here'.lookup name))
    (hinner : ∀ inner inner', here.lookup name = some (.directory inner) →
      Alike (.directory inner) (.directory inner') →
      Agree Alike (follow onLink (inner :: here :: around) rest)
        (follow onLink' (inner' :: here' :: around') rest)) :
    Agree Alike (follow onLink (here :: around) (name :: rest))
      (follow onLink' (here' :: around') (name :: rest)) :=
  follow_entry_agree alike_simulation (not_or.2 ⟨hname.ne_empty, hname.ne_here⟩) hname.ne_above h
    hinner fun _ hlink => nomatch hfree.lookup hlink

/-- Names of entries lead down, so that only what is below a directory counts. -/
theorem follow_names_agree (hfree : LinkFree (.directory here)) (hrest : ∀ n ∈ rest, IsName n)
    (h : Alike (.directory here) (.directory here')) :
    Agree Alike (follow onLink (here :: around) rest) (follow onLink' (here' :: around') rest) := by
  induction rest generalizing here here' around around' with
  | nil => exact .ok h
  | cons name rest ih =>
    obtain ⟨hname, hrest⟩ := List.forall_mem_cons.1 hrest
    exact follow_linkFree_agree hfree hname (alike_simulation.lookup h name)
      fun inner inner' hin halike => ih (hfree.lookup hin) hrest halike

end Names

end Directories

namespace Disk

open Entry

variable {d e : Disk} {dir name : String} {here : List (String × Entry)}

/-- A tree without links. -/
def LinkFree (d : Disk) : Prop := (Entry.directory d.entries).LinkFree

/-- Trees at one place that hold the same everywhere but at a place and below it. -/
structure AgreeOutside (d e : Disk) (place : List String) : Prop where
  mount : d.mount = e.mount
  entries : (Entry.directory d.entries).AgreeOutside (.directory e.entries) place

theorem AgreeOutside.symm {place : List String} (h : d.AgreeOutside e place) :
    e.AgreeOutside d place :=
  ⟨h.mount.symm, fun other hother => (h.entries other hother).symm⟩

/-- A directory is found at its place, and what is behind it is looked up from there. -/
theorem find_behind (hd : d.LinkFree) (hdir : d.find dir = .ok (.directory here)) :
    ∃ around, Directories.At d.entries (Path.place d.mount dir).reverse (here :: around) ∧
      ∀ q, d.find (dir ++ "/" ++ q) =
        d.walk linkLimit (here :: around) (Path.split q) := by
  rw [find] at hdir
  cases hbelow : Path.below? d.mount dir with
  | none =>
    rw [hbelow] at hdir
    cases hdir
  | some parts =>
    rw [hbelow] at hdir
    obtain ⟨around, hat, hrest⟩ := Directories.At.top.follow_directory hd hdir
    refine ⟨around, ?_, fun q => ?_⟩
    · rw [Path.place, hbelow, List.reverse_reverse]
      exact hat
    · rw [find, Path.below?_slash hbelow]
      exact hrest (Path.split q)

section Outside

variable {c : String} {here' : List (String × Entry)}
  (h : d.AgreeOutside e (Path.place d.mount dir ++ [c])) (hd : d.LinkFree) (he : e.LinkFree)
  (hdir : d.find dir = .ok (.directory here)) (hdir' : e.find dir = .ok (.directory here'))
  (hne : name ≠ c)

include h hd he hdir hdir' hne

/-- Under every name but the one of the place, a directory holds alike entries. -/
theorem AgreeOutside.rel_lookup :
    Option.Rel Entry.Alike (here.lookup name) (here'.lookup name) := by
  obtain ⟨around, hat, -⟩ := find_behind hd hdir
  obtain ⟨around', hat', -⟩ := find_behind he hdir'
  refine Entry.rel_lookup fun below => ?_
  rw [← hat.kindAt, ← hat'.kindAt, ← h.mount]
  refine h.entries _ fun hprefix => hne ?_
  rw [List.reverse_reverse, List.prefix_append_right_inj, List.cons_prefix_cons] at hprefix
  exact hprefix.1.symm

/-- Past the place the same is found in both trees. -/
theorem AgreeOutside.find_agree {q : String} {parts : List String} (hname : IsName name)
    (hparts : ∀ n ∈ parts, IsName n) (hq : Path.split q = name :: parts) :
    Agree Entry.Alike (d.find (dir ++ "/" ++ q)) (e.find (dir ++ "/" ++ q)) := by
  have hlookup := h.rel_lookup hd he hdir hdir' hne
  obtain ⟨around, hat, hrest⟩ := find_behind hd hdir
  obtain ⟨around', -, hrest'⟩ := find_behind he hdir'
  have hfree := hat.linkFree hd
  rw [hrest, hrest', hq]
  exact Directories.follow_linkFree_agree hfree hname hlookup fun inner inner' hin halike =>
    Directories.follow_names_agree (hfree.lookup hin) hparts halike

end Outside

end Disk

end BeaconReplay
