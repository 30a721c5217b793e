import BeaconReplay.Disk.Tree
import BeaconReplay.Proofs.Names

/-!
# Trees up to the order of their entries

A file system lists the entries of a directory in no particular order. Two trees are alike if they
hold the same at every place, which leaves open the order of the entries. Where trees are alike, a
look-up finds the same in both: it takes each step by the name of an entry, and the links that it
follows are the same.
-/
namespace BeaconReplay

namespace Entry

/-- What stands at a place, apart from what a directory holds. -/
inductive Kind where
  | file (text : Option String)
  | link (target : String)
  | directory
  deriving DecidableEq

def kind : Entry → Kind
  | .file text => .file text
  | .link target => .link target
  | .directory _ => .directory

/-- The entry at a place below this one. -/
def at? : Entry → List String → Option Entry
  | e, [] => some e
  | .directory entries, name :: place => (entries.lookup name).bind fun e => e.at? place
  | _, _ :: _ => none

/-- What stands at a place below this entry. -/
def kindAt (e : Entry) (place : List String) : Option Kind := (e.at? place).map kind

@[simp] theorem kindAt_nil (e : Entry) : e.kindAt [] = some e.kind := by
  cases e <;> rfl

@[simp] theorem kindAt_cons (entries : List (String × Entry)) (name : String)
    (place : List String) : (Entry.directory entries).kindAt (name :: place) =
      (entries.lookup name).bind fun e => e.kindAt place := by
  rw [kindAt, at?, Option.map_bind]
  rfl

/-- Whether a file system takes a name for an entry. -/
structure IsName (name : String) : Prop where
  ne_empty : name ≠ ""
  ne_here : name ≠ "."
  ne_above : name ≠ ".."
  slash_free : '/' ∉ name.toList

instance (name : String) : Decidable (IsName name) :=
  decidable_of_iff (name ≠ "" ∧ name ≠ "." ∧ name ≠ ".." ∧ '/' ∉ name.toList)
    ⟨fun ⟨hempty, hhere, habove, hslash⟩ => ⟨hempty, hhere, habove, hslash⟩,
      fun ⟨hempty, hhere, habove, hslash⟩ => ⟨hempty, hhere, habove, hslash⟩⟩

/-- An entry as a file system holds it: the names in each directory are names, each of another
entry. -/
inductive Tidy : Entry → Prop
  | file (text : Option String) : Tidy (.file text)
  | link (target : String) : Tidy (.link target)
  | directory {entries : List (String × Entry)} (names : ∀ e ∈ entries, IsName e.1)
      (distinct : (entries.map Prod.fst).Nodup) (inner : ∀ e ∈ entries, Tidy e.2) :
      Tidy (.directory entries)

/-- Entries below which the same stands at every place. -/
def Alike (d e : Entry) : Prop := ∀ place, d.kindAt place = e.kindAt place

/-- A relation that holds on after each step into a directory. -/
structure Simulation (R : Entry → Entry → Prop) : Prop where
  kind : ∀ {d e}, R d e → d.kind = e.kind
  lookup : ∀ {ds es}, R (.directory ds) (.directory es) → ∀ name,
    Option.Rel R (ds.lookup name) (es.lookup name)

/-- Where the same stands at and below a name, there are alike entries or none. -/
theorem rel_lookup {ds es : List (String × Entry)} {name : String}
    (h : ∀ place, (Entry.directory ds).kindAt (name :: place) =
      (Entry.directory es).kindAt (name :: place)) :
    Option.Rel Alike (ds.lookup name) (es.lookup name) := by
  simp only [kindAt_cons] at h
  cases hd : ds.lookup name <;> cases he : es.lookup name <;> simp only [hd, he] at h
  · exact .none
  · simpa using h []
  · simpa using h []
  · exact .some h

theorem alike_simulation : Simulation Alike where
  kind h := by simpa using h []
  lookup h name := rel_lookup fun place => h (name :: place)

/-- The order of the entries of a directory does not matter. -/
theorem alike_of_perm {ds es : List (String × Entry)} (h : (ds.map Prod.fst).Nodup)
    (hperm : ds.Perm es) : Alike (.directory ds) (.directory es) := by
  intro place
  cases place with
  | nil => rfl
  | cons name place => rw [kindAt_cons, kindAt_cons, Names.lookup_of_perm h hperm]

/-- Alike entries of one name make alike directories. -/
theorem Alike.directory {d e : Entry} (h : d.Alike e) (name : String) :
    Alike (.directory [(name, d)]) (.directory [(name, e)]) := by
  intro place
  cases place with
  | nil => rfl
  | cons k place =>
    rw [kindAt_cons, kindAt_cons, List.lookup_cons, List.lookup_cons]
    cases k == name with
    | true => exact h place
    | false => rfl

theorem Tidy.perm {ds es : List (String × Entry)} (h : Tidy (.directory ds))
    (hperm : ds.Perm es) : Tidy (.directory es) := by
  cases h with
  | directory names distinct inner =>
    exact .directory (fun e he => names e (hperm.mem_iff.2 he))
      ((hperm.map Prod.fst).nodup_iff.1 distinct) fun e he => inner e (hperm.mem_iff.2 he)

theorem tidy_empty : Tidy (.directory []) :=
  .directory (List.forall_mem_nil _) .nil (List.forall_mem_nil _)

theorem Tidy.single {e : Entry} {name : String} (h : e.Tidy) (hname : IsName name) :
    Tidy (.directory [(name, e)]) :=
  .directory (by simpa using hname) (List.nodup_singleton _) (by simpa using h)

theorem tidy_simulation : Simulation fun d e => d = e ∧ d.Tidy where
  kind h := congrArg Entry.kind h.1
  lookup {ds es} h name := by
    obtain ⟨heq, htidy⟩ := h
    cases heq
    cases hd : ds.lookup name with
    | none => exact .none
    | some d =>
      cases htidy with
      | directory _ _ inner => exact .some ⟨rfl, inner _ (Names.mem_of_lookup hd)⟩

/-- Look-ups that fail alike, or find related entries. -/
inductive Agree (R : Entry → Entry → Prop) : Except ReadFault Entry → Except ReadFault Entry → Prop
  | error (fault : ReadFault) : Agree R (.error fault) (.error fault)
  | ok {d e : Entry} (h : R d e) : Agree R (.ok d) (.ok e)

theorem Agree.imp {R S : Entry → Entry → Prop} {x y : Except ReadFault Entry} (h : Agree R x y)
    (hRS : ∀ {d e}, R d e → S d e) : Agree S x y := by
  cases h with
  | error fault => exact .error fault
  | ok h => exact .ok (hRS h)

end Entry

namespace Directories

open Entry

variable {R : Entry → Entry → Prop}

/-- Two ways into trees over related directories. -/
def Related (R : Entry → Entry → Prop) : Directories → Directories → Prop :=
  List.Forall₂ fun ds es => R (.directory ds) (.directory es)

section Steps

variable {onLink onLink' : Directories → String → List String → Except ReadFault Entry}
  {here here' : List (String × Entry)} {around around' : Directories} {name : String}
  {rest : List String}

/-- A part without a name, or the name of the directory itself, stays there. -/
theorem follow_here (h : name = "" ∨ name = ".") :
    follow onLink (here :: around) (name :: rest) = follow onLink (here :: around) rest := by
  rw [follow, if_pos (by simpa using h)]

theorem follow_above :
    follow onLink (here :: around) (".." :: rest) = follow onLink around rest := by
  simp [follow]

/-- Every other part is the name of an entry. -/
theorem follow_name (h : ¬(name = "" ∨ name = ".")) (habove : name ≠ "..") :
    follow onLink (here :: around) (name :: rest) =
      match here.lookup name with
      | none => .error .notFound
      | some (.directory inner) => follow onLink (inner :: here :: around) rest
      | some (.file text) => if rest.isEmpty then .ok (.file text) else .error .notDirectory
      | some (.link target) => onLink (here :: around) target rest := by
  rw [follow, if_neg (by simpa using h), if_neg habove]
  rfl

/-- The name of related entries leads to related entries if directories and links do so. -/
theorem follow_entry_agree (hR : Simulation R) (hself : ¬(name = "" ∨ name = "."))
    (habove : name ≠ "..") (h : Option.Rel R (here.lookup name) (here'.lookup name))
    (hinner : ∀ inner inner', here.lookup name = some (.directory inner) →
      R (.directory inner) (.directory inner') →
      Agree R (follow onLink (inner :: here :: around) rest)
        (follow onLink' (inner' :: here' :: around') rest))
    (hlink : ∀ target, here.lookup name = some (.link target) →
      Agree R (onLink (here :: around) target rest) (onLink' (here' :: around') target rest)) :
    Agree R (follow onLink (here :: around) (name :: rest))
      (follow onLink' (here' :: around') (name :: rest)) := by
  rw [follow_name hself habove, follow_name hself habove]
  generalize here.lookup name = x, here'.lookup name = y at h hinner hlink
  cases h with
  | none => exact .error _
  | @some d e hde =>
    have hkind := hR.kind hde
    cases d <;> cases e <;> cases hkind
    · dsimp only
      split_ifs
      · exact .ok hde
      · exact .error _
    · exact hlink _ rfl
    · exact hinner _ _ rfl hde

end Steps

/-- Along related directories the same parts lead to related entries. -/
theorem follow_agree (hR : Simulation R)
    {onLink onLink' : Directories → String → List String → Except ReadFault Entry}
    (hlink : ∀ ds es target rest, Related R ds es →
      Agree R (onLink ds target rest) (onLink' es target rest))
    {ds es : Directories} (h : Related R ds es) (parts : List String) :
    Agree R (follow onLink ds parts) (follow onLink' es parts) := by
  induction parts generalizing ds es with
  | nil =>
    cases h with
    | nil => exact .error _
    | cons hhere _ => exact .ok hhere
  | cons name rest ih =>
    cases h with
    | nil => exact .error _
    | cons hhere haround =>
      by_cases hself : name = "" ∨ name = "."
      · rw [follow_here hself, follow_here hself]
        exact ih (.cons hhere haround)
      · by_cases habove : name = ".."
        · subst habove
          rw [follow_above, follow_above]
          exact ih haround
        · exact follow_entry_agree hR hself habove (hR.lookup hhere name)
            (fun _ _ _ hde => ih (.cons hde (.cons hhere haround)))
            fun _ _ => hlink _ _ _ _ (.cons hhere haround)

end Directories

namespace Disk

open Entry

variable {R : Entry → Entry → Prop} {d e : Disk} {path : String}

/-- A tree as a file system holds it. -/
def Tidy (d : Disk) : Prop := (Entry.directory d.entries).Tidy

/-- Trees at one place that differ in the order of entries only. -/
structure Alike (d e : Disk) : Prop where
  mount : d.mount = e.mount
  entries : (Entry.directory d.entries).Alike (.directory e.entries)

/-- Over links, too, related directories of related trees lead to related entries. -/
theorem walk_agree (hR : Simulation R) (hmount : d.mount = e.mount)
    (htop : R (.directory d.entries) (.directory e.entries)) (links : ℕ) {ds es : Directories}
    (h : Directories.Related R ds es) (parts : List String) :
    Agree R (d.walk links ds parts) (e.walk links es parts) := by
  induction links generalizing ds es parts with
  | zero => exact Directories.follow_agree hR (fun _ _ _ _ _ => .error _) h parts
  | succ links ih =>
    refine Directories.follow_agree hR (fun ds es target rest h => ?_) h parts
    rw [aim, aim, hmount]
    split_ifs
    · cases Path.below? e.mount target with
      | none => exact .error _
      | some parts => exact ih (.cons htop .nil) (parts ++ rest)
    · exact ih h (Path.split target ++ rest)

theorem find_agree (hR : Simulation R) (hmount : d.mount = e.mount)
    (h : R (.directory d.entries) (.directory e.entries)) (path : String) :
    Agree R (d.find path) (e.find path) := by
  rw [find, find, hmount]
  cases Path.below? e.mount path with
  | none => exact .error _
  | some parts => exact walk_agree hR hmount h _ (.cons h .nil) parts

/-- What is found in a tidy tree is tidy. -/
theorem Tidy.find (hd : d.Tidy) {f : Entry} (h : d.find path = .ok f) : f.Tidy := by
  have hagree := find_agree tidy_simulation rfl ⟨rfl, hd⟩ path
  rw [h] at hagree
  cases hagree with
  | ok h => exact h.2

/-- A directory is found where its names are listed. -/
theorem names?_eq_some_iff {names : List String} : d.names? path = some names ↔
    ∃ entries, d.find path = .ok (.directory entries) ∧ entries.map Prod.fst = names := by
  rw [names?]
  rcases d.find path with fault | (text | target | entries) <;> simp

theorem isDirectory_iff : d.isDirectory path = true ↔
    ∃ entries, d.find path = .ok (.directory entries) := by
  rw [isDirectory]
  rcases d.find path with fault | (text | target | entries) <;> simp

/-- The names in a directory are different. -/
theorem Tidy.nodup_names (hd : d.Tidy) {names : List String} (h : d.names? path = some names) :
    names.Nodup := by
  obtain ⟨entries, hfind, rfl⟩ := names?_eq_some_iff.1 h
  cases hd.find hfind with
  | directory _ distinct _ => exact distinct

/-! What is read at a path depends on what stands there, but not on what a directory holds. -/

section Congruence

variable {other : String} (h : Agree (fun f g => f.kind = g.kind) (d.find path) (e.find other))

include h

theorem isDirectory_congr : d.isDirectory path = e.isDirectory other := by
  rw [isDirectory, isDirectory]
  generalize d.find path = x, e.find other = y at h
  cases h with
  | error fault => rfl
  | @ok f g hkind => cases f <;> cases g <;> cases hkind <;> rfl

theorem holds_congr : d.holds path = e.holds other := by
  rw [holds, holds]
  generalize d.find path = x, e.find other = y at h
  cases h <;> rfl

theorem read_congr : d.read path = e.read other := by
  rw [read, read]
  generalize d.find path = x, e.find other = y at h
  cases h with
  | error fault => rfl
  | @ok f g hkind => cases f <;> cases g <;> cases hkind <;> rfl

end Congruence

namespace Alike

theorem symm (h : d.Alike e) : e.Alike d := ⟨h.mount.symm, fun place => (h.entries place).symm⟩

theorem find (h : d.Alike e) (path : String) : Agree Entry.Alike (d.find path) (e.find path) :=
  find_agree alike_simulation h.mount h.entries path

theorem find_kind (h : d.Alike e) (path : String) :
    Agree (fun f g => f.kind = g.kind) (d.find path) (e.find path) :=
  (h.find path).imp alike_simulation.kind

/-- The same names are listed, if in another order. -/
theorem exists_names? (h : d.Alike e) {names : List String} (hnames : d.names? path = some names) :
    ∃ names', e.names? path = some names' ∧ ∀ name, name ∈ names ↔ name ∈ names' := by
  obtain ⟨entries, hfind, rfl⟩ := names?_eq_some_iff.1 hnames
  have hagree := h.find path
  rw [hfind] at hagree
  generalize hy : e.find path = y at hagree
  cases hagree with
  | @ok f g hfg =>
    have hkind := alike_simulation.kind hfg
    cases g with
    | file text => cases hkind
    | link target => cases hkind
    | directory entries' =>
      refine ⟨_, names?_eq_some_iff.2 ⟨entries', hy, rfl⟩, fun name => ?_⟩
      have hlookup := alike_simulation.lookup hfg name
      rw [← not_iff_not, ← Names.lookup_eq_none_iff, ← Names.lookup_eq_none_iff]
      generalize entries.lookup name = x, entries'.lookup name = y at hlookup
      cases hlookup <;> simp

end Alike

end Disk

end BeaconReplay
