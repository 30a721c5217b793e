import BeaconReplay.Disk.Path
import Mathlib

/-!
# Paths part by part

The parts of two texts with a slash between them are the parts of the first and those of the
second. So what is joined to the path of a directory is looked up behind that directory.
-/
namespace BeaconReplay.Path

variable {p q top name : String} {acc cs ds : List Char} {parts : List String}

theorem splitFrom_slash (acc cs ds : List Char) :
    splitFrom acc (cs ++ '/' :: ds) = splitFrom acc cs ++ splitFrom [] ds := by
  induction cs generalizing acc with
  | nil => simp [splitFrom]
  | cons c cs ih =>
    rw [List.cons_append, splitFrom, splitFrom]
    split_ifs
    · rw [ih, List.cons_append]
    · exact ih (c :: acc)

theorem splitFrom_of_slash_free (h : '/' ∉ cs) :
    splitFrom acc cs = [String.ofList (acc.reverse ++ cs)] := by
  induction cs generalizing acc with
  | nil => simp [splitFrom]
  | cons c cs ih =>
    obtain ⟨hc, hcs⟩ := not_or.1 (mt List.mem_cons.2 h)
    rw [splitFrom, if_neg (Ne.symm hc), ih hcs, List.reverse_cons, List.append_assoc]
    rfl

/-- A slash between two texts parts them. -/
theorem split_slash (p q : String) : split (p ++ "/" ++ q) = split p ++ split q := by
  simpa [split] using splitFrom_slash [] p.toList q.toList

theorem split_of_slash_free (h : '/' ∉ p.toList) : split p = [p] := by
  rw [split, splitFrom_of_slash_free h]
  simp

theorem names_slash (p q : String) : names (p ++ "/" ++ q) = names p ++ names q := by
  rw [names, split_slash, List.filter_append, names, names]

theorem names_of_slash_free (hne : p ≠ "") (h : '/' ∉ p.toList) : names p = [p] := by
  simp [names, split_of_slash_free h, hne]

/-! ## Joined paths -/

/-- Whether a path needs a slash before what is joined to it. -/
structure Open (p : String) : Prop where
  ne_empty : p ≠ ""
  last_ne : p.toList.getLast? ≠ some '/'

theorem isAbsolute_of_slash_free (h : '/' ∉ q.toList) : isAbsolute q = false := by
  rw [isAbsolute, beq_eq_false_iff_ne]
  exact fun hhead => h (List.mem_of_head? hhead)

theorem open_of_slash_free (hne : q ≠ "") (h : '/' ∉ q.toList) : Open q :=
  ⟨hne, fun hlast => h (List.mem_of_getLast? hlast)⟩

theorem Open.append (hq : Open q) (p : String) : Open (p ++ q) := by
  have hchars : q.toList ≠ [] := fun h => hq.ne_empty (String.toList_eq_nil_iff.1 h)
  refine ⟨fun h => hq.ne_empty ?_, ?_⟩
  · exact (String.append_eq_empty_iff.1 h).2
  · rw [String.toList_append, List.getLast?_append_of_ne_nil _ hchars]
    exact hq.last_ne

theorem Open.join (hp : Open p) (hq : '/' ∉ q.toList) : Path.join p q = p ++ "/" ++ q := by
  have hlast : (p.toList.getLast? == some '/') = false := beq_eq_false_iff_ne.2 hp.last_ne
  rw [Path.join, isAbsolute_of_slash_free hq, hlast]
  simp [hp.ne_empty]

/-- What ends in a name is open again. -/
theorem open_join (p : String) (hne : q ≠ "") (hq : '/' ∉ q.toList) : Open (Path.join p q) := by
  have hopen := open_of_slash_free hne hq
  rw [Path.join, isAbsolute_of_slash_free hq, if_neg Bool.false_ne_true]
  split
  · exact hopen.append p
  · exact hopen.append (p ++ "/")

theorem rest?_append {ts cs rest : List Char} (h : below?.rest? ts cs = some rest) :
    below?.rest? ts (cs ++ ds) = some (rest ++ ds) := by
  induction ts generalizing cs with
  | nil =>
    cases h
    rfl
  | cons t ts ih =>
    cases cs with
    | nil => cases h
    | cons c cs =>
      rw [below?.rest?] at h
      split_ifs at h with heq
      rw [List.cons_append, below?.rest?, if_pos heq, ih h]

/-- What is joined to a path below a directory is looked up behind the parts of that path. -/
theorem below?_slash (h : below? top p = some parts) (q : String) :
    below? top (p ++ "/" ++ q) = some (parts ++ split q) := by
  have hchars : (p ++ "/" ++ q).toList = p.toList ++ '/' :: q.toList := by simp
  rw [below?] at h
  split at h
  · rename_i hrest
    cases h
    rw [below?, hchars, rest?_append hrest]
    rfl
  · rename_i cs hrest
    cases h
    rw [below?, hchars, rest?_append hrest]
    exact congrArg some (splitFrom_slash [] cs q.toList)
  · cases h

/-- A name that is joined to a path is one part more. -/
theorem below?_join (hp : Open p) (h : below? top p = some parts) (hq : '/' ∉ q.toList) :
    below? top (join p q) = some (parts ++ [q]) := by
  rw [hp.join hq, below?_slash h, split_of_slash_free hq]

/-- So names are, one behind the other. -/
theorem below?_foldl_join {names : List String} (hp : Open p) (h : below? top p = some parts)
    (hnames : ∀ name ∈ names, name ≠ "" ∧ '/' ∉ name.toList) :
    below? top (names.foldl join p) = some (parts ++ names) := by
  induction names generalizing p parts with
  | nil => simpa using h
  | cons name names ih =>
    obtain ⟨⟨hne, hslash⟩, hnames⟩ := List.forall_mem_cons.1 hnames
    rw [List.foldl_cons, ih (open_join p hne hslash) (below?_join hp h hslash) hnames]
    simp

end BeaconReplay.Path
