import BeaconReplay.Proofs.Json.Position
import BeaconReplay.Proofs.Replay.Differences

/-!
# Where two values differ

Two values differ at a position that at least one of them has, where their parts are neither the
same nor two objects or two arrays, and above which they have objects or arrays alike. These
positions are the ones the walk over both values reports, each once and in order, with the parts
that the values have there.
-/
namespace BeaconReplay

open Json

namespace Json

/-- The path of a part. -/
def Step.extend (path : String) : Step → String
  | .member k => Diff.member path k
  | .item i => Diff.item path i

/-- The path of a position, from the path of its start. -/
def Position.textFrom (path : String) (p : Position) : String := p.foldl Step.extend path

/-- The path of a position. -/
def Position.text (p : Position) : String := p.textFrom ""

end Json

/-! ## Two sides -/

/-- The parts that two values have at one position, as far as they have any. -/
structure Sides where
  expected : Option Json
  actual : Option Json

namespace Sides

variable {d : Sides} {s : Step} {p : Position}

/-- The sides at a position below. -/
def below (d : Sides) (p : Position) : Sides :=
  ⟨d.expected.bind fun e => e.at? p, d.actual.bind fun a => a.at? p⟩

/-- The sides behind a step. -/
def child (d : Sides) (s : Step) : Sides :=
  ⟨d.expected.bind fun e => e.child? s, d.actual.bind fun a => a.child? s⟩

/-- Both sides are objects, or both are arrays. -/
def Parallel : Sides → Prop
  | ⟨some e, some a⟩ => e.parallel a = true
  | _ => False

/-- Both sides are absent, or both are there and the same. -/
def Same : Sides → Prop
  | ⟨some e, some a⟩ => e.same a = true
  | ⟨none, none⟩ => True
  | _ => False

/-- A side is there and the other one is not like it, nor to be compared with it part by part. -/
structure Apart (d : Sides) : Prop where
  present : d.expected ≠ none ∨ d.actual ≠ none
  unequal : ¬d.Same
  whole : ¬d.Parallel

/-- The sides differ at a position: they are parallel all the way to it and apart there. -/
structure DiffersAt (d : Sides) (p : Position) : Prop where
  above : ∀ q r, p = q ++ r → r ≠ [] → (d.below q).Parallel
  here : (d.below p).Apart

/-- The sides as a difference at a path. -/
def difference (d : Sides) (path : String) : Difference := ⟨path, d.expected, d.actual⟩

/-- The two sides exchanged. -/
def swap (d : Sides) : Sides := ⟨d.actual, d.expected⟩

@[simp] theorem child_some (e a : Json) (s : Step) :
    Sides.child ⟨some e, some a⟩ s = ⟨e.child? s, a.child? s⟩ := rfl

@[simp] theorem below_nil : d.below [] = d := by
  obtain ⟨e, a⟩ := d
  cases e <;> cases a <;> rfl

@[simp] theorem below_cons : d.below (s :: p) = (d.child s).below p := by
  obtain ⟨e, a⟩ := d
  cases e <;> cases a <;> rfl

/-- Sides that are not the same are not both absent. -/
theorem present_of_not_same (h : ¬d.Same) : d.expected ≠ none ∨ d.actual ≠ none := by
  obtain ⟨e, a⟩ := d
  cases e <;> cases a <;> simp_all [Same]

theorem differsAt_nil : d.DiffersAt [] ↔ d.Apart := by
  constructor
  · intro h
    simpa using h.here
  · intro h
    refine ⟨fun q r hqr hr => ?_, by simpa using h⟩
    exact absurd (List.append_eq_nil_iff.1 hqr.symm).2 hr

theorem differsAt_cons : d.DiffersAt (s :: p) ↔ d.Parallel ∧ (d.child s).DiffersAt p := by
  constructor
  · intro h
    refine ⟨by simpa using h.above [] (s :: p) rfl (List.cons_ne_nil s p), fun q r hqr hr => ?_, ?_⟩
    · simpa using h.above (s :: q) r (by rw [hqr, List.cons_append]) hr
    · simpa using h.here
  · rintro ⟨hpar, h⟩
    refine ⟨fun q r hqr hr => ?_, by simpa using h.here⟩
    cases q with
    | nil => simpa using hpar
    | cons t q =>
      obtain ⟨rfl, rfl⟩ := List.cons_eq_cons.1 hqr
      simpa using h.above q r rfl hr

/-- Where the sides differ at all, one of them is there. -/
theorem DiffersAt.present (h : d.DiffersAt p) : d.expected ≠ none ∨ d.actual ≠ none := by
  cases p with
  | nil => exact (differsAt_nil.1 h).present
  | cons s p =>
    obtain ⟨e, a⟩ := d
    have hpar := (differsAt_cons.1 h).1
    cases e with
    | none => exact hpar.elim
    | some e => simp

theorem same_self (v : Option Json) : Same ⟨v, v⟩ := by
  cases v with
  | none => trivial
  | some v => exact same_refl v

theorem parallel_swap : d.swap.Parallel ↔ d.Parallel := by
  obtain ⟨e, a⟩ := d
  cases e <;> cases a <;> simp [swap, Parallel, parallel_comm]

theorem same_swap : d.swap.Same ↔ d.Same := by
  obtain ⟨e, a⟩ := d
  cases e <;> cases a <;> simp [swap, Same, same_comm]

theorem Apart.swap (h : d.Apart) : d.swap.Apart :=
  ⟨h.present.symm, mt same_swap.1 h.unequal, mt parallel_swap.1 h.whole⟩

theorem DiffersAt.swap (h : d.DiffersAt p) : d.swap.DiffersAt p :=
  ⟨fun q r hqr hr => parallel_swap.2 (h.above q r hqr hr), h.here.swap⟩

/-- It does not matter for the positions which side is the expected one. -/
theorem differsAt_swap : d.swap.DiffersAt p ↔ d.DiffersAt p :=
  ⟨DiffersAt.swap, DiffersAt.swap⟩

end Sides

/-! ## The walk over two values -/

namespace Diff

/-- The differences of two sides below a path. -/
def walkSides (path : String) : Sides → List Difference
  | ⟨some e, some a⟩ => walk path e a
  | ⟨none, none⟩ => []
  | d => [d.difference path]

theorem walkSides_of_apart {path : String} {d : Sides} (h : d.Apart) :
    walkSides path d = [d.difference path] := by
  obtain ⟨e, a⟩ := d
  match e, a, h.present with
  | some e, some a, _ =>
    have hsame : e.same a = false := Bool.eq_false_iff.2 h.unequal
    have hpar : e.parallel a = false := Bool.eq_false_iff.2 h.whole
    cases e <;> cases a <;> simp_all [walkSides, walk, parallel, Sides.difference]
  | some e, none, _ => rfl
  | none, some a, _ => rfl

theorem walkSides_of_same {path : String} {d : Sides} (h : d.Same) : walkSides path d = [] := by
  obtain ⟨e, a⟩ := d
  match e, a, h with
  | some e, some a, h => exact (walk_eq_nil_iff path e a).2 h
  | none, none, _ => rfl

/-- The first items are walked, and then the others. -/
theorem walkItems_step (path : String) (i : ℕ) (es as : List Json) : walkItems path i es as =
    walkSides (item path i) ⟨es[0]?, as[0]?⟩ ++ walkItems path (i + 1) es.tail as.tail := by
  cases es with
  | nil => cases as <;> rfl
  | cons e es =>
    cases as with
    | nil => cases es <;> rfl
    | cons a as => rw [walkItems]; rfl

theorem walkItems_eq_flatMap (path : String) {n : ℕ} (i : ℕ) {es as : List Json}
    (he : es.length ≤ n) (ha : as.length ≤ n) :
    walkItems path i es as =
      (List.range n).flatMap fun j => walkSides (item path (i + j)) ⟨es[j]?, as[j]?⟩ := by
  induction n generalizing i es as with
  | zero =>
    rw [List.length_eq_zero_iff.1 (Nat.le_zero.1 he), List.length_eq_zero_iff.1 (Nat.le_zero.1 ha)]
    rfl
  | succ n ih =>
    have hes : es.tail.length ≤ n := by rw [List.length_tail]; omega
    have has : as.tail.length ≤ n := by rw [List.length_tail]; omega
    rw [List.range_succ_eq_map, List.flatMap_cons, List.flatMap_map, walkItems_step, ih _ hes has]
    refine congrArg (walkSides (item path i) ⟨es[0]?, as[0]?⟩ ++ ·)
      (List.flatMap_congr fun j _ => ?_)
    rw [List.getElem?_tail, List.getElem?_tail, Nat.succ_eq_add_one, Nat.add_right_comm,
      Nat.add_assoc]

section Members

variable {path k : String} {e a : Json} {es as : List (String × Json)} {ks : List String}

/-- A member behind all that are left on the actual side stands on the expected one only. -/
theorem walkMembers_expected (h : ∀ l ∈ as.map Prod.fst, k < l) :
    walkMembers path ((k, e) :: es) as =
      ⟨member path k, some e, none⟩ :: walkMembers path es as := by
  cases as with
  | nil => simp [walkMembers]
  | cons m as => exact walkMembers_behind (h m.1 (List.mem_cons_self ..))

theorem walkMembers_actual (h : ∀ l ∈ es.map Prod.fst, k < l) :
    walkMembers path es ((k, a) :: as) =
      ⟨member path k, none, some a⟩ :: walkMembers path es as := by
  cases es with
  | nil => simp [walkMembers, onlyActual]
  | cons m es => exact walkMembers_before (h m.1 (List.mem_cons_self ..))

theorem walkMembers_eq_flatMap (hks : ks.Pairwise (· < ·))
    (hes : (es.map Prod.fst).Pairwise (· < ·)) (has : (as.map Prod.fst).Pairwise (· < ·))
    (he : ∀ l ∈ es.map Prod.fst, l ∈ ks) (ha : ∀ l ∈ as.map Prod.fst, l ∈ ks) :
    walkMembers path es as =
      ks.flatMap fun k => walkSides (member path k) ⟨es.lookup k, as.lookup k⟩ := by
  induction ks generalizing es as with
  | nil =>
    have hempty {ms : List (String × Json)} (h : ∀ l ∈ ms.map Prod.fst, l ∈ []) : ms = [] :=
      List.map_eq_nil_iff.1 (List.eq_nil_iff_forall_not_mem.2 fun l hl => nomatch h l hl)
    rw [hempty he, hempty ha]
    rfl
  | cons k ks ih =>
    obtain ⟨hk, hks⟩ := List.pairwise_cons.1 hks
    have hother (l : String) (hl : l ∈ ks) : (l == k) = false := beq_false_of_ne (hk l hl).ne'
    rw [List.flatMap_cons]
    -- Either side has a member of the first name in front, or only members behind that name.
    rcases Names.first_or_later hk hes he with ⟨e, es, rfl, hes, he⟩ | ⟨hnone, he⟩ <;>
      rcases Names.first_or_later hk has ha with ⟨a, as, rfl, has, ha⟩ | ⟨hnone', ha⟩
    · rw [walkMembers_here, ih hks hes has he ha, List.lookup_cons_self, List.lookup_cons_self]
      refine congrArg (walkSides (member path k) ⟨some e, some a⟩ ++ ·)
        (List.flatMap_congr fun l hl => ?_)
      rw [List.lookup_cons, List.lookup_cons, hother l hl]
    · rw [walkMembers_expected fun l hl => hk l (ha l hl), ih hks hes has he ha,
        List.lookup_cons_self, hnone']
      refine congrArg (walkSides (member path k) ⟨some e, none⟩ ++ ·)
        (List.flatMap_congr fun l hl => ?_)
      rw [List.lookup_cons, hother l hl]
    · rw [walkMembers_actual fun l hl => hk l (he l hl), ih hks hes has he ha,
        List.lookup_cons_self, hnone]
      refine congrArg (walkSides (member path k) ⟨none, some a⟩ ++ ·)
        (List.flatMap_congr fun l hl => ?_)
      rw [List.lookup_cons, hother l hl]
    · rw [ih hks hes has he ha, hnone, hnone']
      rfl

end Members

variable {e a : Json}

/-- Two objects or two arrays differ by what the parts behind each step differ by, in order. -/
theorem walk_eq_flatMap (path : String) (he : e.Ordered) (ha : a.Ordered)
    (hpar : e.parallel a = true) :
    walk path e a = (e.stepsWith a.steps).flatMap fun s =>
      walkSides (s.extend path) (Sides.child ⟨some e, some a⟩ s) := by
  match e, a, hpar with
  | .object es, .object as, _ =>
    cases he with
    | object hes _ =>
      cases ha with
      | object has _ =>
        rw [walk, stepsWith, List.flatMap_map]
        refine walkMembers_eq_flatMap (Finset.sortedLT_sort _).pairwise hes has
          (fun l hl => ?_) fun l hl => ?_
        · rw [Finset.mem_sort, List.mem_toFinset]
          exact List.mem_append_left _ hl
        · rw [Finset.mem_sort, List.mem_toFinset]
          obtain ⟨m, hm, rfl⟩ := List.mem_map.1 hl
          refine List.mem_append_right _ (List.mem_filterMap.2 ⟨.member m.1, ?_, rfl⟩)
          exact List.mem_map.2 ⟨m, hm, rfl⟩
  | .array es, .array as, _ =>
    rw [walk, stepsWith, List.flatMap_map]
    refine (walkItems_eq_flatMap path 0 (Finset.le_sup (f := id) (by simp))
      (le_of_forall_lt fun i hi => ?_)).trans (List.flatMap_congr fun j _ => ?_)
    · have hreach : (Step.item i).reach ∈ (steps (.array as)).map Step.reach :=
        List.mem_map_of_mem (List.mem_map_of_mem (List.mem_range.2 hi))
      exact Finset.le_sup (f := id) (List.mem_toFinset.2 (List.mem_cons_of_mem _ hreach))
    · rw [Nat.zero_add]
      rfl

end Diff

namespace Sides

variable {d : Sides} {e a : Json}

/-- The positions at which two sides differ, in order, as the walk reports them. -/
structure Listed (d : Sides) (ps : List Position) : Prop where
  ordered : ps.Pairwise Position.Before
  mem_iff : ∀ p, p ∈ ps ↔ d.DiffersAt p
  walk_eq : ∀ path, Diff.walkSides path d =
    ps.map fun p => (d.below p).difference (p.textFrom path)

/-- Sides that are not compared part by part differ at their top or nowhere. -/
theorem exists_listed_of_not_parallel (hpar : ¬d.Parallel) : ∃ ps, d.Listed ps := by
  have hbelow (s : Step) (p : Position) : ¬d.DiffersAt (s :: p) :=
    fun h => hpar (differsAt_cons.1 h).1
  by_cases happ : d.Apart
  · refine ⟨[[]], List.pairwise_singleton .., fun p => ?_, fun path => ?_⟩
    · cases p with
      | nil => simpa [differsAt_nil] using happ
      | cons s p => simpa using hbelow s p
    · rw [Diff.walkSides_of_apart happ, List.map_singleton, below_nil]
      rfl
  · refine ⟨[], .nil, fun p => ?_, fun path => ?_⟩
    · cases p with
      | nil => simpa [differsAt_nil] using happ
      | cons s p => simpa using hbelow s p
    · rw [Diff.walkSides_of_same (by_contra fun hsame =>
        happ ⟨present_of_not_same hsame, hsame, hpar⟩)]
      rfl

/-- Parallel sides differ where the parts behind their steps do. -/
theorem listed_of_children (he : e.Ordered) (ha : a.Ordered) (hpar : e.parallel a = true)
    {listed : Step → List Position}
    (h : ∀ s, (Sides.child ⟨some e, some a⟩ s).Listed (listed s)) :
    Listed ⟨some e, some a⟩
      ((e.stepsWith a.steps).flatMap fun s => (listed s).map (s :: ·)) where
  ordered := by
    rw [List.pairwise_flatMap]
    refine ⟨fun s _ => List.pairwise_map.2 ((h s).ordered.imp (.share s)), ?_⟩
    refine (before_stepsWith a.steps e).imp fun {s t} hst p hp q hq => ?_
    obtain ⟨p, -, rfl⟩ := List.mem_map.1 hp
    obtain ⟨q, -, rfl⟩ := List.mem_map.1 hq
    exact .part hst p q
  mem_iff p := by
    cases p with
    | nil => simpa [differsAt_nil] using fun happ : Apart ⟨some e, some a⟩ => happ.whole hpar
    | cons s p =>
      rw [differsAt_cons, ← (h s).mem_iff p, List.mem_flatMap]
      constructor
      · rintro ⟨t, -, ht⟩
        obtain ⟨q, hq, heq⟩ := List.mem_map.1 ht
        obtain ⟨rfl, rfl⟩ := List.cons_eq_cons.1 heq
        exact ⟨hpar, hq⟩
      · rintro ⟨-, hp⟩
        refine ⟨s, ?_, List.mem_map_of_mem hp⟩
        rcases ((h s).mem_iff p).1 hp |>.present with hpresent | hpresent
        · obtain ⟨v, hv⟩ := Option.ne_none_iff_exists'.1 hpresent
          exact mem_stepsWith_of_child? _ hv
        · obtain ⟨w, hw⟩ := Option.ne_none_iff_exists'.1 hpresent
          exact mem_stepsWith_of_mem hpar hw (mem_steps hw)
  walk_eq path := by
    rw [Diff.walkSides, Diff.walk_eq_flatMap path he ha hpar, List.map_flatMap]
    refine List.flatMap_congr fun s _ => ?_
    rw [(h s).walk_eq, List.map_map]
    refine List.map_congr_left fun p _ => ?_
    rw [Function.comp_apply, below_cons]
    rfl

/-- **The positions at which two sides differ can be listed in order, and the walk reports them
with the sides that are there.** -/
theorem exists_listed (he : e.Ordered) (ha : a.Ordered) :
    ∃ ps, Listed ⟨some e, some a⟩ ps := by
  induction e using child_induction generalizing a with
  | h e ih =>
    by_cases hpar : e.parallel a = true
    · have hchild (s : Step) : ∃ ps, (Sides.child ⟨some e, some a⟩ s).Listed ps := by
        rw [child_some]
        cases hes : e.child? s with
        | none => exact exists_listed_of_not_parallel id
        | some v =>
          cases has : a.child? s with
          | none => exact exists_listed_of_not_parallel id
          | some w => exact ih s v hes (he.child? hes) (ha.child? has)
      choose listed hlisted using hchild
      exact ⟨_, listed_of_children he ha hpar hlisted⟩
    · exact exists_listed_of_not_parallel hpar

end Sides

end BeaconReplay
