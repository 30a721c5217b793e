import BeaconReplay.Proofs.Replay.Positions

/-!
# Differences as changes

The differences of two values say all there is to change: put at its place, or taken out where it
is absent, the actual side of every difference turns the expected value into the actual one.
-/
namespace BeaconReplay

open Json

namespace Json

/-- Positions with the parts to be put there; where there is no part, one is taken out. -/
abbrev Changes := List (Position × Option Json)

namespace Changes

/-- The steps that the changes begin with. -/
def heads (cs : Changes) : List Step := cs.filterMap fun c => c.1.head?

/-- The changes behind a step. -/
def behind (cs : Changes) (s : Step) : Changes :=
  cs.filterMap fun c =>
    match c.1 with
    | [] => none
    | t :: p => if t = s then some (p, c.2) else none

end Changes

/-- A part as the member that a step leads to. -/
def memberPart (part : Step → Option Json) (s : Step) : Option (String × Json) :=
  s.name?.bind fun k => (part s).map (k, ·)

/-- A value with other parts. -/
def rebuild (part : Step → Option Json) (ss : List Step) : Json → Json
  | .object _ => .object (ss.filterMap (memberPart part))
  | .array _ => .array (ss.filterMap part)
  | v => v

/-- The value, if one is left, after all changes at once. -/
def patch (cs : Changes) (v : Json) : Option Json :=
  let part (s : Step) : Option Json :=
    match _h : v.child? s with
    | some w => w.patch (cs.behind s)
    | none => ((cs.behind s).lookup []).join
  (cs.lookup []).getD (some (v.rebuild part (v.stepsWith cs.heads)))
termination_by v
decreasing_by exact sizeOf_child?_lt _h

/-- One side, which need not be there, after all changes. -/
def patchSide (cs : Changes) : Option Json → Option Json
  | some v => v.patch cs
  | none => (cs.lookup []).join

theorem Changes.lookup_behind (cs : Changes) (s : Step) (p : Position) :
    (cs.behind s).lookup p = cs.lookup (s :: p) := by
  induction cs with
  | nil => rfl
  | cons c cs ih =>
    obtain ⟨q, w⟩ := c
    cases q with
    | nil => exact ih
    | cons t q =>
      by_cases hts : t = s
      · subst hts
        have hbehind : behind ((t :: q, w) :: cs) t = (q, w) :: behind cs t := by simp [behind]
        have hbeq : (t :: p == t :: q) = (p == q) := by simp
        rw [hbehind, List.lookup_cons, List.lookup_cons, hbeq, ih]
      · have hbehind : behind ((t :: q, w) :: cs) s = behind cs s := by simp [behind, hts]
        have hbeq : (s :: p == t :: q) = false := by simp [Ne.symm hts]
        rw [hbehind, List.lookup_cons, hbeq, ih]

theorem Changes.mem_heads {cs : Changes} {s : Step} {p : Position} {w : Option Json}
    (h : cs.lookup (s :: p) = some w) : s ∈ cs.heads :=
  List.mem_filterMap.2 ⟨(s :: p, w), Names.mem_of_lookup h, rfl⟩

theorem patch_eq (cs : Changes) (v : Json) : v.patch cs = (cs.lookup []).getD
    (some (v.rebuild (fun s => patchSide (cs.behind s) (v.child? s)) (v.stepsWith cs.heads))) := by
  rw [patch]
  congr! with s
  split <;> simp [*, patchSide]

/-- The items of a list by their numbers. -/
theorem filterMap_range {α : Type} {vs : List α} {n : ℕ} (h : vs.length ≤ n) :
    (List.range n).filterMap (fun i => vs[i]?) = vs := by
  induction n generalizing vs with
  | zero => rw [List.length_eq_zero_iff.1 (Nat.le_zero.1 h)]; rfl
  | succ n ih =>
    rw [List.range_succ_eq_map, List.filterMap_cons, List.filterMap_map]
    cases vs with
    | nil =>
      have hempty : ([] : List α).length ≤ n := Nat.zero_le n
      exact ih hempty
    | cons v vs => exact congrArg (v :: ·) (ih (Nat.le_of_succ_le_succ h))

section Rebuild

variable {e a : Json} {part part' : Step → Option Json}

theorem memberPart_member (k : String) :
    memberPart part (.member k) = (part (.member k)).map (k, ·) := rfl

/-- A value is made up of its parts. -/
theorem rebuild_child? {more : List Step} (ha : a.Ordered) (hpar : e.parallel a = true)
    (h : ∀ s w, a.child? s = some w → s ∈ e.stepsWith more) :
    a.rebuild a.child? (e.stepsWith more) = a := by
  match e, a, hpar with
  | .object es, .object as, _ =>
    cases ha with
    | object names _ =>
      rw [stepsWith, rebuild, List.filterMap_map]
      refine congrArg object (Names.filterMap_lookup (Finset.sortedLT_sort _).pairwise names ?_)
      intro k hk
      obtain ⟨m, hm, rfl⟩ := List.mem_map.1 hk
      obtain ⟨w, hw⟩ : ∃ w, as.lookup m.1 = some w :=
        Option.ne_none_iff_exists'.1 (mt Names.lookup_eq_none_iff.1 (not_not_intro hk))
      obtain ⟨l, hl, heq⟩ := List.mem_map.1 (h (.member m.1) w hw)
      cases heq
      exact hl
  | .array es, .array as, _ =>
    rw [stepsWith, rebuild, List.filterMap_map]
    refine congrArg array (filterMap_range (le_of_forall_lt fun i hi => ?_))
    obtain ⟨j, hj, heq⟩ := List.mem_map.1 (h (.item i) as[i] (List.getElem?_eq_getElem hi))
    cases heq
    exact List.mem_range.1 hj

/-- Values of one sort are the same if their parts are. -/
theorem same_rebuild (hpar : e.parallel a = true) (ss : List Step)
    (h : ∀ s, Sides.Same ⟨part s, part' s⟩) :
    (e.rebuild part ss).same (a.rebuild part' ss) = true := by
  match e, a, hpar with
  | .object es, .object as, _ =>
    rw [rebuild, rebuild, same]
    induction ss with
    | nil => rfl
    | cons s ss ih =>
      cases s with
      | item i => exact ih
      | member k =>
        match hpart : part (.member k), hpart' : part' (.member k), h (.member k) with
        | none, none, _ =>
          simp only [List.filterMap_cons, memberPart_member, hpart, hpart', Option.map_none]
          exact ih
        | some v, some w, hvw =>
          have hvw : v.same w = true := hvw
          simp only [List.filterMap_cons, memberPart_member, hpart, hpart', Option.map_some]
          rw [sameMembers, beq_self_eq_true, hvw, ih]
          rfl
  | .array es, .array as, _ =>
    rw [rebuild, rebuild, same]
    induction ss with
    | nil => rfl
    | cons s ss ih =>
      match hpart : part s, hpart' : part' s, h s with
      | none, none, _ =>
        rw [List.filterMap_cons_none hpart, List.filterMap_cons_none hpart', ih]
      | some v, some w, hvw =>
        have hvw : v.same w = true := hvw
        rw [List.filterMap_cons_some hpart, List.filterMap_cons_some hpart', sameItems, hvw, ih]
        rfl

/-- Values that have no parts stay as they are. -/
theorem rebuild_of_same (ss : List Step) (hsame : e.same a = true) (hpar : ¬e.parallel a = true) :
    e.rebuild part ss = e := by
  cases e <;> cases a <;> simp_all [same, parallel, rebuild]

end Rebuild

end Json

open Sides

/-- The changes are the actual sides at the positions where two sides differ. -/
def Json.Changes.Make (cs : Changes) (d : Sides) : Prop :=
  ∀ p w, cs.lookup p = some w ↔ d.DiffersAt p ∧ (d.below p).actual = w

theorem Json.Changes.Make.behind {cs : Changes} {d : Sides} {s : Step} (h : cs.Make d)
    (hpar : d.Parallel) : (cs.behind s).Make (d.child s) := by
  intro p w
  rw [lookup_behind, h, differsAt_cons, below_cons, and_assoc, and_iff_right hpar]

theorem Json.Changes.make_of_mem_iff {d : Sides} {ps : List Position}
    (h : ∀ p, p ∈ ps ↔ d.DiffersAt p) :
    Changes.Make (ps.map fun p => (p, (d.below p).actual)) d := by
  intro p w
  rw [← h p]
  constructor
  · intro hw
    obtain ⟨q, hq, heq⟩ := List.mem_map.1 (Names.mem_of_lookup hw)
    obtain ⟨rfl, rfl⟩ := Prod.mk.inj heq
    exact ⟨hq, rfl⟩
  · rintro ⟨hp, rfl⟩
    exact List.lookup_graph (fun p => (d.below p).actual) hp

theorem patchSide_of_lookup {cs : Changes} {w : Option Json} (h : cs.lookup [] = some w)
    (v : Option Json) : patchSide cs v = w := by
  cases v with
  | none => rw [patchSide, h]; rfl
  | some v => rw [patchSide, patch_eq, h]; rfl

theorem same_patchSide_of_not_parallel {cs : Changes} {d : Sides} (h : cs.Make d)
    (hpar : ¬d.Parallel) : Sides.Same ⟨patchSide cs d.expected, d.actual⟩ := by
  by_cases happ : d.Apart
  · have hlookup : cs.lookup [] = some d.actual :=
      (h [] d.actual).2 ⟨differsAt_nil.2 happ, by rw [below_nil]⟩
    rw [patchSide_of_lookup hlookup]
    exact same_self d.actual
  · have hsame : d.Same := by_contra fun hsame => happ ⟨present_of_not_same hsame, hsame, hpar⟩
    have hlookup : cs.lookup [] = none :=
      Option.eq_none_iff_forall_ne_some.2 fun w hw => happ (differsAt_nil.1 ((h [] w).1 hw).1)
    match d, hsame with
    | ⟨none, none⟩, _ =>
      rw [patchSide, hlookup]
      trivial
    | ⟨some e, some a⟩, hsame =>
      rw [patchSide, patch_eq, hlookup, rebuild_of_same _ hsame hpar]
      exact hsame

/-- The value after the changes is the same as the actual one. -/
theorem same_patch {cs : Changes} {e a : Json} (h : cs.Make ⟨some e, some a⟩) (ha : a.Ordered) :
    Sides.Same ⟨e.patch cs, some a⟩ := by
  induction e using child_induction generalizing cs a with
  | h e ih =>
    by_cases hpar : e.parallel a = true
    · have hbehind (s : Step) : (cs.behind s).Make ⟨e.child? s, a.child? s⟩ := h.behind hpar
      have hpart (s : Step) :
          Sides.Same ⟨patchSide (cs.behind s) (e.child? s), a.child? s⟩ := by
        have hmake := hbehind s
        cases hes : e.child? s with
        | none =>
          rw [hes] at hmake
          exact same_patchSide_of_not_parallel hmake id
        | some v =>
          cases has : a.child? s with
          | none =>
            rw [hes, has] at hmake
            exact same_patchSide_of_not_parallel hmake id
          | some w =>
            rw [hes, has] at hmake
            exact ih s v hes hmake (ha.child? has)
      -- The steps that are tried reach every part of `a`: what `e` lacks is put there by a change.
      have hsteps (s : Step) (w : Json) (hw : a.child? s = some w) :
          s ∈ e.stepsWith cs.heads := by
        cases hes : e.child? s with
        | some v => exact mem_stepsWith_of_child? _ hes
        | none =>
          have happ : Sides.Apart ⟨none, some w⟩ := ⟨.inr (Option.some_ne_none w), id, id⟩
          have hmake := hbehind s
          rw [hes, hw] at hmake
          have hlookup := (hmake [] (some w)).2 ⟨differsAt_nil.2 happ, rfl⟩
          rw [Changes.lookup_behind] at hlookup
          exact mem_stepsWith_of_mem hpar hw (Changes.mem_heads hlookup)
      have hnone : cs.lookup [] = none := Option.eq_none_iff_forall_ne_some.2 fun w hw =>
        (differsAt_nil.1 ((h [] w).1 hw).1).whole hpar
      rw [patch_eq, hnone]
      have hsame := same_rebuild hpar (e.stepsWith cs.heads) hpart
      rw [rebuild_child? ha hpar hsteps] at hsame
      exact hsame
    · exact same_patchSide_of_not_parallel h hpar

/-- A difference with its two sides exchanged. -/
def Difference.swap (d : Difference) : Difference := ⟨d.path, d.actual, d.expected⟩

/-- **The differences of two values are the positions at which they differ**, each once, in order
and with the parts that the values have there. So there are none exactly between values that are
the same, values that are exchanged have the same differences with their sides exchanged, and the
actual sides put into the expected value make it the same as the actual one. -/
theorem diff_lists_positions {e a : Json} (he : e.Ordered) (ha : a.Ordered) :
    ∃ ps : List Position,
      ps.Pairwise Position.Before ∧ ps.Nodup ∧
      (∀ p, p ∈ ps ↔ Sides.DiffersAt ⟨some e, some a⟩ p) ∧
      diff e a = ps.map (fun p => ⟨p.text, e.at? p, a.at? p⟩) ∧
      (diff e a = [] ↔ e.same a = true) ∧
      diff a e = (diff e a).map Difference.swap ∧
      ∃ v, e.patch (ps.map fun p => (p, a.at? p)) = some v ∧ v.same a = true := by
  obtain ⟨ps, hps⟩ := exists_listed he ha
  obtain ⟨qs, hqs⟩ := exists_listed ha he
  have heq : qs = ps := hqs.ordered.eq_of_mem_iff hps.ordered fun p => by
    rw [hqs.mem_iff, hps.mem_iff, ← differsAt_swap]
    rfl
  have hdiff : diff e a = ps.map fun p => ⟨p.text, e.at? p, a.at? p⟩ := hps.walk_eq ""
  have hback : diff a e = qs.map fun p => ⟨p.text, a.at? p, e.at? p⟩ := hqs.walk_eq ""
  refine ⟨ps, hps.ordered, hps.ordered.nodup, hps.mem_iff, hdiff, diff_eq_nil_iff e a, ?_, ?_⟩
  · rw [hback, hdiff, heq, List.map_map]
    rfl
  · have hmake : Changes.Make (ps.map fun p => (p, a.at? p)) ⟨some e, some a⟩ :=
      Changes.make_of_mem_iff hps.mem_iff
    have hsame := same_patch hmake ha
    cases hv : e.patch (ps.map fun p => (p, a.at? p)) with
    | none =>
      rw [hv] at hsame
      exact hsame.elim
    | some v =>
      rw [hv] at hsame
      exact ⟨v, rfl, hsame⟩

namespace Diff

/-- A list, an object and two plain members. -/
def shapes : Json := .object
  [("fork", .string "capella"),
   ("roots", .array [.boolean true, .object [("count", .nat 1)], .null, .null]),
   ("slot", .nat 8),
   ("vote", .object [("root", .null)])]

/-- The list is shorter, a list stands for the object, and one plain member for the others. -/
def reshaped : Json := .object
  [("epoch", .nat 1),
   ("roots", .array [.boolean true, .object [("count", .nat 2)]]),
   ("slot", .nat 8),
   ("vote", .array [])]

theorem ordered_shapes : shapes.Ordered := by
  have hroots : (array [.boolean true, .object [("count", .nat 1)], .null, .null]).Ordered := by
    refine .array ?_
    simpa using ⟨.boolean true, .object (by simp) (by simpa using .number _), .null⟩
  have hvote : (object [("root", .null)]).Ordered := .object (by simp) (by simpa using .null)
  refine .object (by decide) ?_
  simpa using ⟨.string "capella", hroots, .number _, hvote⟩

theorem ordered_reshaped : reshaped.Ordered := by
  have hroots : (array [.boolean true, .object [("count", .nat 2)]]).Ordered := by
    refine .array ?_
    simpa using ⟨.boolean true, .object (by simp) (by simpa using .number _)⟩
  refine .object (by decide) ?_
  simpa using ⟨.number _, hroots, .number _, .array (List.forall_mem_nil _)⟩

/-- Members of one side, a replaced item, items that are gone, and a replaced object. -/
theorem diff_of_reshaped :
    (diff shapes reshaped).map Difference.path =
      ["epoch", "fork", "roots[1].count", "roots[2]", "roots[3]", "vote"] ∧
    shapes.Ordered ∧ reshaped.Ordered ∧
    ∃ ps : List Position,
      ps.Pairwise Position.Before ∧ ps.Nodup ∧
      (∀ p, p ∈ ps ↔ Sides.DiffersAt ⟨some shapes, some reshaped⟩ p) ∧
      diff shapes reshaped = ps.map (fun p => ⟨p.text, shapes.at? p, reshaped.at? p⟩) ∧
      (diff shapes reshaped = [] ↔ shapes.same reshaped = true) ∧
      diff reshaped shapes = (diff shapes reshaped).map Difference.swap ∧
      ∃ v, shapes.patch (ps.map fun p => (p, reshaped.at? p)) = some v ∧
        v.same reshaped = true :=
  ⟨by decide +kernel, ordered_shapes, ordered_reshaped,
    diff_lists_positions ordered_shapes ordered_reshaped⟩

end Diff

end BeaconReplay
