import BeaconReplay.Proofs.Json.Members
import BeaconReplay.Proofs.Text.Order

/-!
# Positions in a value

A position leads from the top of a value to one of its parts, by names of members and by numbers of
items. Positions are ordered as a walk from the top meets them, members in the byte order of their
names; of two positions on one way neither is in front of the other.
-/
namespace BeaconReplay.Json

/-- One step from an object or an array to a part of it. -/
inductive Step where
  | member (name : String)
  | item (i : ℕ)
  deriving DecidableEq

/-- The way from the top of a value to a part of it. -/
abbrev Position := List Step

/-- The part of a value that a step leads to. -/
def child? : Json → Step → Option Json
  | .object ms, .member k => ms.lookup k
  | .array vs, .item i => vs[i]?
  | _, _ => none

/-- The part of a value at a position. -/
def at? : Json → Position → Option Json
  | v, [] => some v
  | v, s :: p => (v.child? s).bind fun w => w.at? p

/-- Whether two values are both objects or both arrays. -/
def parallel : Json → Json → Bool
  | .object _, .object _ => true
  | .array _, .array _ => true
  | _, _ => false

theorem parallel_comm (v w : Json) : v.parallel w = w.parallel v := by
  cases v <;> cases w <;> rfl

/-- A part of a value is smaller. -/
theorem sizeOf_child?_lt {v w : Json} {s : Step} (h : v.child? s = some w) :
    sizeOf w < sizeOf v := by
  cases v with
  | array vs =>
    cases s with
    | member k => cases h
    | item i =>
      have hmem := List.sizeOf_lt_of_mem (List.mem_of_getElem? h)
      simp only [array.sizeOf_spec]
      omega
  | object ms =>
    cases s with
    | member k =>
      have hmem := List.sizeOf_lt_of_mem (Names.mem_of_lookup h)
      simp only [object.sizeOf_spec, Prod.mk.sizeOf_spec] at hmem ⊢
      omega
    | item i => cases h
  | _ => cases s <;> cases h

theorem Ordered.child? {v w : Json} {s : Step} (hv : v.Ordered) (h : v.child? s = some w) :
    w.Ordered := by
  cases hv with
  | array items =>
    cases s with
    | member k => cases h
    | item i => exact items w (List.mem_of_getElem? h)
  | object names members =>
    cases s with
    | member k => exact members (k, w) (Names.mem_of_lookup h)
    | item i => cases h
  | _ => cases s <;> cases h

/-- What holds of a value whenever it holds of all its parts holds of every value. -/
theorem child_induction {P : Json → Prop}
    (h : ∀ v : Json, (∀ s w, v.child? s = some w → P w) → P v) (v : Json) : P v :=
  h v fun _ w _ => child_induction h w
termination_by sizeOf v
decreasing_by exact sizeOf_child?_lt ‹_›

/-! ## The order of positions -/

/-- Members come in the byte order of their names and items in the order of their numbers. -/
def Step.Before : Step → Step → Prop
  | .member k, .member l => Utf8.encode k < Utf8.encode l
  | .item i, .item j => i < j
  | _, _ => False

/-- A position is in front of another one if the step at which the two ways part is. -/
inductive Position.Before : Position → Position → Prop
  | part {s t : Step} (h : s.Before t) (p q : Position) : Before (s :: p) (t :: q)
  | share (s : Step) {p q : Position} (h : Before p q) : Before (s :: p) (s :: q)

theorem Step.before_member_iff {k l : String} :
    (Step.member k).Before (.member l) ↔ k < l :=
  Utf8.encode_lt_encode_iff

theorem Step.Before.asymm {s t : Step} (h : s.Before t) : ¬t.Before s := by
  match s, t with
  | .member k, .member l =>
    rw [before_member_iff] at h ⊢
    exact h.asymm
  | .item i, .item j => exact Nat.lt_asymm h
  | .member _, .item _ => exact id
  | .item _, .member _ => exact id

theorem Step.not_before_self (s : Step) : ¬s.Before s := fun h => h.asymm h

theorem Position.Before.asymm {p q : Position} (h : p.Before q) : ¬q.Before p := by
  induction h with
  | part h p q =>
    intro hback
    cases hback with
    | part hback => exact h.asymm hback
    | share => exact Step.not_before_self _ h
  | share s _ ih =>
    intro hback
    cases hback with
    | part hback => exact Step.not_before_self _ hback
    | share _ hback => exact ih hback

instance : Std.Asymm Step.Before := ⟨fun _ _ => Step.Before.asymm⟩

instance : Std.Asymm Position.Before := ⟨fun _ _ => Position.Before.asymm⟩

/-! ## The steps to the parts of a value -/

/-- The name of the member that a step leads to. -/
def Step.name? : Step → Option String
  | .member k => some k
  | .item _ => none

/-- The number of items there must be for a step to lead to one of them. -/
def Step.reach : Step → ℕ
  | .member _ => 0
  | .item i => i + 1

/-- The steps to the parts of a value. -/
def steps : Json → List Step
  | .object ms => ms.map fun m => .member m.1
  | .array vs => (List.range vs.length).map .item
  | _ => []

/-- The steps to the parts of a value and to further ones of its sort, in order. -/
def stepsWith (more : List Step) : Json → List Step
  | .object ms => ((ms.map Prod.fst ++ more.filterMap Step.name?).toFinset.sort).map .member
  | .array vs => (List.range ((vs.length :: more.map Step.reach).toFinset.sup id)).map .item
  | _ => []

theorem mem_steps {v w : Json} {s : Step} (h : v.child? s = some w) : s ∈ v.steps := by
  cases v with
  | array vs =>
    cases s with
    | member k => cases h
    | item i =>
      obtain ⟨hi, -⟩ := List.getElem?_eq_some_iff.1 h
      exact List.mem_map_of_mem (List.mem_range.2 hi)
  | object ms =>
    cases s with
    | member k => exact List.mem_map.2 ⟨(k, w), Names.mem_of_lookup h, rfl⟩
    | item i => cases h
  | _ => cases s <;> cases h

theorem before_stepsWith (more : List Step) (v : Json) :
    (v.stepsWith more).Pairwise Step.Before := by
  cases v with
  | object ms =>
    rw [stepsWith, List.pairwise_map]
    simp only [Step.before_member_iff]
    exact (Finset.sortedLT_sort _).pairwise
  | array vs =>
    rw [stepsWith, List.pairwise_map]
    exact List.pairwise_lt_range
  | _ => exact .nil

/-- A step to a part of a value is among its steps. -/
theorem mem_stepsWith_of_child? {v w : Json} {s : Step} (more : List Step)
    (h : v.child? s = some w) : s ∈ v.stepsWith more := by
  have hs := mem_steps h
  cases v with
  | object ms =>
    obtain ⟨m, hm, rfl⟩ := List.mem_map.1 hs
    refine List.mem_map_of_mem ((Finset.mem_sort _).2 (List.mem_toFinset.2 ?_))
    exact List.mem_append_left _ (List.mem_map_of_mem hm)
  | array vs =>
    obtain ⟨i, hi, rfl⟩ := List.mem_map.1 hs
    have hlength : vs.length ≤ (vs.length :: more.map Step.reach).toFinset.sup id :=
      Finset.le_sup (f := id) (by simp)
    exact List.mem_map_of_mem (List.mem_range.2 ((List.mem_range.1 hi).trans_le hlength))
  | _ => cases hs

/-- So is a further step to a part of a value of the same sort. -/
theorem mem_stepsWith_of_mem {v u w : Json} {s : Step} {more : List Step}
    (hpar : v.parallel u = true) (hu : u.child? s = some w) (h : s ∈ more) :
    s ∈ v.stepsWith more := by
  have hs := mem_steps hu
  match v, u, hpar with
  | .object ms, .object ns, _ =>
    obtain ⟨n, -, rfl⟩ := List.mem_map.1 hs
    refine List.mem_map_of_mem ((Finset.mem_sort _).2 (List.mem_toFinset.2 ?_))
    exact List.mem_append_right _ (List.mem_filterMap.2 ⟨.member n.1, h, rfl⟩)
  | .array vs, .array us, _ =>
    obtain ⟨i, -, rfl⟩ := List.mem_map.1 hs
    have hreach : (Step.item i).reach ≤ (vs.length :: more.map Step.reach).toFinset.sup id :=
      Finset.le_sup (f := id) (by simpa using .inr ⟨.item i, h, rfl⟩)
    exact List.mem_map_of_mem (List.mem_range.2 hreach)

end BeaconReplay.Json
