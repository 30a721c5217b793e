import BeaconReplay.Replay.Pool
import Mathlib

/-!
# Cases replayed at the same time

Some number of workers take cases that wait in any order and finish them in any order, each putting
the outcome in the slot of its case. Whatever they do, they come to an end, and then the slots hold
the outcomes in the order of the cases. So a pool whose workers go about it in this way collects
what one worker alone would.
-/
namespace BeaconReplay.Workers

variable {α β : Type}

/-- How far a case has come. -/
inductive Slot (β : Type) where
  | waiting
  | running
  | done (y : β)

/-- The steps that are left for a case. -/
def Slot.work : Slot β → ℕ
  | waiting => 2
  | running => 1
  | done _ => 0

/-- Whether a worker is at a case. -/
def Slot.isRunning : Slot β → Bool
  | running => true
  | _ => false

/-- A worker that is free takes a case, or one that is at a case finishes it. At least one worker
is there. -/
inductive Step (n : ℕ) (f : α → β) (xs : List α) : List (Slot β) → List (Slot β) → Prop
  | start {slots : List (Slot β)} {i : ℕ} (hwaiting : slots[i]? = some .waiting)
      (hfree : slots.countP Slot.isRunning < max n 1) : Step n f xs slots (slots.set i .running)
  | finish {slots : List (Slot β)} {i : ℕ} {x : α} (hrunning : slots[i]? = some .running)
      (hx : xs[i]? = some x) : Step n f xs slots (slots.set i (.done (f x)))

variable {n i : ℕ} {f : α → β} {xs : List α} {s : Slot β} {slots next : List (Slot β)}

/-- There is a slot for every case, and an outcome stands in the slot of its own case. -/
structure Sound (f : α → β) (xs : List α) (slots : List (Slot β)) : Prop where
  length : slots.length = xs.length
  own : ∀ (i : ℕ) (y : β), slots[i]? = some (Slot.done y) → (xs[i]?).map f = some y

theorem sound_start (f : α → β) (xs : List α) : Sound f xs (xs.map fun _ => .waiting) where
  length := List.length_map _
  own i y h := by
    obtain ⟨x, -, hx⟩ := List.mem_map.1 (List.mem_of_getElem? h)
    cases hx

/-- A step keeps every outcome in its slot. -/
theorem Sound.step (h : Sound f xs slots) (hstep : Step n f xs slots next) : Sound f xs next := by
  cases hstep with
  | @start i hwaiting hfree =>
    refine ⟨by rw [List.length_set, h.length], fun j y hj => h.own j y ?_⟩
    obtain ⟨hi, -⟩ := List.getElem?_eq_some_iff.1 hwaiting
    by_cases hij : i = j
    · subst hij
      rw [List.getElem?_set_self hi] at hj
      cases hj
    · rwa [List.getElem?_set_ne hij] at hj
  | @finish i x hrunning hx =>
    refine ⟨by rw [List.length_set, h.length], fun j y hj => ?_⟩
    obtain ⟨hi, -⟩ := List.getElem?_eq_some_iff.1 hrunning
    by_cases hij : i = j
    · subst hij
      rw [List.getElem?_set_self hi] at hj
      cases hj
      rw [hx]
      rfl
    · rw [List.getElem?_set_ne hij] at hj
      exact h.own j y hj

/-- So every run does. -/
theorem Sound.run (h : Sound f xs slots) (hrun : Relation.ReflTransGen (Step n f xs) slots next) :
    Sound f xs next := by
  induction hrun with
  | refl => exact h
  | tail _ hstep ih => exact ih.step hstep

/-- As long as a case is not done, there is a step. -/
theorem Sound.exists_step (h : Sound f xs slots) (hs : s ∈ slots) (hopen : s.work ≠ 0) :
    ∃ next, Step n f xs slots next := by
  by_cases hrunning : ∃ i : ℕ, slots[i]? = some Slot.running
  · obtain ⟨i, hi⟩ := hrunning
    obtain ⟨hlt, -⟩ := List.getElem?_eq_some_iff.1 hi
    exact ⟨_, .finish hi (List.getElem?_eq_getElem (h.length ▸ hlt))⟩
  · have hidle : slots.countP Slot.isRunning = 0 := by
      refine List.countP_eq_zero.2 fun t ht hrun => hrunning ?_
      cases t with
      | running => exact List.mem_iff_getElem?.1 ht
      | _ => cases hrun
    cases s with
    | waiting =>
      obtain ⟨i, hi⟩ := List.mem_iff_getElem?.1 hs
      exact ⟨_, .start hi (by omega)⟩
    | running => exact absurd (List.mem_iff_getElem?.1 hs) hrunning
    | done y => exact absurd rfl hopen

theorem sum_work_set (h : slots[i]? = some s) (t : Slot β) :
    ((slots.set i t).map Slot.work).sum + s.work = (slots.map Slot.work).sum + t.work := by
  induction slots generalizing i with
  | nil => cases h
  | cons u slots ih =>
    cases i with
    | zero =>
      cases h
      simp only [List.set_cons_zero, List.map_cons, List.sum_cons]
      omega
    | succ i =>
      have hrest := ih h
      simp only [List.set_cons_succ, List.map_cons, List.sum_cons]
      omega

/-- Every step leaves less to do, so that every run ends. -/
theorem work_lt (h : Step n f xs slots next) :
    (next.map Slot.work).sum < (slots.map Slot.work).sum := by
  cases h with
  | start hwaiting _ =>
    have hsum := sum_work_set hwaiting .running
    simp only [Slot.work] at hsum
    omega
  | @finish i x hrunning _ =>
    have hsum := sum_work_set hrunning (.done (f x))
    simp only [Slot.work] at hsum
    omega

/-- The workers have begun with all cases waiting, and no step is left. -/
structure Finishes (n : ℕ) (f : α → β) (xs : List α) (slots : List (Slot β)) : Prop where
  run : Relation.ReflTransGen (Step n f xs) (xs.map fun _ => .waiting) slots
  ended : ∀ next, ¬Step n f xs slots next

/-- Where no step is left, every case is done and its outcome stands in its place. -/
theorem Finishes.slots_eq (h : Finishes n f xs slots) : slots = (xs.map f).map .done := by
  have hsound := (sound_start f xs).run h.run
  have hdone (s : Slot β) (hs : s ∈ slots) : ∃ y, s = .done y := by
    by_contra hopen
    refine not_exists.2 h.ended (hsound.exists_step hs fun hwork => hopen ?_)
    cases s with
    | done y => exact ⟨y, rfl⟩
    | _ => cases hwork
  refine List.ext_getElem (by simp [hsound.length]) fun i hi _ => ?_
  obtain ⟨y, hy⟩ := hdone slots[i] (List.getElem_mem hi)
  have hown := hsound.own i y (by rw [List.getElem?_eq_getElem hi, hy])
  rw [List.getElem?_eq_getElem (hsound.length ▸ hi)] at hown
  cases hown
  rw [hy, List.getElem_map, List.getElem_map]

/-- The workers come to an end from wherever they are. -/
theorem exists_end (n : ℕ) (f : α → β) (xs : List α) (slots : List (Slot β)) :
    ∃ last, Relation.ReflTransGen (Step n f xs) slots last ∧ ∀ next, ¬Step n f xs last next := by
  -- On the steps that are left for all cases together.
  induction hwork : (slots.map Slot.work).sum using Nat.strong_induction_on generalizing slots with
  | h work ih =>
    by_cases hstep : ∃ next, Step n f xs slots next
    · obtain ⟨next, hnext⟩ := hstep
      obtain ⟨last, hrun, hend⟩ := ih _ (hwork ▸ work_lt hnext) next rfl
      exact ⟨last, hrun.head hnext, hend⟩
    · exact ⟨slots, .refl, not_exists.1 hstep⟩

/-- **However many workers there are and whatever they do first, they end with all outcomes in the
order of the cases.** -/
theorem finishes_iff : Finishes n f xs slots ↔ slots = (xs.map f).map .done := by
  refine ⟨Finishes.slots_eq, ?_⟩
  rintro rfl
  obtain ⟨last, hrun, hend⟩ := exists_end n f xs (xs.map fun _ => .waiting)
  have hlast : Finishes n f xs last := ⟨hrun, hend⟩
  rwa [← hlast.slots_eq]

end BeaconReplay.Workers

namespace BeaconReplay.Pool

variable {α β : Type} {p : Pool}

/-- What a pool collects is what its workers leave behind in the slots, one worker for each
thread. -/
def Collects (p : Pool) : Prop :=
  ∀ (α β : Type) (n : ℕ) (f : α → β) (xs : List α),
    Workers.Finishes n f xs ((p.collect n f xs).map .done)

/-- **The results are collected in the order of the elements.** -/
theorem Collects.collect_eq_map (h : p.Collects) (n : ℕ) (f : α → β) (xs : List α) :
    p.collect n f xs = xs.map f := by
  have hdone : Function.Injective (Workers.Slot.done : β → Workers.Slot β) :=
    fun _ _ => Workers.Slot.done.inj
  exact List.map_injective_iff.2 hdone (h α β n f xs).slots_eq

/-- Pieces cover a list, given as many steps as it has elements. -/
theorem flatten_piecesFrom {n : ℕ} (hn : 0 < n) (fuel : ℕ) (xs : List α)
    (hfuel : xs.length ≤ fuel) : (piecesFrom n fuel xs).flatten = xs := by
  induction fuel generalizing xs with
  | zero =>
    have hnil : xs = [] := List.length_eq_zero_iff.1 (by omega)
    simp [hnil, piecesFrom]
  | succ fuel ih =>
    cases xs with
    | nil => simp [piecesFrom]
    | cons x xs =>
      have hlen : ((x :: xs).drop n).length ≤ fuel := by
        simp only [List.length_drop, List.length_cons] at hfuel ⊢
        omega
      rw [piecesFrom, List.flatten_cons, ih _ hlen, List.take_append_drop]

theorem mapPieces_eq_map (f : α → β) (pieces : List (List α)) :
    mapPieces f pieces = pieces.flatten.map f := by
  simp [mapPieces, List.flatMap_def, List.map_flatten, Function.comp_def, Task.spawn]

/-- Tasks in pieces do what workers may do. -/
theorem collects_tasks : tasks.Collects := by
  intro α β n f xs
  have hcollect : tasks.collect n f xs = xs.map f := by
    change mapPieces f (piecesFrom (max n 1) xs.length xs) = xs.map f
    rw [mapPieces_eq_map, flatten_piecesFrom (by omega) _ _ le_rfl]
  rw [Workers.finishes_iff, hcollect]

end BeaconReplay.Pool
