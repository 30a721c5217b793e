import Mathlib

/-!
# Rings of epochs

A ring has one place for each epoch of a window, and an epoch stands at its number modulo the size
of the ring. In each epoch the place of that epoch may be written to, and at the end of the epoch
the place of the next one is set by what the epoch leaves behind. So a run keeps the values of the
epochs that are still in the window.
-/
namespace BeaconReplay.Ring

variable {α : Type} {carry : α → α} {first place i : ℕ} {start ring : Array α}

/-- Write to one place of a ring, any number of times. -/
def overwrite (place : ℕ) (writes : List α) (ring : Array α) : Array α :=
  writes.foldl (fun r x => r.setIfInBounds place x) ring

@[simp] theorem overwrite_nil (place : ℕ) (ring : Array α) : overwrite place [] ring = ring := rfl

@[simp] theorem size_overwrite (place : ℕ) (writes : List α) (ring : Array α) :
    (overwrite place writes ring).size = ring.size := by
  induction writes generalizing ring with
  | nil => rfl
  | cons x writes ih => exact (ih _).trans (Array.size_setIfInBounds ..)

/-- The other places stay as they are. -/
theorem getElem?_overwrite_ne (h : i ≠ place) (writes : List α) (ring : Array α) :
    (overwrite place writes ring)[i]? = ring[i]? := by
  induction writes generalizing ring with
  | nil => rfl
  | cons x writes ih => exact (ih _).trans (Array.getElem?_setIfInBounds_ne (Ne.symm h))

/-- The last write counts. -/
theorem getElem?_overwrite_self (h : place < ring.size) (writes : List α) (x : α) :
    (overwrite place (writes ++ [x]) ring)[place]? = some x := by
  have hsize : place < (overwrite place writes ring).size := by rwa [size_overwrite]
  rw [overwrite, List.foldl_append]
  exact Array.getElem?_setIfInBounds_self_of_lt hsize

/-- The last write counts, and without one the place is as before. -/
theorem getElem?_overwrite_place {x : α} (h : ring[place]? = some x) (writes : List α) :
    (overwrite place writes ring)[place]? = some (writes.getLastD x) := by
  obtain ⟨hlt, -⟩ := Array.getElem?_eq_some_iff.1 h
  rcases List.eq_nil_or_concat writes with rfl | ⟨earlier, y, rfl⟩
  · exact h
  · rw [List.concat_eq_append, getElem?_overwrite_self hlt, List.getLastD_concat]

/-- Epochs of one window stand at different places. -/
theorem place_ne {a b L : ℕ} (hlt : a < b) (hwindow : b < a + L) : a % L ≠ b % L := by
  intro h
  have hdvd : L ∣ b - a := (Nat.modEq_iff_dvd' hlt.le).1 h
  have hle : L ≤ b - a := Nat.le_of_dvd (by omega) hdvd
  omega

/-- One epoch of a ring: what is written to its place, and the value found there at its end. -/
structure Turn (α : Type) where
  writes : List α
  value : α

/-- **The invariant of a ring**, after turns of which the first one is that of the epoch `first`. -/
structure Kept (carry : α → α) (first : ℕ) (start : Array α) (turns : List (Turn α))
    (ring : Array α) : Prop where
  size_eq : ring.size = start.size
  /-- The place of the next epoch holds what the last one has left behind. -/
  front : ∀ t ∈ turns.getLast?,
    ring[(first + turns.length) % start.size]? = some (carry t.value)
  /-- The epochs in the window hold their values. -/
  recent : ∀ i (hi : i < turns.length), turns.length < i + start.size →
    ring[(first + i) % start.size]? = some turns[i].value
  /-- A place that has neither been written to nor been set is as at the start. -/
  untouched : ∀ p, (∀ i < turns.length, (first + i + 1) % start.size ≠ p) →
    (∀ i (hi : i < turns.length), (first + i) % start.size = p → turns[i].writes = []) →
    ring[p]? = start[p]?

/-- In front of the first turn the ring is as at the start. -/
theorem Kept.nil : Kept carry first start [] start where
  size_eq := rfl
  front := by simp
  recent := by simp
  untouched := by simp

/-- One more turn keeps the invariant. -/
theorem Kept.turn {turns : List (Turn α)} (h : Kept carry first start turns ring)
    (writes : List α) {value : α} (hvalue :
      (overwrite ((first + turns.length) % start.size) writes ring)[(first + turns.length) %
        start.size]? = some value) :
    Kept carry first start (turns ++ [⟨writes, value⟩])
      ((overwrite ((first + turns.length) % start.size) writes ring).setIfInBounds
        ((first + turns.length + 1) % start.size) (carry value)) := by
  generalize hopened : overwrite ((first + turns.length) % start.size) writes ring = opened
  rw [hopened] at hvalue
  have hsize : opened.size = start.size := by rw [← hopened, size_overwrite, h.size_eq]
  have hother : ∀ {p}, p ≠ (first + turns.length) % start.size → opened[p]? = ring[p]? := by
    intro p hp
    rw [← hopened, getElem?_overwrite_ne hp]
  have hpos : 0 < start.size := by
    obtain ⟨hlt, -⟩ := Array.getElem?_eq_some_iff.1 hvalue
    omega
  refine ⟨?_, ?_, ?_, ?_⟩
  · rw [Array.size_setIfInBounds, hsize]
  · intro t ht
    have hbound : (first + turns.length + 1) % start.size < opened.size :=
      (Nat.mod_lt _ hpos).trans_eq hsize.symm
    obtain rfl : ⟨writes, value⟩ = t := by simpa using ht
    rw [List.length_append, List.length_singleton, ← Nat.add_assoc,
      Array.getElem?_setIfInBounds_self_of_lt hbound]
  · intro i hi hwindow
    rw [List.length_append, List.length_singleton] at hi hwindow
    have hset : (first + i) % start.size ≠ (first + turns.length + 1) % start.size :=
      place_ne (by omega) (by omega)
    rw [Array.getElem?_setIfInBounds_ne hset.symm]
    rcases Nat.lt_succ_iff_lt_or_eq.1 hi with hold | rfl
    · have hwritten : (first + i) % start.size ≠ (first + turns.length) % start.size :=
        place_ne (by omega) (by omega)
      rw [hother hwritten, h.recent i hold (by omega), List.getElem_append_left hold]
    · simpa using hvalue
  · intro p hset hwritten
    simp only [List.length_append, List.length_singleton] at hset hwritten
    rw [Array.getElem?_setIfInBounds_ne (hset turns.length (by omega))]
    have hring : ring[p]? = start[p]? := by
      refine h.untouched p (fun i hi => hset i (by omega)) fun i hi hp => ?_
      simpa [List.getElem_append_left hi] using hwritten i (by omega) hp
    by_cases hp : (first + turns.length) % start.size = p
    · have hnone : writes = [] := by simpa using hwritten turns.length (by omega) hp
      rw [← hopened, hnone, overwrite_nil, hring]
    · rw [hother (Ne.symm hp), hring]

/-- Where every turn leaves the same behind, the place of the next epoch holds it. -/
theorem Kept.front_eq {turns : List (Turn α)} {x : α}
    (h : Kept (fun _ => x) first start turns ring) (hne : turns ≠ []) :
    ring[(first + turns.length) % start.size]? = some x :=
  h.front (turns.getLast hne) (List.getLast?_eq_some_getLast hne)

/-- A ring that has come round holds the values of the last turns in their order, and behind them
what the last turn has left, if it is read from the place of the oldest of these turns. -/
theorem Kept.rotate_toList {turns : List (Turn α)} (h : Kept carry first start turns ring)
    (hfull : start.size ≤ turns.length) {x : α}
    (hfront : ring[(first + turns.length) % start.size]? = some x) :
    ring.toList.rotate (first + turns.length + 1) =
      (turns.rtake (start.size - 1)).map Turn.value ++ [x] := by
  have hpos : 0 < start.size := by
    obtain ⟨hlt, -⟩ := Array.getElem?_eq_some_iff.1 hfront
    have := h.size_eq
    omega
  have hsize : ring.toList.length = start.size := by rw [Array.length_toList, h.size_eq]
  apply List.ext_getElem
  · simp only [List.length_rotate, hsize, List.length_append, List.length_map, List.rtake,
      List.length_drop, List.length_singleton]
    omega
  · intro j hj _
    rw [List.length_rotate, hsize] at hj
    rw [List.getElem_rotate, ← Option.some_inj, ← List.getElem?_eq_getElem, hsize,
      Array.getElem?_toList]
    by_cases hlast : j < start.size - 1
    · -- the place of a turn in the window
      have hi : turns.length - (start.size - 1) + j < turns.length := by omega
      have hplace : (j + (first + turns.length + 1)) % start.size =
          (first + (turns.length - (start.size - 1) + j)) % start.size := by
        rw [← Nat.add_mod_right (first + _)]
        congr 1
        omega
      rw [hplace, h.recent _ hi (by omega), List.getElem_append_left (by simp [List.rtake]; omega)]
      simp [List.rtake]
    · -- the place in front of the ring
      have hplace : (j + (first + turns.length + 1)) % start.size =
          (first + turns.length) % start.size := by
        rw [← Nat.add_mod_right (first + _)]
        congr 1
        omega
      rw [hplace, hfront, List.getElem_append_right (by simp [List.rtake]; omega)]
      simp

end BeaconReplay.Ring
