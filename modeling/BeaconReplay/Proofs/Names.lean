import Mathlib

/-!
# Lists by name

The members of a record and the entries of a directory are lists of named parts. Where no name
stands twice, a name is looked up as the part that it names, whatever the order of the list.
-/
namespace BeaconReplay.Names

variable {κ α : Type} [BEq κ] [LawfulBEq κ] {k : κ} {v : α} {xs ys : List (κ × α)}

theorem lookup_eq_none_iff : xs.lookup k = none ↔ k ∉ xs.map Prod.fst := by
  rw [List.lookup_eq_none_iff]
  constructor
  · intro h hmem
    obtain ⟨x, hx, rfl⟩ := List.mem_map.1 hmem
    simpa using h x hx
  · intro h x hx
    rw [bne_iff_ne]
    rintro rfl
    exact h (List.mem_map_of_mem hx)

theorem mem_of_lookup (h : xs.lookup k = some v) : (k, v) ∈ xs := by
  obtain ⟨before, behind, rfl, -⟩ := List.lookup_eq_some_iff.1 h
  simp

/-- A name that stands once is looked up as the part that it names. -/
theorem lookup_eq_some_iff (h : (xs.map Prod.fst).Nodup) : xs.lookup k = some v ↔ (k, v) ∈ xs := by
  induction xs with
  | nil => simp
  | cons x xs ih =>
    obtain ⟨l, w⟩ := x
    rw [List.map_cons, List.nodup_cons] at h
    obtain ⟨hnew, hnodup⟩ := h
    by_cases hk : k = l
    · subst hk
      have hother : (k, v) ∉ xs := fun hmem => hnew (List.mem_map.2 ⟨_, hmem, rfl⟩)
      simp [hother, eq_comm]
    · simp [List.lookup_cons, beq_false_of_ne hk, ih hnodup, hk]

/-- Among names of which some stand once, one of these is looked up as the part that it names. -/
theorem lookup_eq_some_iff_of_once {p : κ → Bool} (h : ((xs.map Prod.fst).filter p).Nodup)
    (hk : p k = true) : xs.lookup k = some v ↔ (k, v) ∈ xs := by
  have hfilter : xs.lookup k = (xs.filter (p ∘ Prod.fst)).lookup k := by
    clear h
    induction xs with
    | nil => rfl
    | cons x xs ih =>
      obtain ⟨l, w⟩ := x
      by_cases hl : k = l
      · subst hl
        simp [hk]
      · cases hp : p l <;> simp [List.lookup_cons, beq_false_of_ne hl, hp, ih]
  rw [List.filter_map] at h
  rw [hfilter, lookup_eq_some_iff h, List.mem_filter]
  exact and_iff_left hk

omit [BEq κ] [LawfulBEq κ] in
theorem names_zip_sublist (ks : List κ) (vs : List α) :
    ((ks.zip vs).map Prod.fst).Sublist ks := by
  induction ks generalizing vs with
  | nil => exact .slnil
  | cons k ks ih =>
    cases vs with
    | nil => exact List.nil_sublist _
    | cons v vs => exact (ih vs).cons_cons k

/-- If some names stand more than once, there is a first one that stands there again. -/
theorem exists_first_repeated {p : κ → Bool} (h : ¬((xs.map Prod.fst).filter p).Nodup) :
    ∃ before k v behind, xs = before ++ (k, v) :: behind ∧ k ∈ (before.map Prod.fst).filter p ∧
      ((before.map Prod.fst).filter p).Nodup := by
  induction xs using List.reverseRecOn with
  | nil => exact absurd .nil h
  | append_singleton xs x ih =>
    by_cases hxs : ((xs.map Prod.fst).filter p).Nodup
    · have hx : x.1 ∈ (xs.map Prod.fst).filter p := by
        by_contra hnew
        refine h ?_
        rw [List.map_append, List.filter_append, List.nodup_append']
        refine ⟨hxs, (List.nodup_singleton _).filter _, fun l hl hl' => hnew ?_⟩
        obtain rfl := List.mem_singleton.1 (List.mem_filter.1 hl').1
        exact hl
      exact ⟨xs, x.1, x.2, [], rfl, hx, hxs⟩
    · obtain ⟨before, k, v, behind, rfl, hk, hbefore⟩ := ih hxs
      exact ⟨before, k, v, behind ++ [x], by simp, hk, hbefore⟩

/-- The order of the parts does not matter. -/
theorem lookup_of_perm (h : (xs.map Prod.fst).Nodup) (hperm : xs.Perm ys) :
    xs.lookup k = ys.lookup k := by
  have hys : (ys.map Prod.fst).Nodup := (hperm.map Prod.fst).nodup_iff.1 h
  ext v
  rw [lookup_eq_some_iff h, lookup_eq_some_iff hys, hperm.mem_iff]

/-- If the names ascend and are `k` or behind it, then `k` is the first name or none of them. -/
theorem first_or_later [LinearOrder κ] {ks : List κ} (hk : ∀ l ∈ ks, k < l)
    (hxs : (xs.map Prod.fst).Pairwise (· < ·)) (h : ∀ l ∈ xs.map Prod.fst, l ∈ k :: ks) :
    (∃ v rest, xs = (k, v) :: rest ∧ (rest.map Prod.fst).Pairwise (· < ·) ∧
      ∀ l ∈ rest.map Prod.fst, l ∈ ks) ∨
    xs.lookup k = none ∧ ∀ l ∈ xs.map Prod.fst, l ∈ ks := by
  cases xs with
  | nil => exact .inr ⟨rfl, fun l hl => nomatch hl⟩
  | cons x xs =>
    obtain ⟨hfirst, hrest⟩ := List.pairwise_cons.1 hxs
    have hlater (l : κ) (hl : l ∈ xs.map Prod.fst) : k < l :=
      (List.mem_cons.1 (h x.1 (List.mem_cons_self ..))).elim (fun heq => heq ▸ hfirst l hl)
        fun hx => (hk x.1 hx).trans (hfirst l hl)
    have hmem (l : κ) (hl : l ∈ xs.map Prod.fst) : l ∈ ks :=
      (List.mem_cons.1 (h l (List.mem_cons_of_mem _ hl))).resolve_left (hlater l hl).ne'
    rcases List.mem_cons.1 (h x.1 (List.mem_cons_self ..)) with heq | hx
    · exact .inl ⟨x.2, xs, by rw [← heq], hrest, hmem⟩
    · have hall : ∀ l ∈ (x :: xs).map Prod.fst, l ∈ ks := List.forall_mem_cons.2 ⟨hx, hmem⟩
      exact .inr ⟨lookup_eq_none_iff.2 fun hl => (hk k (hall k hl)).false, hall⟩

/-- Parts whose names ascend are found again by ascending names, their own among them. -/
theorem filterMap_lookup [LinearOrder κ] {ks : List κ} (hks : ks.Pairwise (· < ·))
    (hxs : (xs.map Prod.fst).Pairwise (· < ·)) (h : ∀ l ∈ xs.map Prod.fst, l ∈ ks) :
    ks.filterMap (fun k => (xs.lookup k).map (k, ·)) = xs := by
  induction ks generalizing xs with
  | nil =>
    have hempty : xs.map Prod.fst = [] :=
      List.eq_nil_iff_forall_not_mem.2 fun l hl => nomatch h l hl
    rw [List.map_eq_nil_iff.1 hempty]
    rfl
  | cons k ks ih =>
    obtain ⟨hk, hks⟩ := List.pairwise_cons.1 hks
    rcases first_or_later hk hxs h with ⟨v, rest, rfl, hrest, hlater⟩ | ⟨hnone, hlater⟩
    · rw [List.filterMap_cons_some (by rw [List.lookup_cons_self]; rfl)]
      refine congrArg ((k, v) :: ·) ((List.filterMap_congr fun l hl => ?_).trans
        (ih hks hrest hlater))
      rw [List.lookup_cons, beq_false_of_ne (hk l hl).ne']
    · rw [List.filterMap_cons_none (by rw [hnone]; rfl), ih hks hxs hlater]

end BeaconReplay.Names
