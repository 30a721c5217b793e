import BeaconReplay.Proofs.Merkle.Layers

/-!
# The root of a vector as the root of a tree

The layers are built from the leaves up. Read from the root down, they are a tree that is halved at
each level and that is empty behind the last leaf; read without the padding, they are layers whose
odd end is completed by the root of an empty subtree. All three give the same root, and more zero
leaves only put empty subtrees at the right of it.
-/
namespace BeaconReplay.Merkle

variable {leaves rs xs ys : List Root} {d k m : ℕ}

/-- The root of an empty subtree with `2 ^ k` leaves. -/
def emptyRoot : ℕ → Root
  | 0 => Root.zero
  | k + 1 => Root.hashPair (emptyRoot k) (emptyRoot k)

/-! ## From the root down -/

/-- The root of the subtree over `2 ^ k` leaves, of which the first ones are given. -/
def subtree : ℕ → List Root → Root
  | k, [] => emptyRoot k
  | 0, x :: _ => x
  | k + 1, xs => Root.hashPair (subtree k (xs.take (2 ^ k))) (subtree k (xs.drop (2 ^ k)))

@[simp] theorem subtree_nil (k : ℕ) : subtree k [] = emptyRoot k := by cases k <;> rfl

/-- A subtree is its two halves hashed together, also if it is empty. -/
theorem subtree_succ (k : ℕ) (xs : List Root) : subtree (k + 1) xs =
    Root.hashPair (subtree k (xs.take (2 ^ k))) (subtree k (xs.drop (2 ^ k))) := by
  cases xs with
  | nil => simp [emptyRoot]
  | cons x xs => rw [subtree]; exact List.cons_ne_nil x xs

/-- The right half of a subtree is empty if all leaves are in the left one. -/
theorem subtree_succ_of_le (h : xs.length ≤ 2 ^ k) :
    subtree (k + 1) xs = Root.hashPair (subtree k xs) (emptyRoot k) := by
  rw [subtree_succ, List.take_of_length_le h, List.drop_of_length_le h, subtree_nil]

/-- Zero leaves behind the given ones change nothing. -/
theorem subtree_append_zeros (h : xs.length + m ≤ 2 ^ k) :
    subtree k (xs ++ List.replicate m Root.zero) = subtree k xs := by
  induction k generalizing xs m with
  | zero =>
    match xs, m with
    | [], 0 => rfl
    | [], 1 => rfl
    | [_], 0 => rfl
    | _ :: _, _ + 1 => simp at h; omega
    | [], _ + 2 => simp at h
    | _ :: _ :: _, 0 => simp at h
  | succ k ih =>
    have hdouble : 2 ^ (k + 1) = 2 ^ k + 2 ^ k := by omega
    have hleft : (xs.take (2 ^ k)).length + min (2 ^ k - xs.length) m ≤ 2 ^ k := by
      rw [List.length_take]
      omega
    have hright : (xs.drop (2 ^ k)).length + (m - (2 ^ k - xs.length)) ≤ 2 ^ k := by
      rw [List.length_drop]
      omega
    rw [subtree_succ, subtree_succ, List.take_append, List.drop_append, List.take_replicate,
      List.drop_replicate, ih hleft, ih hright]

/-- Over a full row of leaves, the layers end in the root of the tree. -/
theorem layer_eq_subtree (h : rs.length = 2 ^ d) : layer d rs = [subtree d rs] := by
  induction d generalizing rs with
  | zero =>
    obtain ⟨r, rfl⟩ := List.length_eq_one_iff.1 h
    rfl
  | succ d ih =>
    have hdouble : rs.length = 2 ^ d + 2 ^ d := by omega
    have htake : (rs.take (2 ^ d)).length = 2 ^ d := by rw [List.length_take]; omega
    have hdrop : (rs.drop (2 ^ d)).length = 2 ^ d := by rw [List.length_drop]; omega
    calc layer (d + 1) rs
        = pairLayer (layer d (rs.take (2 ^ d) ++ rs.drop (2 ^ d))) := by
          rw [layer_succ, List.take_append_drop]
      _ = pairLayer ([subtree d (rs.take (2 ^ d))] ++ [subtree d (rs.drop (2 ^ d))]) := by
          rw [layer_append (dvd_of_eq htake.symm), ih htake, ih hdrop]
      _ = [subtree (d + 1) rs] := by
          rw [subtree_succ]
          rfl

/-- **The root of a vector is that of the tree over its leaves.** -/
theorem root_eq_subtree (hne : leaves ≠ []) :
    root leaves = subtree (depth leaves.length) leaves := by
  have hroom := le_two_pow_depth leaves.length
  have hlast := layer_depth_padded hne
  rw [layer_eq_subtree (length_padded leaves), padded_eq, subtree_append_zeros (by omega)] at hlast
  exact (List.singleton_inj.1 hlast).symm

/-- Zero leaves that fit below the same root leave it unchanged. -/
theorem root_append_zeros (hne : leaves ≠ []) (h : leaves.length + m ≤ 2 ^ depth leaves.length) :
    root (leaves ++ List.replicate m Root.zero) = root leaves := by
  have hdepth : depth (leaves ++ List.replicate m Root.zero).length = depth leaves.length := by
    rw [List.length_append, List.length_replicate]
    refine depth_eq_of_isLeast ⟨h, fun k hk => ?_⟩
    exact (isLeast_depth leaves.length).2 (le_trans (Nat.le_add_right _ m) hk)
  rw [root_eq_subtree (List.append_ne_nil_of_left_ne_nil hne _), hdepth, subtree_append_zeros h,
    root_eq_subtree hne]

/-- In a deeper tree, empty subtrees stand at the right of the leaves. -/
theorem subtree_add (h : xs.length ≤ 2 ^ d) (j : ℕ) : subtree (d + j) xs =
    (List.range j).foldl (fun r i => Root.hashPair r (emptyRoot (d + i))) (subtree d xs) := by
  induction j with
  | zero => rfl
  | succ j ih =>
    have hroom : xs.length ≤ 2 ^ (d + j) :=
      h.trans (Nat.pow_le_pow_right two_pos (Nat.le_add_right d j))
    rw [List.range_succ, List.foldl_append, ← ih, ← Nat.add_assoc, subtree_succ_of_le hroom]
    rfl

/-- Leaves that are padded to a full row of a deeper tree. -/
theorem root_padded_to (hne : leaves ≠ []) (h : leaves.length ≤ 2 ^ d) :
    root (leaves ++ List.replicate (2 ^ d - leaves.length) Root.zero) = subtree d leaves := by
  have hlength : (leaves ++ List.replicate (2 ^ d - leaves.length) Root.zero).length = 2 ^ d := by
    rw [List.length_append, List.length_replicate]
    omega
  rw [root_eq_subtree (List.append_ne_nil_of_left_ne_nil hne _), hlength, depth_two_pow,
    subtree_append_zeros (by omega)]

/-- Over two full rows of one length stands the hash of their roots. -/
theorem root_append_of_length (hxs : xs.length = 2 ^ k) (hys : ys.length = 2 ^ k) :
    root (xs ++ ys) = Root.hashPair (root xs) (root ys) := by
  have hlength : (xs ++ ys).length = 2 ^ (k + 1) := by rw [List.length_append]; omega
  have hpos : 0 < 2 ^ k := Nat.two_pow_pos k
  have hxs_ne : xs ≠ [] := List.ne_nil_of_length_pos (hxs ▸ hpos)
  have hys_ne : ys ≠ [] := List.ne_nil_of_length_pos (hys ▸ hpos)
  calc root (xs ++ ys)
      = subtree (k + 1) (xs ++ ys) := by
        rw [root_eq_subtree (List.append_ne_nil_of_left_ne_nil hxs_ne _), hlength, depth_two_pow]
    _ = Root.hashPair (subtree k xs) (subtree k ys) := by
        rw [subtree_succ, List.take_left' hxs, List.drop_left' hxs]
    _ = Root.hashPair (root xs) (root ys) := by
        rw [root_eq_subtree hxs_ne, root_eq_subtree hys_ne, hxs, hys, depth_two_pow]

/-! ## Without the padding -/

/-- A layer of even length: behind an odd one stands the root of an empty subtree. -/
def completed (k : ℕ) (rs : List Root) : List Root :=
  if rs.length % 2 = 0 then rs else rs ++ [emptyRoot k]

/-- The layer `k` levels up over leaves that are not padded. -/
def sparseLayer : ℕ → List Root → List Root
  | 0, rs => rs
  | k + 1, rs => pairLayer (completed k (sparseLayer k rs))

theorem sparseLayer_ne_nil (h : rs ≠ []) (k : ℕ) : sparseLayer k rs ≠ [] := by
  induction k with
  | zero => exact h
  | succ k ih =>
    have hpos : 0 < (sparseLayer k rs).length := List.length_pos_iff.2 ih
    apply List.ne_nil_of_length_pos
    rw [sparseLayer, length_pairLayer, completed]
    split
    · omega
    · rw [List.length_append]; omega

theorem pairLayer_emptyRoots (k n : ℕ) :
    pairLayer (List.replicate (2 * n) (emptyRoot k)) = List.replicate n (emptyRoot (k + 1)) := by
  induction n with
  | zero => rfl
  | succ n ih =>
    rw [Nat.mul_succ, List.replicate_succ, List.replicate_succ, pairLayer_cons_cons, ih,
      List.replicate_succ, emptyRoot]

/-- Empty subtrees behind a layer become empty subtrees behind the next one, but for the one that
completes the layer. -/
theorem pairLayer_append_emptyRoots (heven : Even (rs.length + m)) (k : ℕ) :
    ∃ n, pairLayer (rs ++ List.replicate m (emptyRoot k)) =
      pairLayer (completed k rs) ++ List.replicate n (emptyRoot (k + 1)) := by
  by_cases hrs : rs.length % 2 = 0
  · have hlength : Even rs.length := Nat.even_iff.2 hrs
    obtain ⟨n, rfl⟩ := (Nat.even_add.1 heven).1 hlength
    refine ⟨n, ?_⟩
    rw [pairLayer_append hlength, completed, if_pos hrs, ← two_mul, pairLayer_emptyRoots]
  · have hlength : ¬Even rs.length := fun h => hrs (Nat.even_iff.1 h)
    have hm : ¬Even m := fun h => hlength ((Nat.even_add.1 heven).2 h)
    obtain ⟨n, rfl⟩ := Nat.not_even_iff_odd.1 hm
    have hcompleted : Even (rs ++ [emptyRoot k]).length := by
      rw [List.length_append, List.length_singleton, Nat.even_add_one]
      exact hlength
    refine ⟨n, ?_⟩
    rw [completed, if_neg hrs, Nat.add_comm (2 * n) 1, List.replicate_add, ← List.append_assoc,
      List.replicate_one, pairLayer_append hcompleted, pairLayer_emptyRoots]

/-- The layers over padded leaves are those over the leaves alone, with empty subtrees behind. -/
theorem layer_eq_sparseLayer (h : rs.length + m = 2 ^ d) (hk : k ≤ d) :
    ∃ n, layer k (rs ++ List.replicate m Root.zero) =
      sparseLayer k rs ++ List.replicate n (emptyRoot k) := by
  induction k with
  | zero => exact ⟨m, rfl⟩
  | succ k ih =>
    obtain ⟨n, hn⟩ := ih (by omega)
    -- below the root every layer is even
    have hlength : (layer k (rs ++ List.replicate m Root.zero)).length = 2 * 2 ^ (d - (k + 1)) := by
      apply length_layer
      rw [List.length_append, List.length_replicate, h, ← Nat.mul_assoc, ← Nat.pow_succ,
        ← Nat.pow_add, Nat.add_sub_cancel' hk]
    rw [hn, List.length_append, List.length_replicate] at hlength
    have heven : Even ((sparseLayer k rs).length + n) := ⟨2 ^ (d - (k + 1)), by omega⟩
    rw [layer_succ, hn]
    exact pairLayer_append_emptyRoots heven k

/-- **Without the padding the layers end in the same root.** -/
theorem sparseLayer_eq_root (hne : leaves ≠ []) :
    sparseLayer (depth leaves.length) leaves = [root leaves] := by
  have hroom := le_two_pow_depth leaves.length
  have hlast := layer_depth_padded hne
  obtain ⟨n, hn⟩ := layer_eq_sparseLayer (Nat.add_sub_cancel' hroom) le_rfl
  rw [padded_eq, hn] at hlast
  rcases List.append_eq_singleton_iff.1 hlast with ⟨hnil, -⟩ | ⟨hone, -⟩
  · exact absurd hnil (sparseLayer_ne_nil hne _)
  · exact hone

/-- **The root of a vector is the root of a binary tree over its leaves**, of the least depth that
has room for them. The loop over the layers reaches it without meeting a root that has no neighbour,
each of its layers being a power of two; the tree may be read from the root down or built without
the padding, and zero leaves put empty subtrees at its right. -/
theorem root_is_tree_root (hne : leaves ≠ []) (hd : IsLeast {d | leaves.length ≤ 2 ^ d} d) :
    (climb (padded leaves) = some (layers leaves) ∧
      (layers leaves).length = d + 1 ∧
      (∀ k ≤ d, ∃ rs, (layers leaves)[k]? = some rs ∧ rs.length = 2 ^ (d - k)) ∧
      (layers leaves)[d]? = some [root leaves]) ∧
    root leaves = subtree d leaves ∧
    sparseLayer d leaves = [root leaves] ∧
    (∀ m, leaves.length + m ≤ 2 ^ d →
      root (leaves ++ List.replicate m Root.zero) = root leaves) ∧
    ∀ j, root (leaves ++ List.replicate (2 ^ (d + j) - leaves.length) Root.zero) =
      (List.range j).foldl (fun r i => Root.hashPair r (emptyRoot (d + i))) (root leaves) := by
  obtain rfl : depth leaves.length = d := depth_eq_of_isLeast hd
  refine ⟨⟨climb_of_length (length_padded leaves), length_layers leaves, ?_, ?_⟩,
    root_eq_subtree hne, sparseLayer_eq_root hne, fun m hm => root_append_zeros hne hm, ?_⟩
  · exact fun k hk => ⟨_, getElem?_layers hk, length_layer_padded hk⟩
  · rw [getElem?_layers le_rfl, layer_depth_padded hne]
  · intro j
    have hroom : leaves.length ≤ 2 ^ (depth leaves.length + j) :=
      (le_two_pow_depth leaves.length).trans
        (Nat.pow_le_pow_right two_pos (Nat.le_add_right _ j))
    rw [root_padded_to hne hroom, subtree_add (le_two_pow_depth leaves.length),
      root_eq_subtree hne]

/-- Five different leaves. -/
def fiveLeaves : List Root := (List.range 5).map fun i => Root.hash [i.toUInt8]

/-- Five leaves need a tree of depth three, in which the fifth one is alone at the right. -/
theorem root_fiveLeaves : fiveLeaves ≠ [] ∧ IsLeast {d | fiveLeaves.length ≤ 2 ^ d} 3 ∧
    root fiveLeaves = subtree 3 fiveLeaves ∧ sparseLayer 3 fiveLeaves = [root fiveLeaves] ∧
    root (fiveLeaves ++ List.replicate 11 Root.zero) =
      Root.hashPair (root fiveLeaves) (emptyRoot 3) := by
  have hne : fiveLeaves ≠ [] := List.ne_nil_of_length_pos (by decide)
  have hleast : IsLeast {d | fiveLeaves.length ≤ 2 ^ d} 3 := isLeast_depth 5
  have h := root_is_tree_root hne hleast
  exact ⟨hne, hleast, h.2.1, h.2.2.1, h.2.2.2.2 1⟩

end BeaconReplay.Merkle
