import BeaconReplay.Chain.Merkle
import BeaconReplay.Proofs.Result

/-!
# The layers over a vector

Pairing halves a layer, and over an even cut it works on both sides by itself. The padded leaves
are as many as the least power of two that has room for them, so every layer over them is a power
of two, and the last one is the root alone.
-/
namespace BeaconReplay.Merkle

variable {rs xs ys leaves : List Root} {d n : ℕ}

/-! ## Pairing -/

@[simp] theorem pairLayer_nil : pairLayer [] = [] := rfl

@[simp] theorem pairLayer_singleton (a : Root) : pairLayer [a] = [a] := rfl

@[simp] theorem pairLayer_cons_cons (a b : Root) (rs : List Root) :
    pairLayer (a :: b :: rs) = Root.hashPair a b :: pairLayer rs := rfl

theorem length_pairLayer : ∀ rs : List Root, (pairLayer rs).length = (rs.length + 1) / 2
  | [] => by simp
  | [_] => by simp
  | a :: b :: rest => by
    have ih := length_pairLayer rest
    simp only [pairLayer_cons_cons, List.length_cons, ih]
    omega

/-- Pairing works on both sides of an even cut by itself. -/
theorem pairLayer_append : ∀ {xs : List Root}, Even xs.length → ∀ ys : List Root,
    pairLayer (xs ++ ys) = pairLayer xs ++ pairLayer ys
  | [], _, _ => rfl
  | [_], hxs, _ => by simp at hxs
  | a :: b :: rest, hxs, ys => by
    have hrest : Even rest.length := by simpa [Nat.even_add_one] using hxs
    simp [pairLayer_append hrest ys]

/-! ## Layers -/

@[simp] theorem layer_zero (rs : List Root) : layer 0 rs = rs := rfl

/-- The next layer is the pairing of the one below it. -/
theorem layer_succ (d : ℕ) (rs : List Root) : layer (d + 1) rs = pairLayer (layer d rs) := by
  induction d generalizing rs with
  | zero => rfl
  | succ d ih => exact ih (pairLayer rs)

/-- `d` levels up from a multiple of `2 ^ d` roots. -/
theorem length_layer (h : rs.length = 2 ^ d * n) : (layer d rs).length = n := by
  induction d generalizing n with
  | zero => simpa using h
  | succ d ih =>
    have hbelow : (layer d rs).length = 2 * n := ih (by rw [h, Nat.pow_succ, Nat.mul_assoc])
    rw [layer_succ, length_pairLayer, hbelow]
    omega

/-- Over a cut at a multiple of `2 ^ d`, the layer `d` levels up falls into that of either side. -/
theorem layer_append (hxs : 2 ^ d ∣ xs.length) (ys : List Root) :
    layer d (xs ++ ys) = layer d xs ++ layer d ys := by
  induction d with
  | zero => rfl
  | succ d ih =>
    obtain ⟨n, hn⟩ := hxs
    have hbelow : (layer d xs).length = 2 * n :=
      length_layer (by rw [hn, Nat.pow_succ, Nat.mul_assoc])
    have heven : Even (layer d xs).length := ⟨n, by omega⟩
    rw [layer_succ, layer_succ, layer_succ, ih ⟨2 * n, by rw [hn, Nat.pow_succ, Nat.mul_assoc]⟩,
      pairLayer_append heven]

/-! ## Climbing -/

/-- A pass over a layer: two neighbours are hashed together. A root without a neighbour stops it. -/
def pass? : List Root → Option (List Root)
  | [] => some []
  | [_] => none
  | a :: b :: rest => (pass? rest).map (Root.hashPair a b :: ·)

/-- A pass halves a layer. -/
theorem length_of_pass? : ∀ {rs up : List Root}, pass? rs = some up → rs.length = 2 * up.length
  | [], up, h => by simp_all [pass?]
  | [_], up, h => by simp [pass?] at h
  | a :: b :: rest, up, h => by
    obtain ⟨above, habove, rfl⟩ := Option.map_eq_some_iff.1 h
    have ih := length_of_pass? habove
    simp only [List.length_cons]
    omega

/-- No root of an even layer is without a neighbour. -/
theorem pass?_of_even : ∀ {rs : List Root}, Even rs.length → pass? rs = some (pairLayer rs)
  | [], _ => rfl
  | [_], h => by simp at h
  | a :: b :: rest, h => by
    have hrest : Even rest.length := by simpa [Nat.even_add_one] using h
    simp [pass?, pass?_of_even hrest]

/-- Pass after pass while there are two roots to be hashed: the layers from the first one up. -/
def climb (rs : List Root) : Option (List (List Root)) :=
  if 1 < rs.length then
    match _hpass : pass? rs with
    | none => none
    | some up => (climb up).map (rs :: ·)
  else some [rs]
termination_by rs.length
decreasing_by
  have hlength := length_of_pass? _hpass
  omega

theorem climb_of_even (hlength : 1 < rs.length) (heven : Even rs.length) :
    climb rs = (climb (pairLayer rs)).map (rs :: ·) := by
  have hpass := pass?_of_even heven
  rw [climb, if_pos hlength]
  split
  · next hnone => rw [hpass] at hnone; cases hnone
  · next up hup =>
    rw [hpass] at hup
    cases hup
    rfl

/-- **From a power of two, no pass is stopped**, and each layer up to the root is met. -/
theorem climb_of_length (h : rs.length = 2 ^ d) :
    climb rs = some ((List.range (d + 1)).map fun k => layer k rs) := by
  induction d generalizing rs with
  | zero =>
    have hone : ¬1 < rs.length := by omega
    rw [climb, if_neg hone]
    rfl
  | succ d ih =>
    have hdouble : rs.length = 2 * 2 ^ d := by rw [h, Nat.pow_succ, Nat.mul_comm]
    have hpos : 0 < 2 ^ d := Nat.two_pow_pos d
    have hup : (pairLayer rs).length = 2 ^ d := by rw [length_pairLayer]; omega
    rw [climb_of_even (by omega) ⟨2 ^ d, by omega⟩, ih hup, List.range_succ_eq_map (n := d + 1)]
    simp [layer, Function.comp_def]

/-! ## The padded leaves -/

/-- The depth is the least one whose power of two has room for the leaves. -/
theorem isLeast_depth (n : ℕ) : IsLeast {d | n ≤ 2 ^ d} (depth n) := by
  unfold depth
  constructor
  · split
    · next h => simpa using h
    · next h =>
      have hlt : n - 1 < 2 ^ ((n - 1).log2 + 1) := Nat.lt_log2_self
      exact Nat.le_of_pred_lt hlt
  · intro d hd
    split
    · exact Nat.zero_le d
    · next h =>
      have hpos : n - 1 ≠ 0 := by omega
      have hlt : n - 1 < 2 ^ d := by
        have hn : n ≤ 2 ^ d := hd
        omega
      exact (Nat.log2_lt hpos).2 hlt

theorem le_two_pow_depth (n : ℕ) : n ≤ 2 ^ depth n := (isLeast_depth n).1

theorem depth_eq_of_isLeast (h : IsLeast {d | n ≤ 2 ^ d} d) : depth n = d :=
  (isLeast_depth n).unique h

theorem depth_two_pow (d : ℕ) : depth (2 ^ d) = d :=
  depth_eq_of_isLeast ⟨le_refl (2 ^ d), fun _ h => (Nat.pow_le_pow_iff_right one_lt_two).1 h⟩

theorem padded_eq (leaves : List Root) : padded leaves =
    leaves ++ List.replicate (2 ^ depth leaves.length - leaves.length) Root.zero := rfl

theorem length_padded (leaves : List Root) : (padded leaves).length = 2 ^ depth leaves.length := by
  have hroom := le_two_pow_depth leaves.length
  rw [padded_eq, List.length_append, List.length_replicate]
  omega

/-- Over a vector there are as many layers as it is deep, and one more. Each of them is half as long
as the one below it. -/
def layers (leaves : List Root) : List (List Root) :=
  (List.range (depth leaves.length + 1)).map fun k => layer k (padded leaves)

@[simp] theorem length_layers (leaves : List Root) :
    (layers leaves).length = depth leaves.length + 1 := by
  simp [layers]

theorem getElem?_layers {k : ℕ} (hk : k ≤ depth leaves.length) :
    (layers leaves)[k]? = some (layer k (padded leaves)) := by
  simp [layers, Nat.lt_succ_iff.2 hk]

theorem length_layer_padded {k : ℕ} (hk : k ≤ depth leaves.length) :
    (layer k (padded leaves)).length = 2 ^ (depth leaves.length - k) := by
  apply length_layer
  rw [length_padded, ← Nat.pow_add, Nat.add_sub_cancel' hk]

/-- The last layer is the root alone. -/
theorem layer_depth_padded (h : leaves ≠ []) :
    layer (depth leaves.length) (padded leaves) = [root leaves] := by
  have hlength : (layer (depth leaves.length) (padded leaves)).length = 1 := by
    rw [length_layer_padded le_rfl, Nat.sub_self, Nat.pow_zero]
  obtain ⟨r, hr⟩ := List.length_eq_one_iff.1 hlength
  rw [root, hr]
  · rfl
  · exact h

end BeaconReplay.Merkle
