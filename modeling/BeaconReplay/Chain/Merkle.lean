import BeaconReplay.Chain.Root

/-!
# The root of a vector of roots

Leaves are padded with zero roots up to the next power of two and hashed in pairs, layer by
layer, until one root is left. The empty vector has the zero root.
-/
namespace BeaconReplay.Merkle

/-- One layer up: neighbours are hashed together. -/
def pairLayer : List Root → List Root
  | a :: b :: rest => Root.hashPair a b :: pairLayer rest
  | rest => rest

/-- The least `d` with `n ≤ 2 ^ d`. -/
def depth (n : Nat) : Nat := if n ≤ 1 then 0 else (n - 1).log2 + 1

/-- Leaves with zero roots behind them up to a power of two. -/
def padded (leaves : List Root) : List Root :=
  leaves ++ List.replicate (Nat.pow 2 (depth leaves.length) - leaves.length) Root.zero

/-- The layer `d` levels up. -/
def layer : Nat → List Root → List Root
  | 0, rs => rs
  | d + 1, rs => layer d (pairLayer rs)

/-- The root of a vector. -/
def root : List Root → Root
  | [] => Root.zero
  | leaves => (layer (depth leaves.length) (padded leaves)).headD Root.zero

end BeaconReplay.Merkle
