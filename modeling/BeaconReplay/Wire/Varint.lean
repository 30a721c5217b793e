/-!
# Varints

A number in groups of seven bits, the lowest group first; every byte but the last has its high
bit set. A word takes at most ten bytes.
-/
namespace BeaconReplay.Wire

/-- The most bytes that the varint of a word takes. -/
def varintLimit : Nat := 10

/-- The bytes of a number, at most `room` of them. -/
def varintBytes : Nat → Nat → List UInt8
  | 0, _ => []
  | room + 1, n =>
    if n < 128 then [n.toUInt8] else (n % 128 + 128).toUInt8 :: varintBytes room (n / 128)

/-- The varint of a word. -/
def varint (n : UInt64) : List UInt8 := varintBytes varintLimit n.toNat

/-- The number in front of a list of bytes, in at most `room` bytes, and what follows it. -/
def readVarintBytes : Nat → List UInt8 → Option (Nat × List UInt8)
  | 0, _ => none
  | _, [] => none
  | room + 1, b :: bs =>
    if b < 128 then some (b.toNat, bs)
    else (readVarintBytes room bs).map fun (n, rest) => (b.toNat - 128 + 128 * n, rest)

/-- The word in front of a list of bytes, and what follows it. -/
def readVarint (bs : List UInt8) : Option (UInt64 × List UInt8) :=
  match readVarintBytes varintLimit bs with
  | some (n, rest) => if n < UInt64.size then some (n.toUInt64, rest) else none
  | none => none

end BeaconReplay.Wire
