import BeaconReplay.Text.Hex
import BeaconReplay.Chain.Fault
import BeaconReplay.Chain.Sha256

/-!
# Roots

A root is thirty-two bytes. Its text is `0x` and sixty-four lower-case digits; reading also
takes upper-case digits and a missing marker. Roots are ordered byte by byte.
-/
namespace BeaconReplay

/-- A hash of thirty-two bytes. -/
structure Root where
  bytes : Vector UInt8 32
  deriving DecidableEq

namespace Root

/-- The root of an absent subtree. -/
def zero : Root := ⟨Vector.replicate 32 0⟩

instance : Inhabited Root := ⟨zero⟩

/-- The bytes as a list. -/
def toList (r : Root) : List UInt8 := r.bytes.toList

/-- A root from exactly thirty-two bytes. -/
def ofList? (bs : List UInt8) : Option Root :=
  if h : bs.length = 32 then some ⟨⟨bs.toArray, by simpa using h⟩⟩ else none

/-- The hash of a byte string. -/
def hash (bs : List UInt8) : Root :=
  ⟨⟨(Sha256.digest bs).toArray, by simp [Sha256.length_digest]⟩⟩

/-- The hash of two roots, left before right. -/
def hashPair (left right : Root) : Root := hash (left.toList ++ right.toList)

/-- The lower-case digits, by their values. -/
def digitTable : List Char :=
  ['0', '1', '2', '3', '4', '5', '6', '7', '8', '9', 'a', 'b', 'c', 'd', 'e', 'f']

/-- Write the digits of a byte behind a text, high half first. -/
def writeByte (s : String) (b : UInt8) : String :=
  (s.push (digitTable.getD (b >>> 4).toNat '0')).push (digitTable.getD (b &&& 15).toNat '0')

/-- The text of a root: the marker, behind which the bytes are written one by one. -/
def text (r : Root) : String := r.toList.foldl writeByte "0x"

/-- Read a root; a text that is refused is named as a whole. -/
def parse (s : String) : Except ChainError Root :=
  match (Hex.decode? 32 s).bind ofList? with
  | some r => .ok r
  | none => .error (.invalidHex s)

/-- Read a root, if the text is one. -/
def parse? (s : String) : Option Root := (parse s).toOption

/-- Compare two byte strings of one length from the left. -/
def compareBytes : List UInt8 → List UInt8 → Ordering
  | [], [] => .eq
  | [], _ :: _ => .lt
  | _ :: _, [] => .gt
  | a :: as, b :: bs => (compare a b).then (compareBytes as bs)

/-- The order of roots. -/
def order (a b : Root) : Ordering := compareBytes a.toList b.toList

/-- Whether one root does not come after another. -/
def le (a b : Root) : Bool := order a b != .gt

end Root

end BeaconReplay
