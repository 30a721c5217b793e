import BeaconReplay.Text.Utf8

/-!
# Hexadecimal text

Bytes are written as two lower-case digits each, high half first. Reading takes digits of
either case and nothing else: no sign, no blank, no digit outside ASCII. The digits of a text are
counted and read as bytes. A number is read from its digits more freely: it may have a sign in
front.
-/
namespace BeaconReplay.Hex

/-- The lower-case digit of a value below sixteen. -/
def digit (n : UInt8) : Char :=
  if n < 10 then Char.ofNat (48 + n.toNat) else Char.ofNat (87 + n.toNat)

/-- The value of an ASCII hexadecimal digit of either case. -/
def value? (c : Char) : Option UInt8 :=
  if '0' ≤ c ∧ c ≤ '9' then some (c.toNat - 48).toUInt8
  else if 'a' ≤ c ∧ c ≤ 'f' then some (c.toNat - 87).toUInt8
  else if 'A' ≤ c ∧ c ≤ 'F' then some (c.toNat - 55).toUInt8
  else none

/-- The two digits of one byte. -/
def byteDigits (b : UInt8) : List Char := [digit (b >>> 4), digit (b &&& 15)]

/-- The digits of a byte string. -/
def digits (bs : List UInt8) : List Char := bs.flatMap byteDigits

/-- Read pairs of digits; an odd digit or one without a value refuses the whole text. -/
def pairs? {α : Type} (value : α → Option UInt8) : List α → Option (List UInt8)
  | [] => some []
  | [_] => none
  | hi :: lo :: rest => do
    let h ← value hi
    let l ← value lo
    let bs ← pairs? value rest
    pure ((h <<< 4 ||| l) :: bs)

/-- Read pairs of characters. -/
def bytes? (cs : List Char) : Option (List UInt8) := pairs? value? cs

/-- One optional `0x` in front of the digits. -/
def stripMarker : List Char → List Char
  | '0' :: 'x' :: rest => rest
  | cs => cs

/-- Bytes as text with the `0x` marker. -/
def encode (bs : List UInt8) : String := String.ofList ('0' :: 'x' :: digits bs)

/-- The bytes of a text behind its optional marker. -/
def digitBytes (s : String) : List UInt8 := Utf8.encode (String.ofList (stripMarker s.toList))

/-- The value of a byte that is an ASCII digit of either case. -/
def nibble? (b : UInt8) : Option UInt8 :=
  if 48 ≤ b ∧ b ≤ 57 then some (b - 48)
  else if 97 ≤ b ∧ b ≤ 102 then some (b - 97 + 10)
  else if 65 ≤ b ∧ b ≤ 70 then some (b - 65 + 10)
  else none

/-- Exactly `n` bytes from text with an optional marker. -/
def decode? (n : Nat) (s : String) : Option (List UInt8) :=
  if (digitBytes s).length = 2 * n then pairs? nibble? (digitBytes s) else none

/-! ## Numbers -/

/-- Whether a byte is an ASCII digit of either case. -/
def isDigit (b : UInt8) : Bool :=
  48 ≤ b && b ≤ 57 || 65 ≤ b && b ≤ 70 || 97 ≤ b && b ≤ 102

/-- A number continued by further digits, as long as it fits into 32 bits. -/
def continue? : Nat → List UInt8 → Option Nat
  | n, [] => some n
  | n, b :: bs => do
    let d ← nibble? b
    if n * 16 + d.toNat < UInt32.size then continue? (n * 16 + d.toNat) bs else none

/-- The number that bytes spell: a `+` may stand in front of its digits, of which there is one at
least. -/
def word32? : List UInt8 → Option UInt32
  | [] => none
  | [43] => none
  | 43 :: bs => (continue? 0 bs).map UInt32.ofNat
  | bs => (continue? 0 bs).map UInt32.ofNat

/-- The four bytes of a number, the highest one first. -/
def bigEndian (w : UInt32) : List UInt8 :=
  [(w >>> 24).toUInt8, (w >>> 16).toUInt8, (w >>> 8).toUInt8, w.toUInt8]

end BeaconReplay.Hex
