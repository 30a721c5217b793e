/-!
# Bytes as characters

A text is read from bytes as UTF-8. Where the bytes are wrong, the longest run that could have
started a character counts as one mistake.
-/
namespace BeaconReplay.Utf8

/-- The bytes of a character. -/
def encodeChar (c : Char) : List UInt8 := (String.singleton c).toUTF8.toList

/-- The bytes of a text. -/
def encode (s : String) : List UInt8 := s.toUTF8.toList

/-- How many bytes follow the first one of a character, its bits, and the least and greatest
second byte. -/
def lead? (b : Nat) : Option (Nat × Nat × Nat × Nat) :=
  if b < 0x80 then some (0, b, 0x80, 0xBF)
  else if b < 0xC2 then none
  else if b < 0xE0 then some (1, b - 0xC0, 0x80, 0xBF)
  else if b = 0xE0 then some (2, 0, 0xA0, 0xBF)
  else if b = 0xED then some (2, 0xD, 0x80, 0x9F)
  else if b < 0xF0 then some (2, b - 0xE0, 0x80, 0xBF)
  else if b = 0xF0 then some (3, 0, 0x90, 0xBF)
  else if b < 0xF4 then some (3, b - 0xF0, 0x80, 0xBF)
  else if b = 0xF4 then some (3, 4, 0x80, 0x8F)
  else none

/-- The rest of a character of which `n` bytes are still to come and which has the value `v` so
far: the character, unless the bytes break off, and the bytes behind it. -/
def continue? : Nat → Nat → Nat → Nat → List UInt8 → Option Char × List UInt8
  | 0, v, _, _, bs => (some (Char.ofNat v), bs)
  | _ + 1, _, _, _, [] => (none, [])
  | n + 1, v, low, high, b :: bs =>
    if low ≤ b.toNat && b.toNat ≤ high then
      continue? n (v * 64 + (b.toNat - 0x80)) 0x80 0xBF bs
    else (none, b :: bs)

/-- The first character of bytes, or nothing for a mistake, and the bytes behind it. -/
def next (b : UInt8) (bs : List UInt8) : Option Char × List UInt8 :=
  match lead? b.toNat with
  | none => (none, bs)
  | some (n, v, low, high) => continue? n v low high bs

/-- The characters of bytes, each mistake being one `none`. -/
def charsFrom : Nat → List UInt8 → List (Option Char)
  | 0, _ => []
  | _, [] => []
  | fuel + 1, b :: bs =>
    let (c, rest) := next b bs
    c :: charsFrom fuel rest

/-- The characters of bytes, each mistake being one `none`. -/
def chars (bs : List UInt8) : List (Option Char) := charsFrom bs.length bs

/-- The text of bytes, each mistake being one replacement character. -/
def decode (bs : List UInt8) : String :=
  String.ofList ((chars bs).map fun c => c.getD '\ufffd')

/-- The text of bytes that are free of mistakes. -/
def decode? (bs : List UInt8) : Option String := ((chars bs).mapM id).map String.ofList

end BeaconReplay.Utf8
