import BeaconReplay.Text.Hex
import BeaconReplay.Text.Utf8

/-!
# Percent encoding

A character that may not stand in a part of a URL is written as the bytes of its UTF-8 form, each
as a percent sign and two digits.
-/
namespace BeaconReplay.Percent

/-- An upper-case digit. -/
def digit (n : UInt8) : Char := (Hex.digit n).toUpper

/-- The escape of a byte. -/
def escape (b : UInt8) : List Char := ['%', digit (b >>> 4), digit (b &&& 15)]

/-- Whether a character is a control character or lies outside of ASCII. -/
def isControl (c : Char) : Bool := c.toNat < 0x20 || 0x7E < c.toNat

/-- Whether a character is escaped in a path. -/
def inPath (c : Char) : Bool :=
  isControl c || [' ', '"', '#', '<', '>', '?', '^', '`', '{', '}'].contains c

/-- Whether a character is escaped in a query of a special scheme. -/
def inQuery (c : Char) : Bool := isControl c || [' ', '"', '#', '<', '>', '\''].contains c

/-- A text with the characters of a class escaped. -/
def encode (escaped : Char → Bool) (cs : List Char) : List Char :=
  cs.flatMap fun c => if escaped c then (Utf8.encodeChar c).flatMap escape else [c]

/-- The bytes of a text with its escapes undone. -/
def decode : List Char → List UInt8
  | [] => []
  | '%' :: a :: b :: rest =>
    match Hex.value? a, Hex.value? b with
    | some x, some y => (x * 16 + y) :: decode rest
    | _, _ => 37 :: decode (a :: b :: rest)
  | c :: rest => Utf8.encodeChar c ++ decode rest

end BeaconReplay.Percent
