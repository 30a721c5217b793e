import BeaconReplay.Tables
import BeaconReplay.Text.Utf8

/-!
# Bodies as texts

A byte-order mark shows the character set of a body and is no part of the text. Where there is
none, the set is the one that the content type names, and UTF-8 if it names none that is known.
-/
namespace BeaconReplay.Http

/-- The character sets that a byte-order mark shows. -/
inductive Charset where
  | utf8
  | utf16 (bigEndian : Bool)
  deriving DecidableEq, Repr

namespace Charset

/-- The set that a byte-order mark shows, and the bytes behind the mark. -/
def ofMark? : List UInt8 → Option (Charset × List UInt8)
  | 0xEF :: 0xBB :: 0xBF :: rest => some (.utf8, rest)
  | 0xFF :: 0xFE :: rest => some (.utf16 false, rest)
  | 0xFE :: 0xFF :: rest => some (.utf16 true, rest)
  | _ => none

/-- The 16-bit units of bytes; an odd byte at the end makes no unit. -/
def units (bigEndian : Bool) : List UInt8 → List (Option Nat)
  | [] => []
  | [_] => [none]
  | a :: b :: rest =>
    let (high, low) := if bigEndian then (a, b) else (b, a)
    some (high.toNat * 256 + low.toNat) :: units bigEndian rest

/-- The characters of 16-bit units; what is no character becomes the replacement character. -/
def unitChars : List (Option Nat) → List Char
  | [] => []
  | none :: rest => '\ufffd' :: unitChars rest
  | [some u] => [if 0xD800 ≤ u ∧ u < 0xE000 then '\ufffd' else Char.ofNat u]
  | some u :: some v :: rest =>
    if 0xD800 ≤ u ∧ u < 0xDC00 ∧ 0xDC00 ≤ v ∧ v < 0xE000 then
      Char.ofNat ((u - 0xD800) * 0x400 + (v - 0xDC00) + 0x10000) :: unitChars rest
    else if 0xD800 ≤ u ∧ u < 0xE000 then '\ufffd' :: unitChars (some v :: rest)
    else Char.ofNat u :: unitChars (some v :: rest)
  | some u :: none :: rest =>
    (if 0xD800 ≤ u ∧ u < 0xE000 then '\ufffd' else Char.ofNat u) :: unitChars (none :: rest)

/-- The text of bytes. -/
def decode : Charset → List UInt8 → String
  | .utf8, bs => Utf8.decode bs
  | .utf16 bigEndian, bs => String.ofList (unitChars (units bigEndian bs))

end Charset

/-- What decodes a body without a mark, by its content type; nothing stands for UTF-8. -/
def decoder? [Tables] (contentType : Option String) : Option (List UInt8 → String) :=
  (contentType.bind Tables.charset?).bind Tables.decoder?

/-- The text of a body. -/
def bodyText [Tables] (contentType : Option String) (bs : List UInt8) : String :=
  match Charset.ofMark? bs with
  | some (set, rest) => set.decode rest
  | none =>
    match decoder? contentType with
    | some decode => decode bs
    | none => Utf8.decode bs

end BeaconReplay.Http
