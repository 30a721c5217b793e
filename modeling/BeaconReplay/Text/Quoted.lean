import BeaconReplay.Text.Printable

/-!
# Debug quoting

A text between double quotes in which the quote, the backslash and every character that does
not show are spelled out.
-/
namespace BeaconReplay.Quoted

/-- The lower-case hexadecimal text of a number, without padding. -/
def hexText (n : Nat) : String := String.ofList (Nat.toDigits 16 n)

/-- One character inside the quotes. -/
def escape (c : Char) : String :=
  match c with
  | '\x00' => "\\0"
  | '\t' => "\\t"
  | '\r' => "\\r"
  | '\n' => "\\n"
  | '"' => "\\\""
  | '\\' => "\\\\"
  | c => if Printable.isShown c then c.toString else "\\u\x7b" ++ hexText c.toNat ++ "\x7d"

/-- The quoted text. -/
def quote (s : String) : String :=
  s.toList.foldl (fun acc c => acc ++ escape c) "\"" ++ "\""

end BeaconReplay.Quoted
