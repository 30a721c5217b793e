/-!
# Decimal numerals

Numbers are written in plain decimal digits. Reading a word accepts one leading plus sign and
any number of leading zeros, and tells the empty text, a wrong digit and an overflow apart.
-/
namespace BeaconReplay.Decimal

/-- Why a text is not a 64-bit word. -/
inductive Fault where
  | empty
  | invalidDigit
  | overflow
  deriving DecidableEq, Repr

namespace Fault

/-- The wording of a fault. -/
def message : Fault → String
  | empty => "cannot parse integer from empty string"
  | invalidDigit => "invalid digit found in string"
  | overflow => "number too large to fit in target type"

end Fault

/-- One more than the largest 64-bit word. -/
def wordLimit : Nat := UInt64.size

/-- The value of an ASCII decimal digit. -/
def digit? (c : Char) : Option Nat :=
  if '0' ≤ c ∧ c ≤ '9' then some (c.toNat - 48) else none

/-- Accumulate digits from the left; the first fault met decides. -/
def accumulate : Nat → List Char → Except Fault Nat
  | n, [] => .ok n
  | n, c :: cs =>
    match digit? c with
    | none => .error .invalidDigit
    | some d => if n * 10 + d < wordLimit then accumulate (n * 10 + d) cs else .error .overflow

/-- Read a 64-bit word. A lone sign is a wrong digit. -/
def word (s : String) : Except Fault UInt64 :=
  match s.toList with
  | [] => .error .empty
  | ['+'] => .error .invalidDigit
  | '+' :: cs => (accumulate 0 cs).map Nat.toUInt64
  | cs => (accumulate 0 cs).map Nat.toUInt64

/-- The decimal text of a word. -/
def text (n : UInt64) : String := toString n.toNat

end BeaconReplay.Decimal
