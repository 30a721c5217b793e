import BeaconReplay.Json.Value

/-!
# Numerals of JSON

A numeral is split into its digits; its value is an integer if it has neither a point nor an
exponent and fits one of the 64-bit ranges. Every other numeral becomes a double in two
roundings: the leading digits that fit a word, then the power of ten.
-/
namespace BeaconReplay

/-- The parts of a numeral. -/
structure Numeral where
  negative : Bool
  whole : List Char
  fraction : Option (List Char)
  /-- The sign and digits behind the exponent mark. -/
  exponent : Option (Bool × List Char)
  deriving DecidableEq, Repr

namespace Numeral

/-- Whether a character is a decimal digit. -/
def isDigit (c : Char) : Bool := '0' ≤ c && c ≤ '9'

/-- The digits in front of a text and what follows them. -/
def splitDigits (cs : List Char) : List Char × List Char := cs.span isDigit

/-- A point with at least one digit behind it, if there is a point. -/
def fraction? (cs : List Char) : Option (Option (List Char) × List Char) :=
  match cs with
  | '.' :: rest =>
    match splitDigits rest with
    | ([], _) => none
    | (ds, rest) => some (some ds, rest)
  | cs => some (none, cs)

/-- An exponent with at least one digit, if there is an exponent mark. -/
def exponent? (cs : List Char) : Option (Option (Bool × List Char) × List Char) :=
  let digitsAfter (negative : Bool) (rest : List Char) :=
    match splitDigits rest with
    | ([], _) => none
    | (ds, rest) => some (some (negative, ds), rest)
  let signed (rest : List Char) :=
    match rest with
    | '+' :: rest => digitsAfter false rest
    | '-' :: rest => digitsAfter true rest
    | rest => digitsAfter false rest
  match cs with
  | 'e' :: rest => signed rest
  | 'E' :: rest => signed rest
  | cs => some (none, cs)

/-- A numeral without its sign: no leading zero before another digit. -/
def unsigned? (negative : Bool) (cs : List Char) : Option (Numeral × List Char) :=
  match splitDigits cs with
  | ([], _) => none
  | ('0' :: _ :: _, _) => none
  | (ds, rest) => do
    let (frac, rest) ← fraction? rest
    let (exp, rest) ← exponent? rest
    pure (⟨negative, ds, frac, exp⟩, rest)

/-- The numeral in front of a text and what follows it. -/
def read? : List Char → Option (Numeral × List Char)
  | '-' :: cs => unsigned? true cs
  | cs => unsigned? false cs

/-- The value of a digit string. -/
def digitsValue (ds : List Char) : Nat := ds.foldl (fun n c => n * 10 + (c.toNat - 48)) 0

/-- Take digits while the number they extend stays below `2 ^ 64`: the number and the digits
left over. -/
def leading : Nat → List Char → Nat × List Char
  | n, [] => (n, [])
  | n, c :: cs =>
    let m := n * 10 + (c.toNat - 48)
    if m < UInt64.size then leading m cs else (n, c :: cs)

/-- The double nearest to `10 ^ k`, for `k` up to 308. -/
def powerOfTen (k : Nat) : Option Binary64 := Binary64.ofDecimal false 1 k

/-- Multiply by `10 ^ k`; an overflow has no value. -/
def raise (x : Binary64) (k : Nat) : Option Binary64 :=
  if 308 < k then if x.isZero then some x else none
  else do x.mul (← powerOfTen k)

/-- Divide by `10 ^ k`, by at most `10 ^ 308` at a time. -/
def lower (x : Binary64) : Nat → Nat → Option Binary64
  | 0, _ => some x
  | fuel + 1, k =>
    if 308 < k then
      if x.isZero then some x
      else do lower (← x.div (← powerOfTen 308)) fuel (k - 308)
    else do x.div (← powerOfTen k)

/-- The double `± digits * 10 ^ scale` in two roundings. -/
def double (negative : Bool) (digits : Nat) (scale : Int) : Option Binary64 := do
  let x ← Binary64.ofRatio negative digits 1
  if 0 ≤ scale then raise x scale.toNat else lower x 5 (-scale).toNat

/-- The exponent that a numeral asks for. An exponent beyond 31 bits is cut to a size that
settles the value by itself. -/
def exponentValue : Option (Bool × List Char) → Int
  | none => 0
  | some (negative, ds) =>
    let n := min (digitsValue ds) (Nat.pow 2 31)
    if negative then -(n : Int) else n

/-- The double that a numeral stands for. -/
def real? (n : Numeral) : Option Binary64 :=
  let (whole, beyond) := leading 0 n.whole
  let (digits, scale) : Nat × Int := match n.fraction with
    | none => (whole, beyond.length)
    | some ds =>
      let (all, rest) := leading whole ds
      (all, (beyond.length : Int) - ((ds.length : Int) - rest.length))
  double n.negative digits (scale + exponentValue n.exponent)

/-- The number that a numeral stands for; nothing if it lies beyond the range of doubles. -/
def value? (n : Numeral) : Option JsonNumber :=
  let magnitude := digitsValue n.whole
  if n.fraction.isNone && n.exponent.isNone && !n.negative && magnitude < UInt64.size then
    some (.integer magnitude)
  else if n.fraction.isNone && n.exponent.isNone && n.negative && 0 < magnitude
      && magnitude ≤ Nat.pow 2 63 then
    some (.integer (-(magnitude : Int)))
  else n.real?.map .real

end Numeral

end BeaconReplay
