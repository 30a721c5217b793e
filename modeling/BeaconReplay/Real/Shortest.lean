import BeaconReplay.Real.Binary64

/-!
# The fewest digits that read back

A double stands for the interval of reals that round to it. Its shortest decimal is the one of
fewest digits in that interval, and of those the one nearest to the double. The two layouts
below differ in when they turn to an exponent.
-/
namespace BeaconReplay

/-- The number `digits * 10 ^ scale`. -/
structure ScaledDecimal where
  digits : Nat
  scale : Int
  deriving DecidableEq, Repr

/-- Where an exact tie between two decimals goes. -/
inductive Tie where
  | toEven
  | upward
  deriving DecidableEq

namespace Binary64

/-- Compare `a * 10 ^ i` with `m * 2 ^ j` exactly. -/
def compareScaled (a : Nat) (i : Int) (m : Nat) (j : Int) : Ordering :=
  compare (a * Nat.pow 10 i.toNat * Nat.pow 2 (-j).toNat)
    (m * Nat.pow 2 j.toNat * Nat.pow 10 (-i).toNat)

/-- Whether the gap below a number is half the gap above it. -/
def narrowBelow (x : Binary64) : Bool :=
  x.significand == Nat.pow 2 52 && x.exponent != leastExponent

/-- Whether a decimal lies among the reals that round to the magnitude of `x`. -/
def readsBack (x : Binary64) (d : ScaledDecimal) : Bool :=
  let lo := if x.narrowBelow then 4 * x.significand - 1 else 4 * x.significand - 2
  let hi := 4 * x.significand + 2
  let closed := x.significand % 2 == 0
  let below := compareScaled d.digits d.scale lo (x.exponent - 2)
  let above := compareScaled d.digits d.scale hi (x.exponent - 2)
  (below == .gt || (closed && below == .eq)) && (above == .lt || (closed && above == .eq))

/-- The least `k`, not far above the estimate, with `m * 2 ^ q < 10 ^ k`. -/
def decade (x : Binary64) : Int :=
  let estimate := ((x.significand.log2 : Int) + x.exponent) * 30103 / 100000 - 1
  let fits (k : Int) : Bool := compareScaled 1 k x.significand x.exponent == .gt
  if fits estimate then estimate
  else if fits (estimate + 1) then estimate + 1
  else if fits (estimate + 2) then estimate + 2
  else estimate + 3

/-- The nearer of the two neighbours of `x` on the grid `10 ^ scale` that read back. -/
def onGrid (tie : Tie) (x : Binary64) (scale : Int) : Option ScaledDecimal :=
  let n := x.significand * Nat.pow 2 x.exponent.toNat * Nat.pow 10 (-scale).toNat
  let d := Nat.pow 2 (-x.exponent).toNat * Nat.pow 10 scale.toNat
  let low := n / d
  let lowHit := x.readsBack ⟨low, scale⟩
  let highHit := x.readsBack ⟨low + 1, scale⟩
  if lowHit && highHit then
    let twice := 2 * (n - low * d)
    if twice < d then some ⟨low, scale⟩
    else if d < twice then some ⟨low + 1, scale⟩
    else match tie with
      | .upward => some ⟨low + 1, scale⟩
      | .toEven => some ⟨low + low % 2, scale⟩
  else if lowHit then some ⟨low, scale⟩
  else if highHit then some ⟨low + 1, scale⟩
  else none

/-- Try one digit, then two, and so on. -/
def search (tie : Tie) (x : Binary64) (k : Int) : Nat → Int → ScaledDecimal
  | 0, _ =>
    ⟨x.significand * Nat.pow 2 x.exponent.toNat * Nat.pow 5 (-x.exponent).toNat, min x.exponent 0⟩
  | fuel + 1, n =>
    match onGrid tie x (k - n) with
    | some d => d
    | none => search tie x k fuel (n + 1)

/-- Move trailing zeros of the digits into the scale. -/
def stripZeros : Nat → ScaledDecimal → ScaledDecimal
  | 0, d => d
  | fuel + 1, d =>
    if d.digits ≠ 0 ∧ d.digits % 10 = 0 then stripZeros fuel ⟨d.digits / 10, d.scale + 1⟩ else d

/-- The shortest decimal of a number other than zero. -/
def shortest (tie : Tie) (x : Binary64) : ScaledDecimal :=
  stripZeros 20 (search tie x x.decade 17 1)

/-- The digits of a natural number. -/
def digitChars (n : Nat) : List Char := Nat.toDigits 10 n

/-- Digits with the point at `scale`, always with a digit on both sides of the point. -/
def positional (d : ScaledDecimal) : List Char :=
  let ds := digitChars d.digits
  if 0 ≤ d.scale then ds ++ List.replicate d.scale.toNat '0' ++ ['.', '0']
  else
    let places := (-d.scale).toNat
    if places < ds.length then
      ds.take (ds.length - places) ++ '.' :: ds.drop (ds.length - places)
    else '0' :: '.' :: List.replicate (places - ds.length) '0' ++ ds

/-- One digit before the point, the others behind it, and a signed exponent. -/
def scientific (d : ScaledDecimal) : List Char :=
  let ds := digitChars d.digits
  let e : Int := d.scale + ds.length - 1
  let mantissa := match ds with
    | [] => []
    | [c] => [c]
    | c :: cs => c :: '.' :: cs
  let mark := if e < 0 then ['e', '-'] else ['e', '+']
  mantissa ++ mark ++ digitChars e.natAbs

/-- The sign in front of a number's magnitude. -/
def signed (x : Binary64) (cs : List Char) : String :=
  String.ofList (if x.negative then '-' :: cs else cs)

/-- The text of a number in JSON: positional from `1e-5` up to sixteen digits before the
point, with an exponent outside, ties going to the even digit. -/
def jsonText (x : Binary64) : String :=
  if x.isZero then x.signed ['0', '.', '0']
  else
    let d := x.shortest .toEven
    let top := d.scale + (digitChars d.digits).length
    x.signed (if -5 < top ∧ top ≤ 16 then positional d else scientific d)

/-- The text of a number without any exponent, ties going upward. -/
def plainText (x : Binary64) : String :=
  if x.isZero then x.signed ['0', '.', '0'] else x.signed (positional (x.shortest .upward))

end Binary64

end BeaconReplay
