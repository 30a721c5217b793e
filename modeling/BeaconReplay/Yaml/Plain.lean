import BeaconReplay.Codec.Fault
import BeaconReplay.Real.Shortest

/-!
# What scalars stand for

A plain scalar stands for null, a boolean, an integer or a float if it is spelled like one, and
for its text otherwise. Integers are decimal, or in base 16, 8 or 2 behind a marker; a decimal
that starts with a zero is a text.
-/
namespace BeaconReplay.Yaml.Plain

/-- The value of a digit. -/
def digit? (base : Nat) (c : Char) : Option Nat :=
  let d :=
    if '0' ≤ c ∧ c ≤ '9' then some (c.toNat - 48)
    else if 'a' ≤ c ∧ c ≤ 'f' then some (c.toNat - 87)
    else if 'A' ≤ c ∧ c ≤ 'F' then some (c.toNat - 55)
    else none
  d.filter (· < base)

/-- The value of at least one digit. -/
def digits? (base : Nat) : List Char → Option Nat
  | [] => none
  | cs => cs.foldlM (fun n c => (digit? base c).map (n * base + ·)) 0

/-- The base that a marker in front of an integer names. -/
def base? : Char → Option Nat
  | 'x' => some 16
  | 'o' => some 8
  | 'b' => some 2
  | _ => none

/-- The magnitude of an integer without a sign. -/
def magnitude? : List Char → Option Nat
  | '0' :: m :: rest =>
    match base? m with
    | some base => digits? base rest
    | none => digits? 10 ('0' :: m :: rest)
  | cs => digits? 10 cs

/-- Whether a text is a decimal with a leading zero, with or without a sign. -/
def isZeroPadded (cs : List Char) : Bool :=
  let cs := match cs with
    | '-' :: rest => rest
    | '+' :: rest => rest
    | cs => cs
  match cs with
  | '0' :: rest => !rest.isEmpty && rest.all fun c => (digit? 10 c).isSome
  | _ => false

/-- An integer that is written without a minus sign. -/
def natural? (cs : List Char) : Option Nat :=
  if isZeroPadded cs then none
  else
    match cs with
    | '+' :: rest => magnitude? rest
    | cs => magnitude? cs

/-- An integer behind a minus sign. -/
def negative? (cs : List Char) : Option Int :=
  if isZeroPadded cs then none
  else
    match cs with
    | '-' :: rest => (magnitude? rest).map fun n => -(n : Int)
    | _ => none

/-- The integer that a scalar stands for, unless it has more than 128 bits. -/
def integer? (cs : List Char) : Option Found :=
  match natural? cs with
  | some n =>
    if n < UInt64.size then some (.integer n)
    else if n < Nat.pow 2 128 then some (.wideInteger n)
    else none
  | none =>
    match negative? cs with
    | some i =>
      if i.natAbs ≤ Nat.pow 2 63 then some (.integer i)
      else if i.natAbs ≤ Nat.pow 2 127 then some (.wideInteger i)
      else none
    | none => none

/-- The word that a scalar stands for. -/
def word? (s : String) : Option UInt64 :=
  match natural? s.toList with
  | some n => if n < UInt64.size then some n.toUInt64 else none
  | none => none

/-- The decimal digits in front of a text, and what follows them. -/
def splitDigits (cs : List Char) : List Char × List Char := cs.span fun c => '0' ≤ c && c ≤ '9'

/-- The power of ten behind an exponent mark; zero if the text ends in front of it. -/
def exponent? : List Char → Option Int
  | [] => some 0
  | c :: rest =>
    if c == 'e' || c == 'E' then
      match rest with
      | '-' :: ds => (digits? 10 ds).map fun n => -(n : Int)
      | '+' :: ds => (digits? 10 ds).map Int.ofNat
      | ds => (digits? 10 ds).map Int.ofNat
    else none

/-- A decimal fraction without a sign: the number nearest to it. -/
def decimal? (negative : Bool) (cs : List Char) : Option Binary64 :=
  let (whole, rest) := splitDigits cs
  let (part, rest) := match rest with
    | '.' :: rest => splitDigits rest
    | rest => ([], rest)
  match digits? 10 (whole ++ part), exponent? rest with
  | some n, some e => Binary64.ofDecimal negative n (e - part.length)
  | _, _ => none

/-- The text of the number that a scalar stands for. -/
def real? (s : String) : Option String :=
  if [".inf", ".Inf", ".INF", "+.inf", "+.Inf", "+.INF"].contains s then some "inf"
  else if ["-.inf", "-.Inf", "-.INF"].contains s then some "-inf"
  else if [".nan", ".NaN", ".NAN"].contains s then some "NaN"
  else
    match s.toList with
    | '-' :: cs => (decimal? true cs).map Binary64.plainText
    | '+' :: cs => (decimal? false cs).map Binary64.plainText
    | cs => (decimal? false cs).map Binary64.plainText

/-- The boolean that a scalar stands for. -/
def boolean? (s : String) : Option Bool :=
  if ["true", "True", "TRUE"].contains s then some true
  else if ["false", "False", "FALSE"].contains s then some false
  else none

/-- Whether a scalar is spelled like null. -/
def isNull (s : String) : Bool := ["null", "Null", "NULL", "~"].contains s

/-- What a plain scalar stands for. -/
def found (s : String) : Found :=
  if s = "" || isNull s then .unit
  else
    match boolean? s with
    | some b => .boolean b
    | none =>
      match integer? s.toList with
      | some i => i
      | none =>
        if isZeroPadded s.toList then .string s
        else
          match real? s with
          | some x => .real x
          | none => .string s

end BeaconReplay.Yaml.Plain
