import BeaconReplay.Tables
import BeaconReplay.Url.Percent

/-!
# Hosts

A host of a special scheme is a domain, or an address if its last label is a number or if it
stands in square brackets. A domain is written in small ASCII letters. Hosts of other schemes are
kept as they are.
-/
namespace BeaconReplay

/-- Why a text is no URL. -/
inductive UrlFault where
  | relative
  | emptyHost
  | invalidPort
  | invalidIpv4
  | invalidIpv6
  | invalidDomain
  | invalidHostCharacter
  deriving DecidableEq, Repr

namespace UrlFault

/-- The wording of a fault. -/
def message : UrlFault → String
  | relative => "relative URL without a base"
  | emptyHost => "empty host"
  | invalidPort => "invalid port number"
  | invalidIpv4 => "invalid IPv4 address"
  | invalidIpv6 => "invalid IPv6 address"
  | invalidDomain => "invalid international domain name"
  | invalidHostCharacter => "invalid domain character"

end UrlFault

/-- A host. -/
inductive Host where
  | domain (name : String)
  | ipv4 (address : Nat)
  | ipv6 (pieces : List Nat)
  /-- The host of a scheme that gives it no meaning. -/
  | other (text : String)
  deriving DecidableEq, Repr

namespace Host

/-- The parts of a text between separators; `acc` is the part at hand in reverse. -/
def splitAtFrom (sep : Char) (acc : List Char) : List Char → List (List Char)
  | [] => [acc.reverse]
  | c :: cs =>
    if c = sep then acc.reverse :: splitAtFrom sep [] cs else splitAtFrom sep (c :: acc) cs

/-- The parts of a text between separators. -/
def splitAt (sep : Char) (cs : List Char) : List (List Char) := splitAtFrom sep [] cs

/-- The value of digits in a base; nothing if a character is no digit. -/
def digits? (base : Nat) (cs : List Char) : Option Nat :=
  cs.foldlM (fun n c =>
    match Hex.value? c with
    | some d => if d.toNat < base then some (n * base + d.toNat) else none
    | none => none) 0

/-- The number that a label spells: hexadecimal behind `0x`, octal behind a zero. -/
def number? : List Char → Option Nat
  | [] => none
  | '0' :: 'x' :: ds => digits? 16 ds
  | '0' :: 'X' :: ds => digits? 16 ds
  | '0' :: d :: ds => digits? 8 (d :: ds)
  | ds => digits? 10 ds

/-- Labels without an empty last one. -/
def dropEmptyLast : List (List Char) → List (List Char)
  | [] => []
  | [[]] => []
  | l :: ls => l :: dropEmptyLast ls

/-- Whether the last label of a domain is a number. -/
def endsInNumber (cs : List Char) : Bool :=
  match (dropEmptyLast (splitAt '.' cs)).getLast? with
  | some label =>
    (!label.isEmpty && label.all fun c => '0' ≤ c && c ≤ '9') || (number? label).isSome
  | none => false

/-- The address of up to four numbers: all but the last are bytes, and the last fills the rest. -/
def ipv4OfNumbers : List Nat → Nat → Option Nat
  | [], _ => none
  | [n], room => if n < Nat.pow 256 room then some n else none
  | n :: ns, room =>
    if 255 < n then none else (ipv4OfNumbers ns (room - 1)).map (n * Nat.pow 256 (room - 1) + ·)

/-- The address that a domain ending in a number spells. -/
def ipv4? (cs : List Char) : Option Nat :=
  let labels := dropEmptyLast (splitAt '.' cs)
  if 4 < labels.length then none
  else (labels.mapM number?).bind fun ns => ipv4OfNumbers ns 4

/-- A byte in decimal without a leading zero. -/
def decimalByte? : List Char → Option Nat
  | [] => none
  | ['0'] => some 0
  | '0' :: _ => none
  | ds => (digits? 10 ds).filter (· < 256)

/-- The two pieces of a dotted address. -/
def dotted? (cs : List Char) : Option (List Nat) :=
  match (splitAt '.' cs).mapM decimalByte? with
  | some [a, b, c, d] => some [a * 256 + b, c * 256 + d]
  | _ => none

/-- A piece of one to four digits. -/
def piece? (cs : List Char) : Option Nat :=
  if cs.isEmpty || 4 < cs.length then none else digits? 16 cs

/-- The pieces between colons; the last group may be a dotted address. -/
def pieces? : List (List Char) → Option (List Nat)
  | [] => some []
  | [group] => if group.contains '.' then dotted? group else (piece? group).map ([·])
  | group :: groups => do
    let p ← piece? group
    let ps ← pieces? groups
    pure (p :: ps)

/-- The groups of one side of a double colon. -/
def side? (cs : List Char) : Option (List Nat) :=
  if cs.isEmpty then some [] else pieces? (splitAt ':' cs)

/-- The text in front of the first double colon, and what follows it. -/
def doubleColon? : List Char → Option (List Char × List Char)
  | ':' :: ':' :: rest => some ([], rest)
  | c :: cs => (doubleColon? cs).map fun (before, after) => (c :: before, after)
  | [] => none

/-- The eight pieces of an address between brackets. -/
def ipv6? (cs : List Char) : Option (List Nat) :=
  match doubleColon? cs with
  | none => (side? cs).filter (·.length = 8)
  | some (before, after) =>
    if before.contains '.' then none
    else
      match side? before, side? after with
      | some left, some right =>
        let given := left.length + right.length
        if 7 < given then none else some (left ++ List.replicate (8 - given) 0 ++ right)
      | _, _ => none

/-- Whether a character may not stand in a domain. -/
def isForbidden (c : Char) : Bool :=
  c.toNat ≤ 0x20 || c.toNat = 0x7F
    || ['#', '%', '/', ':', '<', '>', '?', '@', '[', '\\', ']', '^', '|'].contains c

/-- Whether a character may not stand in the host of a scheme that gives it no meaning. -/
def isForbiddenOther (c : Char) : Bool :=
  c.toNat = 0 || [' ', '#', '/', '<', '>', '?', '@', '[', '\\', ']', '^', '|'].contains c

/-- A text in brackets, without them. -/
def unbracketed? : List Char → Option (List Char)
  | '[' :: rest =>
    match rest.reverse with
    | ']' :: inner => some inner.reverse
    | _ => none
  | _ => none

/-- The address in brackets. -/
def ofBrackets (cs : List Char) : Except UrlFault Host :=
  match (unbracketed? cs).bind ipv6? with
  | some pieces => pure (.ipv6 pieces)
  | none => throw .invalidIpv6

/-- Whether a label is the ASCII form of other letters. -/
def isEncoded (label : List Char) : Bool :=
  (label.take 4).map Char.toLower == ['x', 'n', '-', '-']

/-- A name in small ASCII letters. -/
def ascii? [Tables] (name : List Char) : Option (List Char) :=
  if name.all (fun c => c.toNat < 0x80) && !(splitAt '.' name).any isEncoded then
    some (name.map Char.toLower)
  else (Tables.domainToAscii (String.ofList name)).map String.toList

/-- The host that a name in ASCII letters stands for. -/
def ofAscii (name : List Char) : Except UrlFault Host :=
  if name.any isForbidden then throw .invalidDomain
  else if name.isEmpty then throw .emptyHost
  else if endsInNumber name then
    match ipv4? name with
    | some address => pure (.ipv4 address)
    | none => throw .invalidIpv4
  else pure (.domain (String.ofList name))

/-- The host of a special scheme. -/
def ofSpecial [Tables] (cs : List Char) : Except UrlFault Host :=
  if cs.head? = some '[' then ofBrackets cs
  else
    match Utf8.decode? (Percent.decode cs) with
    | none => throw .invalidDomain
    | some name =>
      if name.toList.any isForbidden then throw .invalidDomain
      else
        match ascii? name.toList with
        | none => throw .invalidDomain
        | some name => ofAscii name

/-- The host of any other scheme. -/
def ofOther (cs : List Char) : Except UrlFault Host :=
  if cs.head? = some '[' then ofBrackets cs
  else if cs.any isForbiddenOther then throw .invalidHostCharacter
  else pure (.other (String.ofList (Percent.encode Percent.isControl cs)))

end Host

end BeaconReplay
