import BeaconReplay.Wire.Varint

/-!
# Tagged fields

A message is a run of fields. Each has a key, which holds its tag and its wire type, and the wire
type tells how far the field reaches; so a field with an unknown tag can be passed over. Fields
with the default value are not written.
-/
namespace BeaconReplay.Wire

/-- How a field is laid out. -/
inductive WireType where
  | varint
  | sixtyFourBit
  | lengthDelimited
  | startGroup
  | endGroup
  | thirtyTwoBit
  deriving DecidableEq, Repr

namespace WireType

/-- All wire types, each at its number. -/
def all : List WireType :=
  [varint, sixtyFourBit, lengthDelimited, startGroup, endGroup, thirtyTwoBit]

/-- The number of a wire type. -/
def number : WireType → Nat
  | varint => 0
  | sixtyFourBit => 1
  | lengthDelimited => 2
  | startGroup => 3
  | endGroup => 4
  | thirtyTwoBit => 5

/-- The name of a wire type. -/
def name : WireType → String
  | varint => "Varint"
  | sixtyFourBit => "SixtyFourBit"
  | lengthDelimited => "LengthDelimited"
  | startGroup => "StartGroup"
  | endGroup => "EndGroup"
  | thirtyTwoBit => "ThirtyTwoBit"

end WireType

/-- What is wrong with the bytes of a message. -/
inductive Reason where
  | invalidVarint
  | invalidKey (n : UInt64)
  | invalidWireType (n : Nat)
  | zeroTag
  | wrongWireType (found expected : WireType)
  | underflow
  | lengthExceeded
  | strayGroupEnd
  | recursionLimit
  | notText
  deriving DecidableEq, Repr

namespace Reason

/-- The wording of a reason. -/
def message : Reason → String
  | invalidVarint => "invalid varint"
  | invalidKey n => "invalid key value: " ++ toString n.toNat
  | invalidWireType n => "invalid wire type value: " ++ toString n
  | zeroTag => "invalid tag value: 0"
  | wrongWireType found expected =>
    "invalid wire type: " ++ found.name ++ " (expected " ++ expected.name ++ ")"
  | underflow => "buffer underflow"
  | lengthExceeded => "delimited length exceeded"
  | strayGroupEnd => "unexpected end group tag"
  | recursionLimit => "recursion limit reached"
  | notText => "invalid string value: data is not UTF-8 encoded"

end Reason

/-- Why a message cannot be decoded: a reason, and the fields it was met in, the innermost
first, each with the name of its message. -/
structure WireFault where
  trail : List (String × String)
  reason : Reason
  deriving DecidableEq, Repr

namespace WireFault

/-- The wording of a fault. -/
def message (f : WireFault) : String :=
  "failed to decode Protobuf message: " ++
    String.join (f.trail.map fun (m, field) => m ++ "." ++ field ++ ": ") ++ f.reason.message

/-- A fault met inside a field. -/
def inside (message field : String) (f : WireFault) : WireFault :=
  { f with trail := f.trail ++ [(message, field)] }

end WireFault

/-- A reason outside of all known fields. -/
def fail {α : Type} (reason : Reason) : Except WireFault α := .error ⟨[], reason⟩

/-- Read a varint. -/
def readWord (bs : List UInt8) : Except WireFault (UInt64 × List UInt8) :=
  match readVarint bs with
  | some r => .ok r
  | none => fail .invalidVarint

/-- Read the key of a field: its tag and its wire type. -/
def readKey (bs : List UInt8) : Except WireFault ((Nat × WireType) × List UInt8) := do
  let (key, rest) ← readWord bs
  if Nat.pow 2 32 ≤ key.toNat then fail (.invalidKey key)
  else
    match WireType.all[key.toNat % 8]? with
    | none => fail (.invalidWireType (key.toNat % 8))
    | some t => if key.toNat / 8 = 0 then fail .zeroTag else pure ((key.toNat / 8, t), rest)

/-- Check the wire type of a known field. -/
def expect (expected found : WireType) : Except WireFault Unit :=
  if found = expected then pure () else fail (.wrongWireType found expected)

/-- Pass over `n` bytes. -/
def dropBytes (n : Nat) (bs : List UInt8) : Except WireFault (List UInt8) :=
  if bs.length < n then fail .underflow else pure (bs.drop n)

/-- The deepest nesting of messages and groups. -/
def nestingLimit : Nat := 100

mutual

/-- Pass over a field of an unknown tag, in front of its content. -/
def skipField : Nat → Nat → Nat → WireType → List UInt8 → Except WireFault (List UInt8)
  | 0, _, _, _, _ => fail .recursionLimit
  | _, 0, _, _, _ => fail .recursionLimit
  | fuel + 1, depth + 1, tag, t, bs =>
    match t with
    | .varint => do
      let (_, rest) ← readWord bs
      pure rest
    | .sixtyFourBit => dropBytes 8 bs
    | .lengthDelimited => do
      let (n, rest) ← readWord bs
      dropBytes n.toNat rest
    | .startGroup => skipGroup fuel depth tag bs
    | .endGroup => fail .strayGroupEnd
    | .thirtyTwoBit => dropBytes 4 bs

/-- Pass over the fields of a group up to its end; `depth` levels are left inside. -/
def skipGroup : Nat → Nat → Nat → List UInt8 → Except WireFault (List UInt8)
  | 0, _, _, _ => fail .recursionLimit
  | fuel + 1, depth, tag, bs => do
    let ((inner, t), rest) ← readKey bs
    if t = .endGroup then
      if inner = tag then pure rest else fail .strayGroupEnd
    else
      let rest ← skipField fuel depth inner t rest
      skipGroup fuel depth tag rest

end

/-- Pass over a field of an unknown tag. Every field takes a byte, so the number of bytes bounds
the number of steps. -/
def skip (depth tag : Nat) (t : WireType) (bs : List UInt8) : Except WireFault (List UInt8) :=
  skipField (2 * bs.length + 2) depth tag t bs

/-- A known field: its name, its wire type, and how its content changes the message. -/
structure Slot (μ : Type) where
  name : String
  type : WireType
  read : Nat → List UInt8 → μ → Except WireFault (μ × List UInt8)

/-- The known fields of a message by their tags. -/
structure Schema (μ : Type) where
  name : String
  slots : List (Nat × Slot μ)

namespace Schema

variable {μ : Type}

/-- Read one field into a message; `depth` levels of nesting are left. -/
def readField (s : Schema μ) (depth : Nat) (bs : List UInt8) (m : μ) :
    Except WireFault (μ × List UInt8) := do
  let ((tag, t), rest) ← readKey bs
  match s.slots.lookup tag with
  | some slot =>
    (do
      expect slot.type t
      slot.read depth rest m).mapError (WireFault.inside s.name slot.name)
  | none => do
    let rest ← skip depth tag t rest
    pure (m, rest)

/-- Read fields until at most `limit` bytes are left. -/
def readFields (s : Schema μ) (depth limit : Nat) :
    Nat → List UInt8 → μ → Except WireFault (μ × List UInt8)
  | 0, bs, m => pure (m, bs)
  | fuel + 1, bs, m =>
    if bs.length ≤ limit then pure (m, bs)
    else do
      let (m, rest) ← s.readField depth bs m
      readFields s depth limit fuel rest m

/-- Decode a message whose fields have their defaults in `m`. -/
def decode (s : Schema μ) (m : μ) (bs : List UInt8) : Except WireFault μ :=
  (s.readFields nestingLimit 0 bs.length bs m).map Prod.fst

/-- Read a nested message behind its length. -/
def readNested (s : Schema μ) (depth : Nat) (m : μ) (bs : List UInt8) :
    Except WireFault (μ × List UInt8) :=
  match depth with
  | 0 => fail .recursionLimit
  | depth + 1 => do
    let (n, rest) ← readWord bs
    if rest.length < n.toNat then fail .underflow
    else
      let limit := rest.length - n.toNat
      let (m, rest) ← s.readFields depth limit rest.length rest m
      if rest.length = limit then pure (m, rest) else fail .lengthExceeded

end Schema

/-- Read a byte string behind its length. -/
def readBytes (bs : List UInt8) : Except WireFault (List UInt8 × List UInt8) := do
  let (n, rest) ← readWord bs
  if rest.length < n.toNat then fail .underflow
  else pure (rest.take n.toNat, rest.drop n.toNat)

/-- Read a text behind its length. -/
def readText (bs : List UInt8) : Except WireFault (String × List UInt8) := do
  let (content, rest) ← readBytes bs
  match String.fromUTF8? ⟨content.toArray⟩ with
  | some s => pure (s, rest)
  | none => fail .notText

namespace Slot

variable {μ : Type}

/-- A word. -/
def word (name : String) (set : UInt64 → μ → μ) : Slot μ :=
  ⟨name, .varint, fun _ bs m => do
    let (n, rest) ← readWord bs
    pure (set n m, rest)⟩

/-- A flag, which any other number than zero sets. -/
def flag (name : String) (set : Bool → μ → μ) : Slot μ :=
  ⟨name, .varint, fun _ bs m => do
    let (n, rest) ← readWord bs
    pure (set (n != 0) m, rest)⟩

/-- A byte string. -/
def bytes (name : String) (set : List UInt8 → μ → μ) : Slot μ :=
  ⟨name, .lengthDelimited, fun _ bs m => do
    let (b, rest) ← readBytes bs
    pure (set b m, rest)⟩

/-- A text. -/
def text (name : String) (set : String → μ → μ) : Slot μ :=
  ⟨name, .lengthDelimited, fun _ bs m => do
    let (s, rest) ← readText bs
    pure (set s m, rest)⟩

/-- A nested message, whose fields have their defaults in `zero`. -/
def message {κ : Type} (name : String) (inner : Schema κ) (zero : κ) (add : κ → μ → μ) : Slot μ :=
  ⟨name, .lengthDelimited, fun depth bs m => do
    let (k, rest) ← inner.readNested depth zero bs
    pure (add k m, rest)⟩

end Slot

/-- The key of a field. -/
def keyBytes (tag : Nat) (t : WireType) : List UInt8 := varint (tag * 8 + t.number).toUInt64

/-- The field of a word. -/
def wordField (tag : Nat) (n : UInt64) : List UInt8 :=
  if n = 0 then [] else keyBytes tag .varint ++ varint n

/-- The field of a flag. -/
def flagField (tag : Nat) (b : Bool) : List UInt8 := wordField tag (if b then 1 else 0)

/-- A length and as many bytes. -/
def delimited (bs : List UInt8) : List UInt8 := varint bs.length.toUInt64 ++ bs

/-- The field of a byte string. -/
def bytesField (tag : Nat) (bs : List UInt8) : List UInt8 :=
  if bs.isEmpty then [] else keyBytes tag .lengthDelimited ++ delimited bs

/-- The field of a text. -/
def textField (tag : Nat) (s : String) : List UInt8 := bytesField tag s.toUTF8.toList

/-- The field of a nested message. -/
def messageField (tag : Nat) (bs : List UInt8) : List UInt8 :=
  keyBytes tag .lengthDelimited ++ delimited bs

end BeaconReplay.Wire
