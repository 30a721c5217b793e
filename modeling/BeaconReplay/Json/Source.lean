import BeaconReplay.Codec.Source
import BeaconReplay.Json.Document

/-!
# JSON as a source of data

A node is a document together with the levels of nesting that are left below it and whether it
was read from a text. A record may be an object or an array of its fields. Where the data come
as a value and not as a text, two misfits have a wording of their own.
-/
namespace BeaconReplay.Json

/-- A part of a JSON document. -/
structure Node where
  document : Document
  depth : Nat
  fromText : Bool

namespace Node

/-- The document of a text. -/
def ofText (d : Document) : Node := ⟨d, nestingLimit, true⟩

/-- The document of a value. -/
def ofValue (v : Json) : Node := ⟨.ofValue v, nestingLimit, false⟩

/-- A part one level down. -/
def below (v : Node) (d : Document) : Node := { v with document := d, depth := v.depth - 1 }

/-- What a document is called where it does not fit. -/
def found? : Document → Option Found
  | .null => some .null
  | .boolean b => some (.boolean b)
  | .number (some (.integer i)) => some (.integer i)
  | .number (some (.real x)) => some (.real x.jsonText)
  | .number none => none
  | .string s => s.map .string
  | .array _ _ => some .sequence
  | .object _ _ => some .map
  | .broken => none

/-- The fault of a document of another type than expected. -/
def mismatch (d : Document) (expected : String) : Fault :=
  match found? d with
  | some f => .ofCause (.invalidType f expected)
  | none => .malformed

/-- A word: an integer that is not negative. -/
def word (v : Node) : Decoded UInt64 :=
  match v.document with
  | .number (some (.integer i)) =>
    if 0 ≤ i then pure i.toNat.toUInt64
    else throw (.ofCause (.invalidValue (.integer i) "u64"))
  | d => throw (mismatch d "u64")

/-- A string. -/
def text (v : Node) : Decoded String :=
  match v.document with
  | .string (some s) => pure s
  | d => throw (mismatch d "a string")

/-- A boolean. -/
def flag (v : Node) : Decoded Bool :=
  match v.document with
  | .boolean b => pure b
  | d => throw (mismatch d "a boolean")

/-- The fork with a label. -/
def labelled (s : String) : Decoded Fork :=
  match Fork.ofLabel? s with
  | some fork => pure fork
  | none => throw (.ofCause (.unknownVariant s (Fork.all.map Fork.label)))

/-- A null. -/
def unit (d : Document) : Decoded Unit :=
  match d with
  | .null => pure ()
  | d => throw (mismatch d "unit")

/-- A fork in a text: its label, or an object with the label as its one name. -/
def forkOfText : Document → Decoded Fork
  | .string (some s) => labelled s
  | .object ((some k, d) :: rest) ending => do
    let fork ← labelled k
    unit d
    match rest, ending with
    | [], .closed => pure fork
    | _, _ => throw .malformed
  | .object [] (.strayName d) => throw (mismatch d "variant identifier")
  | _ => throw .malformed

/-- A fork in a value. -/
def forkOfValue : Document → Decoded Fork
  | .string (some s) => labelled s
  | .object [(some k, d)] _ => do
    let fork ← labelled k
    unit d
    pure fork
  | .object _ _ => throw (.ofCause (.invalidValue .map "map with a single key"))
  | d => throw (mismatch d "string or map")

/-- A fork. -/
def fork (v : Node) : Decoded Fork :=
  if v.fromText then forkOfText v.document else forkOfValue v.document

/-- A word given as a number or as a string of digits. -/
def quotedWord (v : Node) : Decoded UInt64 :=
  match v.document with
  | .string (some s) => (Decimal.word s).mapError fun fault => .ofCause (.invalidInteger fault)
  | .number (some (.integer i)) =>
    if 0 ≤ i then pure i.toNat.toUInt64 else throw (.ofCause .noVariant)
  | d =>
    if !v.fromText || (d.value? v.depth).isSome then throw (.ofCause .noVariant)
    else throw .malformed

/-- The fault behind the last part of a collection that is not closed. -/
def ending (closed : Bool) : Option Fault := if closed then none else some .malformed

/-- The items of an array. -/
def sequence (v : Node) : Decoded (Run Node) :=
  match v.document with
  | .array items closed => pure ⟨items.map v.below, ending closed⟩
  | d => throw (mismatch d "a sequence")

/-- The members up to the first name that has no value. -/
def named (v : Node) : List (Option String × Document) → Bool → Run (String × Node)
  | [], closed => ⟨[], ending closed⟩
  | (none, _) :: _, _ => ⟨[], some .malformed⟩
  | (some k, d) :: rest, closed =>
    let run := named v rest closed
    ⟨(k, v.below d) :: run.parts, run.ending⟩

/-- The fault of more items than a record has fields. -/
def excess (v : Node) (n : Nat) : Fault :=
  if v.fromText then .malformed
  else .ofCause (.invalidLength n "fewer elements in array")

/-- The fields of a record. -/
def record (name : String) (v : Node) : Decoded (Layout Node) :=
  match v.document with
  | .object members ending =>
    pure (.named (v.named members (ending matches .closed)))
  | .array items closed => pure (.positional ⟨items.map v.below, ending closed⟩ v.excess)
  | d => throw (mismatch d ("struct " ++ name))

/-- Pass over a value. -/
def skip (v : Node) : Decoded Unit :=
  if v.document.intact then pure () else throw .malformed

end Node

/-- JSON as a source. -/
def source : Source Node where
  word := Node.word
  text := Node.text
  flag := Node.flag
  fork := Node.fork
  quotedWord := Node.quotedWord
  sequence := Node.sequence
  record := Node.record
  skip := Node.skip
  locate := fun _ fault => fault

/-- Decode a text; what follows the value is looked at last. -/
def decodeReading {α : Type} (read : Node → Decoded α) (reading : Document.Reading) :
    Decoded α := do
  let a ← read (.ofText reading.root)
  if reading.complete then pure a else throw .malformed

/-- Decode a text. -/
def decode {α : Type} (read : Node → Decoded α) (s : String) : Decoded α :=
  decodeReading read (Document.ofString s)

/-- Decode a value. -/
def decodeValue {α : Type} (read : Node → Decoded α) (v : Json) : Decoded α := read (.ofValue v)

end BeaconReplay.Json
