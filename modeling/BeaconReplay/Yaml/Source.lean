import BeaconReplay.Codec.Source
import BeaconReplay.Yaml.Node
import BeaconReplay.Yaml.Plain

/-!
# YAML as a source of data

A node is a part of a document together with its place, at which faults are reported. Aliases
are followed. A record is a mapping; an empty plain scalar counts as an empty collection, and any
scalar, whatever it looks like, as a string. A fork may also be written as a tag.
-/
namespace BeaconReplay.Yaml

/-- A part of a YAML document. -/
structure Part where
  document : Document
  node : Node
  place : Place

namespace Part

/-- The document as a whole. -/
def ofDocument (d : Document) : Part := ⟨d, d.root, []⟩

/-- The node that an alias refers to; other nodes are themselves. -/
def resolved (v : Part) : Node :=
  match v.node with
  | .alias id => (v.document.anchored.lookup id).getD .missing
  | n => n

/-- A part one step down. -/
def below (v : Part) (step : PlaceStep) (n : Node) : Part :=
  { v with node := n, place := step :: v.place }

/-- A fault of this part. -/
def fault (v : Part) (cause : Cause) : Fault := .data (some v.place) cause

/-- The full name of a tag of the core schema. -/
def coreTag (name : String) : String := "tag:yaml.org,2002:" ++ name

/-- The tag of a node that starts with an exclamation mark, without the mark. -/
def localTag? : Option String → Option String
  | none => none
  | some tag =>
    match tag.toList with
    | '!' :: rest => some (String.ofList rest)
    | _ => none

/-- What a scalar stands for; a core tag that does not fit its text is a cause of its own. -/
def scalarFound (text : String) (style : Style) (tag : Option String) : Except Cause Found :=
  let misfit (expected : String) : Except Cause Found :=
    .error (.invalidValue (.string text) expected)
  match tag with
  | none => pure (if style = .plain then Plain.found text else .string text)
  | some t =>
    if t = coreTag "bool" then
      match Plain.boolean? text with
      | some b => pure (.boolean b)
      | none => misfit "a boolean"
    else if t = coreTag "int" then
      match Plain.integer? text.toList with
      | some i => pure i
      | none => misfit "an integer"
    else if t = coreTag "float" then
      match Plain.real? text with
      | some x => pure (.real x)
      | none => misfit "a float"
    else if t = coreTag "null" then
      if Plain.isNull text then pure .unit else misfit "null"
    else if (localTag? tag).isSome && style = .plain then pure (Plain.found text)
    else pure (.string text)

/-- The fault of a node of another type than expected. -/
def mismatch (v : Part) (expected : String) : Fault :=
  match v.resolved with
  | .scalar text style tag _ =>
    match scalarFound text style tag with
    | .ok found => v.fault (.invalidType found expected)
    | .error cause => v.fault cause
  | .sequence .. => v.fault (.invalidType .sequence expected)
  | .mapping .. => v.fault (.invalidType .map expected)
  | _ => .malformed

/-- Whether a scalar may be read as the core type with a tag: a plain one, or a literal one with
that tag. -/
def mayBe (name : String) (style : Style) (tag : Option String) : Bool :=
  style = .plain || (style = .literal && tag = some (coreTag name))

/-- A word. -/
def word (v : Part) : Decoded UInt64 :=
  match v.resolved with
  | .scalar text style tag _ =>
    match (if mayBe "int" style tag then Plain.word? text else none) with
    | some n => pure n
    | none => throw (v.mismatch "u64")
  | _ => throw (v.mismatch "u64")

/-- A string. -/
def text (v : Part) : Decoded String :=
  match v.resolved with
  | .scalar text _ _ _ => pure text
  | _ => throw (v.mismatch "a string")

/-- A boolean. -/
def flag (v : Part) : Decoded Bool :=
  match v.resolved with
  | .scalar text style tag _ =>
    match (if mayBe "bool" style tag then Plain.boolean? text else none) with
    | some b => pure b
    | none => throw (v.mismatch "a boolean")
  | _ => throw (v.mismatch "a boolean")

/-- The fork with a label. -/
def labelled (s : String) : Except Cause Fork :=
  match Fork.ofLabel? s with
  | some fork => pure fork
  | none => throw (.unknownVariant s (Fork.all.map Fork.label))

/-- The fork that a tag names. -/
def tagged (label : String) : Decoded Fork := (labelled label).mapError .ofCause

/-- A fork: a label, or a tag in front of a null. -/
def fork (v : Part) : Decoded Fork :=
  match v.resolved with
  | .scalar text style tag _ =>
    match localTag? tag with
    | none => (labelled text).mapError v.fault
    | some label => do
      let fork ← tagged label
      if style = .plain && (text = "" || Plain.isNull text) then pure fork
      else throw (v.fault (.invalidValue (.string text) "null"))
  | .sequence _ _ tag _ =>
    match localTag? tag with
    | none => throw (v.fault (.invalidType .sequence "a YAML tag starting with '!'"))
    | some label => do
      let _ ← tagged label
      throw (v.mismatch "unit")
  | .mapping _ _ tag _ =>
    match localTag? tag with
    | none => throw (v.fault (.invalidType .map "a YAML tag starting with '!'"))
    | some label => do
      let _ ← tagged label
      throw (v.mismatch "unit")
  | _ => throw .malformed

/-- The name and the place of a member whose name is this node. -/
def memberName (v : Part) (k : Node) : Decoded (String × PlaceStep) :=
  match k with
  | .scalar text _ _ _ => pure (text, .key text)
  | k => do
    let key : Part := { v with node := k }
    match key.resolved with
    | .scalar text _ _ _ => pure (text, .unnamed)
    | _ => throw (key.mismatch "field identifier")

/-- The fault behind the last part of a collection that is not closed. -/
def ending (closed : Bool) : Option Fault := if closed then none else some .malformed

/-- The items of a sequence, from the index `i` on. -/
def items (v : Part) : Nat → List Node → List Part
  | _, [] => []
  | i, n :: ns => v.below (.index i) n :: items v (i + 1) ns

/-- The members up to the first one whose name is no text. -/
def members (v : Part) : List (Node × Node) → Bool → Run (String × Part)
  | [], closed => ⟨[], ending closed⟩
  | (k, n) :: rest, closed =>
    match v.memberName k with
    | .error fault => ⟨[], some fault⟩
    | .ok (name, step) =>
      let run := members v rest closed
      ⟨(name, v.below step n) :: run.parts, run.ending⟩

/-- The items of a sequence. -/
def sequence (v : Part) : Decoded (Run Part) :=
  match v.resolved with
  | .sequence ns closed _ _ => pure ⟨v.items 0 ns, ending closed⟩
  | .nothing => pure ⟨[], none⟩
  | .scalar text style _ _ =>
    if text = "" && style = .plain then pure ⟨[], none⟩ else throw (v.mismatch "a sequence")
  | _ => throw (v.mismatch "a sequence")

/-- The fields of a record. -/
def record (name : String) (v : Part) : Decoded (Layout Part) :=
  match v.resolved with
  | .mapping ms closed _ _ => pure (.named (v.members ms closed))
  | .nothing => pure (.named ⟨[], none⟩)
  | .scalar text style _ _ =>
    if text = "" && style = .plain then pure (.named ⟨[], none⟩)
    else throw (v.mismatch ("struct " ++ name))
  | _ => throw (v.mismatch ("struct " ++ name))

/-- The deepest nesting that a value of no fixed type may have. -/
def depthLimit : Nat := 127

/-- Take in a value of no fixed type: no part of it may have a local tag or be an integer of
more than 64 bits, and its nesting is limited. -/
def takeAny : Nat → Part → Decoded Unit
  | depth, v =>
    let untagged (tag : Option String) : Decoded Unit :=
      if (localTag? tag).isSome then throw (v.fault .taggedVariant) else pure ()
    match depth, v.resolved with
    | _, .scalar text style tag _ => do
      untagged tag
      match scalarFound text style tag with
      | .ok (.wideInteger i) => throw (v.fault (.invalidType (.wideInteger i) "any value"))
      | .ok _ => pure ()
      | .error cause => throw (v.fault cause)
    | depth + 1, .sequence ns closed tag _ => do
      untagged tag
      (v.items 0 ns).forM (takeAny depth)
      if closed then pure () else throw .malformed
    | depth + 1, .mapping ms closed tag _ => do
      untagged tag
      ms.forM fun (k, n) => do
        takeAny depth { v with node := k }
        let step := match k with
          | .scalar text _ _ _ => PlaceStep.key text
          | _ => .unnamed
        takeAny depth (v.below step n)
      if closed then pure () else throw .malformed
    | _, .nothing => pure ()
    | _, _ => throw .malformed

/-- A word, given as a number or as a string of digits. -/
def quotedWord (v : Part) : Decoded UInt64 := do
  takeAny depthLimit v
  match v.resolved with
  | .scalar text style tag _ =>
    match scalarFound text style tag with
    | .ok (.string s) => (Decimal.word s).mapError fun fault => .ofCause (.invalidInteger fault)
    | .ok (.integer i) =>
      if 0 ≤ i then pure i.toNat.toUInt64 else throw (.ofCause .noVariant)
    | _ => throw (.ofCause .noVariant)
  | _ => throw (.ofCause .noVariant)

/-- Pass over a value without following aliases. -/
def skip (v : Part) : Decoded Unit := if v.node.intact then pure () else throw .malformed

end Part

/-- YAML as a source. -/
def source : Source Part where
  word := Part.word
  text := Part.text
  flag := Part.flag
  fork := Part.fork
  quotedWord := Part.quotedWord
  sequence := Part.sequence
  record := Part.record
  skip := Part.skip
  locate := fun v fault => fault.located v.place

/-- Decode a text, which has to hold one document; what follows the value is looked at last. -/
def decode {α : Type} (read : Part → Decoded α) (s : String) : Decoded α := do
  let d := Document.ofString s
  let a ← read (.ofDocument d)
  if d.root.intact && d.complete then pure a else throw .malformed

end BeaconReplay.Yaml
