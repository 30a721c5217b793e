import BeaconReplay.Chain.Fork
import BeaconReplay.Codec.Fault

/-!
# What a format offers a decoder

Decoders are written once for all formats. A format presents its values as nodes: scalars of a
few kinds, sequences and records. Faults come up in reading order, so a run of parts carries the
fault that stands behind its last part.
-/
namespace BeaconReplay

/-- The result of decoding. -/
abbrev Decoded := Except Fault

/-- Parts in reading order, and the fault met behind the last one, if the text breaks off. -/
structure Run (α : Type) where
  parts : List α
  ending : Option Fault

/-- How the fields of a record are written. -/
inductive Layout (ν : Type) where
  /-- By name, in any order. -/
  | named (members : Run (String × ν))
  /-- By position; `excess` is the fault of that many parts being too many. -/
  | positional (parts : Run ν) (excess : Nat → Fault)

/-- A format whose values are nodes of type `ν`. -/
structure Source (ν : Type) where
  /-- A 64-bit word. -/
  word : ν → Decoded UInt64
  text : ν → Decoded String
  flag : ν → Decoded Bool
  fork : ν → Decoded Fork
  /-- A 64-bit word, written as a number or as a string of digits. -/
  quotedWord : ν → Decoded UInt64
  sequence : ν → Decoded (Run ν)
  /-- The fields of the record with a name. -/
  record : String → ν → Decoded (Layout ν)
  /-- Pass over a value; a broken text is still noticed. -/
  skip : ν → Decoded Unit
  /-- Give a fault met inside a node the node's place. -/
  locate : ν → Fault → Fault

namespace Source

variable {ν : Type} (src : Source ν)

/-- Decode inside a node: a fault without a place gets the node's. -/
def inside {α : Type} (v : ν) (x : Decoded α) : Decoded α := x.mapError (src.locate v)

/-- Decode every part of a sequence. -/
def list {α : Type} (read : ν → Decoded α) (v : ν) : Decoded (Array α) :=
  src.inside v do
    let run ← src.sequence v
    let xs ← run.parts.mapM read
    match run.ending with
    | some fault => throw fault
    | none => pure xs.toArray

end Source

/-- A field of a record: its name and the reader that its value has to satisfy. -/
structure Field (ν : Type) where
  name : String
  check : ν → Decoded Unit

namespace Field

/-- A field whose value is decoded by `read`. -/
def of {ν α : Type} (name : String) (read : ν → Decoded α) : Field ν :=
  ⟨name, fun v => (read v).map fun _ => ()⟩

/-- The field with a name. -/
def find? {ν : Type} (fields : List (Field ν)) (name : String) : Option (Field ν) :=
  fields.find? (·.name == name)

end Field

/-- The values of a record by field name, and the fault of a field that is absent. -/
structure Entries (ν : Type) where
  values : List (String × ν)
  absent : Nat → String → Fault

namespace Entries

variable {ν α : Type}

/-- The value of the `i`-th field, which has to be there. -/
def required (e : Entries ν) (i : Nat) (name : String) (read : ν → Decoded α) : Decoded α :=
  match e.values.lookup name with
  | some v => read v
  | none => throw (e.absent i name)

/-- The value of a field that may be left out. -/
def optional (e : Entries ν) (name : String) (default : α) (read : ν → Decoded α) : Decoded α :=
  match e.values.lookup name with
  | some v => read v
  | none => pure default

end Entries

namespace Source

variable {ν : Type} (src : Source ν)

/-- Visit the members of a record in reading order: a known field must be new and its value
must decode; an unknown one is passed over. -/
def visitNamed (fields : List (Field ν)) : List String → List (String × ν) → Decoded Unit
  | _, [] => pure ()
  | seen, (name, v) :: rest =>
    match Field.find? fields name with
    | none => do src.skip v; visitNamed fields seen rest
    | some field =>
      if name ∈ seen then throw (.ofCause (.duplicateField name))
      else do field.check v; visitNamed fields (name :: seen) rest

/-- Visit the parts of a record in reading order, one for each field. -/
def visitPositional (total : Nat) (ending : Option Fault) (excess : Nat → Fault) :
    List (Field ν) → List ν → Decoded Unit
  | [], _ :: _ => throw (excess total)
  | field :: fields, v :: vs => do
    field.check v
    visitPositional total ending excess fields vs
  | _, [] =>
    match ending with
    | some fault => throw fault
    | none => pure ()

/-- What a record of `n` fields is called where too few are given. -/
def lengthText (name : String) (n : Nat) : String :=
  "struct " ++ name ++ " with " ++ toString n ++ (if n = 1 then " element" else " elements")

/-- The entries of a record all of whose present fields decode. -/
def entries (name : String) (fields : List (Field ν)) (v : ν) : Decoded (Entries ν) := do
  match ← src.record name v with
  | .named members =>
    src.visitNamed fields [] members.parts
    match members.ending with
    | some fault => throw fault
    | none => pure ⟨members.parts, fun _ field => .ofCause (.missingField field)⟩
  | .positional run excess =>
    visitPositional run.parts.length run.ending excess fields run.parts
    pure ⟨(fields.map (·.name)).zip run.parts,
      fun i _ => .ofCause (.invalidLength i (lengthText name fields.length))⟩

end Source

end BeaconReplay
