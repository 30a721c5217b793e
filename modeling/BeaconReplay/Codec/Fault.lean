import BeaconReplay.Text.Decimal
import BeaconReplay.Text.Quoted

/-!
# Why a text does not decode

A text either breaks the rules of its format, or it is well formed and its data are wrong. A
fault in the data names its cause, and in YAML also the place where it was met.
-/
namespace BeaconReplay

/-- One step from a collection to a part of it. -/
inductive PlaceStep where
  | key (name : String)
  | index (i : Nat)
  /-- A member whose name is no plain scalar. -/
  | unnamed
  deriving DecidableEq, Repr

/-- The way from the top of a document to a value, the last step first. -/
abbrev Place := List PlaceStep

namespace Place

/-- The text of a place; the top is a lone point. -/
def text : Place → String
  | [] => "."
  | .key name :: [] => name
  | .key name :: parent => text parent ++ "." ++ name
  | .index i :: parent => text parent ++ "[" ++ toString i ++ "]"
  | .unnamed :: [] => "?"
  | .unnamed :: parent => text parent ++ ".?"

end Place

/-- What stands where something else was expected. -/
inductive Found where
  | integer (i : Int)
  /-- An integer beyond the 64-bit ranges. -/
  | wideInteger (i : Int)
  | real (text : String)
  | boolean (b : Bool)
  | string (s : String)
  | null
  | unit
  | sequence
  | map
  deriving DecidableEq, Repr

namespace Found

/-- The wording of what was found. -/
def text : Found → String
  | integer i => "integer `" ++ toString i ++ "`"
  | wideInteger i =>
    "integer `" ++ toString i ++ "` as " ++ (if i < 0 then "i128" else "u128")
  | real s => "floating point `" ++ s ++ "`"
  | boolean b => "boolean `" ++ toString b ++ "`"
  | string s => "string " ++ Quoted.quote s
  | null => "null"
  | unit => "unit value"
  | sequence => "sequence"
  | map => "map"

end Found

/-- What is wrong with the data of a well-formed text. -/
inductive Cause where
  | missingField (name : String)
  | duplicateField (name : String)
  | unknownVariant (name : String) (known : List String)
  | invalidType (found : Found) (expected : String)
  | invalidValue (found : Found) (expected : String)
  | invalidLength (n : Nat) (expected : String)
  | invalidHex (text : String)
  | invalidForkVersion (text : String)
  | invalidInteger (fault : Decimal.Fault)
  /-- A quoted integer that is neither a string nor a word. -/
  | noVariant
  /-- A tagged value in place of a quoted integer. -/
  | taggedVariant
  deriving DecidableEq, Repr

namespace Cause

/-- Names between backquotes, separated by commas. -/
def alternatives (names : List String) : String :=
  ", ".intercalate (names.map fun n => "`" ++ n ++ "`")

/-- The wording of a cause. -/
def message : Cause → String
  | missingField name => "missing field `" ++ name ++ "`"
  | duplicateField name => "duplicate field `" ++ name ++ "`"
  | unknownVariant name known =>
    "unknown variant `" ++ name ++ "`, expected one of " ++ alternatives known
  | invalidType found expected => "invalid type: " ++ found.text ++ ", expected " ++ expected
  | invalidValue found expected => "invalid value: " ++ found.text ++ ", expected " ++ expected
  | invalidLength n expected => "invalid length " ++ toString n ++ ", expected " ++ expected
  | invalidHex text => "invalid hex: " ++ text
  | invalidForkVersion text => "invalid fork version: " ++ text
  | invalidInteger fault => fault.message
  | noVariant => "data did not match any variant of untagged enum Quoted"
  | taggedVariant => "untagged and internally tagged enums do not support enum input"

end Cause

/-- Why a text does not decode. -/
inductive Fault where
  /-- The text breaks the rules of its format. -/
  | malformed
  /-- The data are wrong, at a place if one is known. -/
  | data (place : Option Place) (cause : Cause)
  deriving DecidableEq, Repr

namespace Fault

/-- A cause whose place is not known yet. -/
def ofCause (cause : Cause) : Fault := .data none cause

/-- Give a fault a place, unless it has one. -/
def located (place : Place) : Fault → Fault
  | .data none cause => .data (some place) cause
  | fault => fault

/-- The wording of a fault in the data, behind its place; `malformed` stands for a broken text. -/
def message (broken : String) : Fault → String
  | .malformed => broken
  | .data none cause => cause.message
  | .data (some []) cause => cause.message
  | .data (some place) cause => place.text ++ ": " ++ cause.message

end Fault

end BeaconReplay
