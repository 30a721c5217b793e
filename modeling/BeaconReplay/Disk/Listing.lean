import BeaconReplay.Disk.Tree
import BeaconReplay.Json.Document

/-!
# Trees as listings

A listing of a tree is a JSON object from paths to the texts of files.
-/
namespace BeaconReplay.Disk

/-- Add the files of a listing. -/
def addFiles (d : Disk) : List (String × Json) → Option Disk
  | [] => some d
  | (path, .string text) :: rest => addFiles (d.insert path (.file (some text))) rest
  | _ :: _ => none

/-- The tree that a listing describes, below a directory. -/
def ofListing? (mount : String) (text : String) : Option Disk :=
  match Json.ofText? text with
  | some (.object members) => addFiles ⟨mount, []⟩ members
  | _ => none

end BeaconReplay.Disk
