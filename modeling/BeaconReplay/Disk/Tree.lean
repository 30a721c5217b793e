import BeaconReplay.Disk.Path

/-!
# Trees of files

A tree hangs below one directory of a file system about which nothing else is known: a path that
leaves the tree is not found. Links are followed, at most forty in one look-up; a link whose target
is an absolute path leads back to the top of the tree, if that path lies below the directory.
-/
namespace BeaconReplay

/-- What a directory holds under a name. -/
inductive Entry where
  /-- A file with its text; nothing if its bytes are not UTF-8. -/
  | file (text : Option String)
  /-- A link with its target, seen from the directory of the link. -/
  | link (target : String)
  | directory (entries : List (String × Entry))

instance : Inhabited Entry := ⟨.directory []⟩

/-- Why a path cannot be read. -/
inductive ReadFault where
  | notFound
  | notDirectory
  | isDirectory
  | tooManyLinks
  | notText
  deriving DecidableEq, Repr

namespace ReadFault

/-- The wording of a read fault. -/
def message : ReadFault → String
  | notFound => "No such file or directory (os error 2)"
  | notDirectory => "Not a directory (os error 20)"
  | isDirectory => "Is a directory (os error 21)"
  | tooManyLinks => "Too many levels of symbolic links (os error 40)"
  | notText => "stream did not contain valid UTF-8"

end ReadFault

namespace Entry

/-- Entries with the one of a name replaced. -/
def put (name : String) (e : Entry) : List (String × Entry) → List (String × Entry)
  | [] => [(name, e)]
  | (n, d) :: rest => if n = name then (n, e) :: rest else (n, d) :: put name e rest

/-- Add an entry below a list of names; the directories on the way are made, and an empty
directory leaves one that is there as it is. -/
def insert (e : Entry) : List String → List (String × Entry) → List (String × Entry)
  | [], entries => entries
  | [name], entries =>
    match e, entries.lookup name with
    | .directory [], some (.directory _) => entries
    | e, _ => put name e entries
  | name :: rest, entries =>
    let inner := match entries.lookup name with
      | some (.directory inner) => inner
      | _ => []
    put name (.directory (insert e rest inner)) entries

end Entry

/-- A directory with the ones around it, the innermost first. -/
abbrev Directories := List (List (String × Entry))

namespace Directories

/-- Go along the parts of a path; `onLink` goes on from a directory to the target of a link in it
and along the parts behind the link. -/
def follow (onLink : Directories → String → List String → Except ReadFault Entry) :
    Directories → List String → Except ReadFault Entry
  | [], _ => throw .notFound
  | here :: _, [] => pure (.directory here)
  | here :: around, name :: rest =>
    if name = "" || name = "." then follow onLink (here :: around) rest
    else if name = ".." then follow onLink around rest
    else
      match here.lookup name with
      | none => throw .notFound
      | some (.directory inner) => follow onLink (inner :: here :: around) rest
      | some (.file text) => if rest.isEmpty then pure (.file text) else throw .notDirectory
      | some (.link target) => onLink (here :: around) target rest

end Directories

/-- A tree below the directory with the path `mount`. -/
structure Disk where
  mount : String
  entries : List (String × Entry)

namespace Disk

/-- The number of links that a look-up follows. -/
def linkLimit : Nat := 40

/-- Where the target of a link is seen from, and the parts that lead to it from there. -/
def aim (d : Disk) (ds : Directories) (target : String) :
    Except ReadFault (Directories × List String) :=
  if Path.isAbsolute target then
    match Path.below? d.mount target with
    | some parts => pure ([d.entries], parts)
    | none => throw .notFound
  else pure (ds, Path.split target)

/-- Go along the parts of a path, over at most `links` links. -/
def walk (d : Disk) : Nat → Directories → List String → Except ReadFault Entry
  | 0 => Directories.follow fun _ _ _ => throw .tooManyLinks
  | links + 1 => Directories.follow fun ds target rest =>
    match d.aim ds target with
    | .ok (start, parts) => d.walk links start (parts ++ rest)
    | .error fault => throw fault

/-- The file or directory at a path, behind all links. -/
def find (d : Disk) (path : String) : Except ReadFault Entry :=
  match Path.below? d.mount path with
  | some parts => d.walk linkLimit [d.entries] parts
  | none => throw .notFound

/-- Whether something is at a path. -/
def holds (d : Disk) (path : String) : Bool := (d.find path).isOk

/-- Whether a directory is at a path. -/
def isDirectory (d : Disk) (path : String) : Bool :=
  match d.find path with
  | .ok (.directory _) => true
  | _ => false

/-- The names in the directory at a path; nothing if there is no directory. -/
def names? (d : Disk) (path : String) : Option (List String) :=
  match d.find path with
  | .ok (.directory entries) => some (entries.map Prod.fst)
  | _ => none

/-- The text of the file at a path. -/
def read (d : Disk) (path : String) : Except ReadFault String := do
  match ← d.find path with
  | .file (some text) => pure text
  | .file none => throw .notText
  | _ => throw .isDirectory

/-- Add an entry at a path below the mount. -/
def insert (d : Disk) (path : String) (e : Entry) : Disk :=
  { d with entries := Entry.insert e (Path.names path) d.entries }

end Disk

end BeaconReplay
