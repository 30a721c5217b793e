/-!
# Paths

A path is a text of names between slashes. Joining is textual: nothing is looked up, and no part
is dropped, except that an absolute path replaces what stands in front of it.
-/
namespace BeaconReplay.Path

/-- Whether a path starts at the top of the file system. -/
def isAbsolute (p : String) : Bool := p.toList.head? == some '/'

/-- A path followed by another one. -/
def join (p q : String) : String :=
  if isAbsolute q then q
  else if p = "" || p.toList.getLast? == some '/' then p ++ q
  else p ++ "/" ++ q

/-- The parts of a text between slashes; `acc` is the part at hand in reverse. -/
def splitFrom (acc : List Char) : List Char → List String
  | [] => [String.ofList acc.reverse]
  | c :: cs =>
    if c = '/' then String.ofList acc.reverse :: splitFrom [] cs else splitFrom (c :: acc) cs

/-- The parts of a path between slashes, empty ones included. -/
def split (p : String) : List String := splitFrom [] p.toList

/-- The parts of a path that are not empty. -/
def names (p : String) : List String := (split p).filter (· != "")

/-- What follows a leading part of a path, if it has that part. -/
def below? (top p : String) : Option (List String) :=
  let rec rest? : List Char → List Char → Option (List Char)
    | [], cs => some cs
    | t :: ts, c :: cs => if t = c then rest? ts cs else none
    | _ :: _, [] => none
  match rest? top.toList p.toList with
  | some [] => some []
  | some ('/' :: cs) => some (splitFrom [] cs)
  | _ => none

end BeaconReplay.Path
