import BeaconReplay.Json.Encode

/-!
# Differences between two JSON values

Both values are walked together. Objects and arrays are compared part by part; every other pair
that is not equal is one difference, and so is a part that only one side has.
-/
namespace BeaconReplay

/-- A difference at a path; an absent side has no value. -/
structure Difference where
  path : String
  expected : Option Json
  actual : Option Json

namespace Diff

/-- The path of a member. -/
def member (path name : String) : String := if path = "" then name else path ++ "." ++ name

/-- The path of an item. -/
def item (path : String) (i : Nat) : String := path ++ "[" ++ toString i ++ "]"

/-- Items from the `i`-th on that only the expected side has. -/
def onlyExpectedItems (path : String) : Nat → List Json → List Difference
  | _, [] => []
  | i, v :: vs => ⟨item path i, some v, none⟩ :: onlyExpectedItems path (i + 1) vs

/-- Items from the `i`-th on that only the actual side has. -/
def onlyActualItems (path : String) : Nat → List Json → List Difference
  | _, [] => []
  | i, v :: vs => ⟨item path i, none, some v⟩ :: onlyActualItems path (i + 1) vs

/-- A member that only the actual side has. -/
def onlyActual (path : String) (m : String × Json) : Difference :=
  ⟨member path m.1, none, some m.2⟩

mutual

/-- The differences of two values below a path. -/
def walk (path : String) : Json → Json → List Difference
  | .object es, .object as => walkMembers path es as
  | .array es, .array as => walkItems path 0 es as
  | e, a => if e.same a then [] else [⟨path, some e, some a⟩]

/-- The differences of two lists of items, from the `i`-th on. -/
def walkItems (path : String) : Nat → List Json → List Json → List Difference
  | i, [], as => onlyActualItems path i as
  | i, es, [] => onlyExpectedItems path i es
  | i, e :: es, a :: as => walk (item path i) e a ++ walkItems path (i + 1) es as

/-- The differences of two lists of members, both in ascending order of their names. -/
def walkMembers (path : String) : List (String × Json) → List (String × Json) → List Difference
  | [], as => as.map (onlyActual path)
  | (k, e) :: es, as =>
    let before := as.takeWhile fun m => m.1 < k
    before.map (onlyActual path) ++
      match as.dropWhile fun m => m.1 < k with
      | (l, a) :: rest =>
        if l = k then walk (member path k) e a ++ walkMembers path es rest
        else ⟨member path k, some e, none⟩ :: walkMembers path es ((l, a) :: rest)
      | [] => ⟨member path k, some e, none⟩ :: walkMembers path es []

end

/-- The most differences that a text shows. -/
def rendered : Nat := 32

/-- One side of a difference. -/
def side : Option Json → String
  | some v => v.text
  | none => "<missing>"

/-- One line of the text. -/
def line (d : Difference) : String :=
  "  " ++ (if d.path = "" then "<root>" else d.path) ++ ": expected " ++ side d.expected
    ++ ", got " ++ side d.actual ++ "\n"

/-- The text of a list of differences: the first ones in full, then how many more there are. -/
def text (ds : List Difference) : String :=
  String.join ((ds.take rendered).map line) ++
    (if rendered < ds.length then
      "  ... and " ++ toString (ds.length - rendered) ++ " more\n"
    else "")

end Diff

/-- The differences between an expected and an actual value. -/
def diff (expected actual : Json) : List Difference := Diff.walk "" expected actual

namespace BeaconState

/-- The differences between an expected and an actual state. -/
def diff (expected actual : BeaconState) : List Difference :=
  BeaconReplay.diff expected.json actual.json

end BeaconState

end BeaconReplay
