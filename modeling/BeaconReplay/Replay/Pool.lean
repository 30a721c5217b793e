/-!
# Pools of threads

A pool applies a function to all elements of a list at the same time and collects the results. Its
threads have to be started first, which may fail.
-/
namespace BeaconReplay

/-- A library of pools. -/
structure Pool where
  /-- Start a number of threads. -/
  start : Nat → Except String Unit
  /-- Apply a function to all elements by a number of threads. -/
  collect {α β : Type} (threads : Nat) (f : α → β) (xs : List α) : List β

namespace Pool

/-- A list cut into pieces of `n` elements, the last piece being shorter. -/
def piecesFrom {α : Type} (n : Nat) : Nat → List α → List (List α)
  | 0, _ => []
  | _, [] => []
  | fuel + 1, x :: xs => (x :: xs).take n :: piecesFrom n fuel ((x :: xs).drop n)

/-- Go through pieces one after the other and through the elements of a piece at the same time. -/
def mapPieces {α β : Type} (f : α → β) (pieces : List (List α)) : List β :=
  pieces.flatMap fun piece => (piece.map fun x => Task.spawn fun _ => f x).map Task.get

/-- Tasks, as many at a time as there are threads. -/
def tasks : Pool where
  start _ := .ok ()
  collect n f xs := mapPieces f (piecesFrom (max n 1) xs.length xs)

end Pool

end BeaconReplay
