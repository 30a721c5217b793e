import BeaconReplay.Disk.Listing
import BeaconReplay.Replay.CommandLine

/-!
# The program

The fixtures below the root that the arguments name are read from standard input as a listing;
without such a root the fixtures that come with the program are replayed. The log goes to
standard output.
-/
namespace BeaconReplay.Program

/-- All lines of a stream behind `acc`. -/
partial def readAll (input : IO.FS.Stream) (acc : String) : IO String := do
  let line ← input.getLine
  if line.isEmpty then pure acc else readAll input (acc ++ line)

/-- The tree at the root that the options name. -/
def fixtures (o : Options) : IO (Option Disk) := do
  match o.vectors with
  | none => pure (some ⟨"", []⟩)
  | some root =>
    let text ← readAll (← IO.getStdin) ""
    pure (Disk.ofListing? root text)

/-- Run the program. -/
def run (args : List String) : IO UInt32 := do
  match Request.parse args (← IO.getEnv vectorsVariable) with
  | .help =>
    IO.print usageText
    pure 0
  | .version =>
    IO.print versionText
    pure 0
  | .misuse =>
    IO.eprint usageText
    pure 2
  | .run o =>
    match ← fixtures o with
    | none =>
      IO.eprintln "standard input holds no listing of fixtures"
      pure 2
    | some disk =>
      let conclusion := Conclusion.ofOptions .tasks disk 4 o
      for e in conclusion.log do
        IO.println (e.level.name ++ " " ++ e.message)
      pure conclusion.status.toUInt32

end BeaconReplay.Program

/-- The command line. -/
def main (args : List String) : IO UInt32 := BeaconReplay.Program.run args
