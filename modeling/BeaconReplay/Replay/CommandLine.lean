import BeaconReplay.Replay.Selection
import BeaconReplay.Replay.Vendored

/-!
# The command line

Arguments are read from left to right, and the first one that is wrong or that asks for help or
the version settles the matter. A flag or an option that takes one value may stand only once;
`--fork` and `--rule` may be repeated. A value never starts with a dash, unless it is a lone dash
or is attached with an equals sign.
-/
namespace BeaconReplay

/-- What the arguments ask to run. -/
structure Options where
  verbose : Bool
  vectors : Option String
  config : Option String
  forks : List Fork
  rules : List Operation
  concurrency : Option Nat

/-- What the arguments ask for. -/
inductive Request where
  | help
  | version
  /-- The arguments make no sense. -/
  | misuse
  | run (options : Options)

namespace Options

/-- The options where no argument is given. -/
def none : Options := ⟨false, .none, .none, [], [], .none⟩

/-- Set the verbose flag, once. -/
def setVerbose (o : Options) : Except Request Options :=
  if o.verbose then throw .misuse else pure { o with verbose := true }

/-- Set the root of the fixtures, once. -/
def setVectors (o : Options) (v : String) : Except Request Options :=
  if o.vectors.isSome || v = "" then throw .misuse else pure { o with vectors := some v }

/-- Set the profile, once. -/
def setConfig (o : Options) (v : String) : Except Request Options :=
  if o.config.isSome || !Spec.names.contains v then throw .misuse
  else pure { o with config := some v }

/-- Add a fork. -/
def addFork (o : Options) (v : String) : Except Request Options :=
  match Fork.ofLabel? v with
  | some fork => pure { o with forks := o.forks ++ [fork] }
  | .none => throw .misuse

/-- Add a rule. -/
def addRule (o : Options) (v : String) : Except Request Options :=
  match Operation.ofName? v with
  | some op => pure { o with rules := o.rules ++ [op] }
  | .none => throw .misuse

/-- Set the number of cases to replay at a time, once. -/
def setConcurrency (o : Options) (v : String) : Except Request Options :=
  match o.concurrency, Decimal.word v with
  | .none, .ok n => if n = 0 then throw .misuse else pure { o with concurrency := some n.toNat }
  | _, _ => throw .misuse

/-- What the value of a long option does. -/
def setter? : String → Option (Options → String → Except Request Options)
  | "vectors" => some setVectors
  | "config" => some setConfig
  | "fork" => some addFork
  | "rule" => some addRule
  | "concurrency" => some setConcurrency
  | _ => .none

/-- A long flag that takes no value. -/
def flag (o : Options) : String → Except Request Options
  | "verbose" => o.setVerbose
  | "help" => throw .help
  | "version" => throw .version
  | _ => throw .misuse

/-- Short flags behind one dash. -/
def shortFlags (o : Options) : List Char → Except Request Options
  | [] => pure o
  | c :: cs =>
    if c = 'v' then do
      let o ← o.setVerbose
      o.shortFlags cs
    else if c = 'h' then throw .help
    else if c = 'V' then throw .version
    else throw .misuse

/-- Whether an argument may be the value of the option in front of it. -/
def isValue (arg : String) : Bool :=
  match arg.toList with
  | '-' :: _ :: _ => false
  | _ => true

/-- Name and attached value of a long argument, behind its dashes. -/
def splitLong (cs : List Char) : String × Option String :=
  let (name, rest) := cs.span (· != '=')
  (String.ofList name, match rest with
    | _ :: value => some (String.ofList value)
    | [] => .none)

/-- Read arguments. -/
def read (o : Options) : List String → Except Request Options
  | [] => pure o
  | arg :: rest =>
    match arg.toList with
    | ['-', '-'] => if rest.isEmpty then pure o else throw .misuse
    | '-' :: '-' :: cs =>
      let (name, attached) := splitLong cs
      match setter? name, attached, rest with
      | some set, some v, rest => do
        let o ← set o v
        o.read rest
      | some set, .none, v :: rest =>
        if isValue v then do
          let o ← set o v
          o.read rest
        else throw .misuse
      | some _, .none, [] => throw .misuse
      | .none, some _, _ => throw .misuse
      | .none, .none, rest => do
        let o ← o.flag name
        o.read rest
    | '-' :: c :: cs => do
      let o ← o.shortFlags (c :: cs)
      o.read rest
    | _ => throw .misuse

end Options

namespace Request

/-- What a list of arguments asks for; `setting` is the value of the variable that names the
root of the fixtures. -/
def parse (args : List String) (setting : Option String) : Request :=
  match Options.none.read args with
  | .error request => request
  | .ok o =>
    match o.vectors, setting with
    | none, some v =>
      match o.setVectors v with
      | .ok o => .run o
      | .error request => request
    | _, _ => .run o

end Request

/-- The version of the program. -/
def versionText : String := "beacon-spectest 0.0.1\n"

/-- How the program is used. -/
def usageText : String :=
  "Replay epoch-processing conformance fixtures.\n\n" ++
    "Usage: beacon-spectest [-v] [--vectors DIR] [--config NAME] [--fork FORK]... " ++
    "[--rule RULE]... [--concurrency N]\n"

/-- How the program ends, and what it has logged. -/
structure Conclusion where
  status : Nat
  log : List Event

namespace Conclusion

/-- The events that are logged: those on detail only where they are asked for. -/
def shown (verbose : Bool) (events : List Event) : List Event :=
  events.filter fun e => verbose || e.level ≠ .debug

/-- The profile that is replayed unless the options name one. -/
def defaultConfig : String := "minimal"

/-- The tree that holds the fixtures: the given one if the options name a root, and else the
fixtures that come with the program. -/
def fixtures (disk : Disk) (o : Options) : Disk :=
  match o.vectors, Spec.ofName (o.config.getD defaultConfig) with
  | none, .ok spec => Vendored.disk vendoredVectors spec
  | _, _ => disk

/-- Run the suites that are asked for; `parallelism` cases are replayed at a time unless the
options say otherwise. -/
def ofOptions (pool : Pool) (disk : Disk) (parallelism : Nat) (o : Options) : Conclusion :=
  let disk := fixtures disk o
  let suite : Suite := ⟨vectorsRoot o.vectors, o.concurrency.getD parallelism⟩
  let selection := Selection.new (o.config.getD defaultConfig) o.forks o.rules
  let (summary, events) := Summary.run pool disk suite selection
  let events := if summary.reports.isEmpty then events ++ [.nothingRan] else events
  ⟨if summary.passed then 0 else 1, shown o.verbose events⟩

/-- The end of the program for a request. -/
def ofRequest (pool : Pool) (disk : Disk) (parallelism : Nat) : Request → Conclusion
  | .run o => ofOptions pool disk parallelism o
  | .misuse => ⟨2, []⟩
  | .help | .version => ⟨0, []⟩

end Conclusion

end BeaconReplay
