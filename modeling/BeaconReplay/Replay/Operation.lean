import BeaconReplay.Replay.Failure

/-!
# Operations

An operation is a rule as a suite replays it: its name, the forks that define it, and the
transition, whose refusals are failures of the case.
-/
namespace BeaconReplay

/-- A testable rule. -/
structure Operation where
  rule : String
  supports : Fork → Bool
  transition : Spec → BeaconState → Except (Halt Failure) BeaconState

namespace Operation

/-- The category of the fixtures of a rule. -/
def category (op : Operation) : String := "epoch_processing/" ++ op.rule

/-- The operation of an epoch rule: a refusal is a failed transition that names the rule. -/
def ofRule (rule : Rule) : Operation where
  rule := rule.name
  supports := rule.supports
  transition := fun spec state =>
    (rule.apply spec state).mapError (Halt.mapCause (Failure.transition rule.name))

/-- Every operation that has fixtures. -/
def all : List Operation := Rule.all.map ofRule

/-- The operation with a name. -/
def ofName? (name : String) : Option Operation := all.find? (·.rule == name)

end Operation

end BeaconReplay
