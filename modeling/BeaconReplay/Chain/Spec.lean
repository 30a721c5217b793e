import BeaconReplay.Chain.Fault

/-!
# Configuration profiles

A profile fixes the lengths of an epoch, of the historical vectors and of the voting period.
Two profiles are built in; every other one has to be given in full.
-/
namespace BeaconReplay

/-- An immutable bundle of protocol parameters. -/
structure Spec where
  configName : String
  slotsPerEpoch : UInt64
  slotsPerHistoricalRoot : UInt64
  epochsPerEth1VotingPeriod : UInt64
  epochsPerSlashingsVector : UInt64
  epochsPerHistoricalVector : UInt64
  deriving DecidableEq, Repr

namespace Spec

/-- The small profile that most conformance fixtures use. -/
def minimal : Spec := ⟨"minimal", 8, 64, 4, 64, 64⟩

/-- The profile of the main network. -/
def mainnet : Spec := ⟨"mainnet", 32, 8192, 64, 8192, 65536⟩

/-- The names of the built-in profiles. -/
def names : List String := ["minimal", "mainnet"]

/-- The built-in profile with a name. -/
def ofName (name : String) : Except ChainError Spec :=
  if name = "minimal" then .ok minimal
  else if name = "mainnet" then .ok mainnet
  else .error (.unknownConfig name)

/-- The quotient of two words; zero divides nothing. -/
def quotient (a b : UInt64) : Except Crash UInt64 :=
  if b = 0 then .error .divideByZero else .ok (a / b)

/-- The remainder of two words; zero divides nothing. -/
def remainder (a b : UInt64) : Except Crash UInt64 :=
  if b = 0 then .error .remainderByZero else .ok (a % b)

/-- The epoch that contains a slot. -/
def epochAt (spec : Spec) (slot : UInt64) : Except Crash UInt64 := quotient slot spec.slotsPerEpoch

/-- The number of epochs that one historical root covers. -/
def epochsPerHistoricalRoot (spec : Spec) : Except Crash UInt64 :=
  quotient spec.slotsPerHistoricalRoot spec.slotsPerEpoch

end Spec

/-- The most entries that `historical_roots` and `historical_summaries` may hold. -/
def historicalRootsLimit : Nat := 16777216

end BeaconReplay
