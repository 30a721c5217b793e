import BeaconReplay.Chain.Fork

/-!
# What can go wrong with a state

The causes for which a profile, a label, a root or a transition is refused, and the two
divisions that stop a transition outright.
-/
namespace BeaconReplay

/-- A refusal by the chain's own checks. -/
inductive ChainError where
  | unknownConfig (name : String)
  | unknownFork (label : String)
  | invalidHex (text : String)
  | invalidLength (field : String) (expected found : Nat)
  | listFull (list : String) (limit : Nat)
  | unsupportedFork (rule : String) (fork : Fork)
  | slotOverflow (slot : UInt64)
  deriving DecidableEq, Repr

namespace ChainError

/-- The wording of a refusal. -/
def message : ChainError → String
  | unknownConfig name => "unknown config: " ++ name
  | unknownFork label => "unknown fork: " ++ label
  | invalidHex text => "invalid hex: " ++ text
  | invalidLength field expected found =>
    "invalid length for " ++ field ++ ": expected " ++ toString expected ++ ", found "
      ++ toString found
  | listFull list limit => "list full: " ++ list ++ " (limit " ++ toString limit ++ ")"
  | unsupportedFork rule fork => rule ++ " is not defined for " ++ fork.label
  | slotOverflow slot => "slot overflow: " ++ toString slot.toNat

end ChainError

/-- A stop that is no refusal: the computation has no result at all. -/
inductive Crash where
  | divideByZero
  | remainderByZero
  | declared (reason : String)
  deriving DecidableEq, Repr

namespace Crash

/-- The wording of a crash. -/
def message : Crash → String
  | divideByZero => "attempt to divide by zero"
  | remainderByZero => "attempt to calculate the remainder with a divisor of zero"
  | declared reason => reason

end Crash

/-- Why a step has no result: it refused its input, or it crashed. -/
inductive Halt (ε : Type) where
  | refused (cause : ε)
  | crashed (crash : Crash)
  deriving DecidableEq, Repr

namespace Halt

/-- Change the cause of a refusal; a crash stays. -/
def mapCause {ε δ : Type} (f : ε → δ) : Halt ε → Halt δ
  | refused cause => .refused (f cause)
  | crashed crash => .crashed crash

end Halt

end BeaconReplay
