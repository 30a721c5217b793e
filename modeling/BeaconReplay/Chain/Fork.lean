/-!
# Forks

The protocol upgrades, in the order in which they were activated.
-/
namespace BeaconReplay

/-- A protocol upgrade. -/
inductive Fork where
  | phase0
  | altair
  | bellatrix
  | capella
  | deneb
  | electra
  deriving DecidableEq, Repr, Inhabited

namespace Fork

/-- All forks in the order of activation. -/
def all : List Fork := [phase0, altair, bellatrix, capella, deneb, electra]

/-- The place in the order of activation. -/
def position : Fork → Nat
  | phase0 => 0
  | altair => 1
  | bellatrix => 2
  | capella => 3
  | deneb => 4
  | electra => 5

/-- The label used in paths and files. -/
def label : Fork → String
  | phase0 => "phase0"
  | altair => "altair"
  | bellatrix => "bellatrix"
  | capella => "capella"
  | deneb => "deneb"
  | electra => "electra"

/-- The fork with a label. -/
def ofLabel? (s : String) : Option Fork := all.find? (·.label == s)

/-- The order of activation. -/
def order (a b : Fork) : Ordering := compare a.position b.position

/-- Whether a fork was activated before another. -/
def before (a b : Fork) : Bool := a.position < b.position

/-- Whether a fork is another one or was activated after it. -/
def reaches (a b : Fork) : Bool := b.position ≤ a.position

end Fork

end BeaconReplay
