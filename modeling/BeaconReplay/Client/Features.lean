import BeaconReplay.Client.Selection

/-!
# The flags of a process

The flags are pinned once, by the first initialisation or by the first use, which pins the
defaults. After that they never change.
-/
namespace BeaconReplay

/-- The pinned flags of a process, if any. -/
abbrev Pin := Option Flags

namespace Pin

/-- Nothing is pinned. -/
def empty : Pin := none

/-- Pin flags; the flags come back if others are pinned already. -/
def init (p : Pin) (flags : Flags) : Except Flags Unit × Pin :=
  match p with
  | none => (.ok (), some flags)
  | some _ => (.error flags, p)

/-- The pinned flags; the defaults are pinned if there are none. -/
def get (p : Pin) : Flags × Pin :=
  match p with
  | none => (Flags.default, some Flags.default)
  | some flags => (flags, p)

/-- Select the backend of a connection by the pinned flags. -/
def select {κ : Type} (p : Pin) (c : Connection κ) : Client κ × Pin :=
  let (flags, p) := p.get
  ((Client.select flags c).1, p)

end Pin

end BeaconReplay
