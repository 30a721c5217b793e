import BeaconReplay.Proofs.Chain.Effect

/-!
# Runs over consecutive epochs

In each epoch of a run the environment makes its change to the state and puts the slot somewhere
into the epoch; then one rule is tried. What the environment may do is a parameter, and what it
does in an epoch is an input to that epoch. An invariant is carried through a run by
`Run.invariant`, which also sees to it that every epoch has a next one.
-/
namespace BeaconReplay.Epochs

variable {ι : Type}

/-- One epoch of a run. -/
structure Epoch (ι : Type) where
  number : ℕ
  /-- What the environment does. -/
  input : ι
  /-- The state in front of the epoch. -/
  before : BeaconState
  /-- The state that the rule finds. -/
  opened : BeaconState
  /-- The state that the rule leaves. -/
  closed : BeaconState

section Run

variable (rule : Rule) (change : ℕ → ι → BeaconState → BeaconState) (spec : Spec)

/-- The epoch `e`, with an input and at a slot. -/
def play (e : ℕ) (input : ι) (slot : UInt64) (before : BeaconState) : Epoch ι where
  number := e
  input := input
  before := before
  opened := { change e input before with slot := slot }
  closed := rule.attempt spec { change e input before with slot := slot }

/-- The runs over consecutive epochs, of which the first one has the number `first`. -/
inductive Run (first : ℕ) (start : BeaconState) : List (Epoch ι) → BeaconState → Prop
  | start : Run first start [] start
  | epoch {epochs : List (Epoch ι)} {before : BeaconState} (input : ι) {slot : UInt64} :
    Run first start epochs before →
    spec.epochOf slot = first + epochs.length →
    Run first start
      (epochs ++ [play rule change spec (first + epochs.length) input slot before])
      (play rule change spec (first + epochs.length) input slot before).closed

end Run

variable {rule : Rule} {change : ℕ → ι → BeaconState → BeaconState} {spec : Spec}
variable {first : ℕ} {start final : BeaconState} {epochs : List (Epoch ι)}

/-- An epoch whose rule is ready is closed by the effect of the rule. -/
theorem closed_play {e : ℕ} {input : ι} {slot : UInt64} {before : BeaconState} :
    let ep := play rule change spec e input slot before
    rule.Ready spec ep.opened →
      rule.apply spec ep.opened = .ok ep.closed ∧ ep.closed = rule.effect spec ep.opened := by
  intro ep hready
  have happly := Rule.apply_of_ready hready
  have hclosed : ep.closed = rule.effect spec ep.opened := Rule.attempt_of_ok happly
  exact ⟨hclosed ▸ happly, hclosed⟩

/-- The epochs of a run are consecutive. -/
theorem Run.number_eq (hrun : Run rule change spec first start epochs final) {i : ℕ}
    (hi : i < epochs.length) : epochs[i].number = first + i := by
  induction hrun with
  | start => simp at hi
  | @epoch epochs before input slot hrun hslot ih =>
    rw [List.length_append, List.length_singleton] at hi
    rcases Nat.lt_succ_iff_lt_or_eq.1 hi with hold | rfl
    · rw [List.getElem_append_left hold, ih hold]
    · simp [play]

theorem Run.number_lt (hrun : Run rule change spec first start epochs final) :
    ∀ ep ∈ epochs, ep.number < first + epochs.length := by
  intro ep hep
  obtain ⟨i, hi, rfl⟩ := List.getElem_of_mem hep
  rw [hrun.number_eq hi]
  omega

/-- Every epoch of a run has been played at one of its slots. -/
theorem Run.exists_play (hrun : Run rule change spec first start epochs final) :
    ∀ ep ∈ epochs, ∃ slot, spec.epochOf slot = ep.number ∧
      ep = play rule change spec ep.number ep.input slot ep.before := by
  induction hrun with
  | start => simp
  | @epoch epochs before input slot hrun hslot ih =>
    intro ep hep
    rcases List.mem_append.1 hep with hep | hep
    · exact ih ep hep
    · obtain rfl := List.mem_singleton.1 hep
      exact ⟨slot, hslot, rfl⟩

/-- What holds at the start and is kept by every epoch that has a next one holds after a run. -/
theorem Run.invariant {I : List (Epoch ι) → BeaconState → Prop}
    (hrun : Run rule change spec first start epochs final) (hE : 0 < spec.slotsPerEpoch.toNat)
    (hlast : first + epochs.length < UInt64.size) (hstart : I [] start)
    (hepoch : ∀ {epochs before} (input : ι) (slot : UInt64),
      Run rule change spec first start epochs before → spec.HasNext slot →
      spec.epochOf slot = first + epochs.length → I epochs before →
      I (epochs ++ [play rule change spec (first + epochs.length) input slot before])
        (play rule change spec (first + epochs.length) input slot before).closed) :
    I epochs final := by
  induction hrun with
  | start => exact hstart
  | @epoch epochs before input slot hrun hslot ih =>
    rw [List.length_append, List.length_singleton] at hlast
    have hnext : spec.HasNext slot := ⟨hE, by omega⟩
    exact hepoch input slot hrun hnext hslot (ih (by omega))

/-! ## The points of a run -/

/-- The points of a run at which an epoch begins, has been changed by the environment or ends. -/
def points (start : BeaconState) (epochs : List (Epoch ι)) : List BeaconState :=
  start :: epochs.flatMap fun ep => [ep.opened, ep.closed]

theorem points_snoc (ep : Epoch ι) :
    points start (epochs ++ [ep]) = points start epochs ++ [ep.opened, ep.closed] := by
  simp [points]

theorem Run.final_mem_points (hrun : Run rule change spec first start epochs final) :
    final ∈ points start epochs := by
  cases hrun with
  | start => simp [points]
  | epoch input hrun hslot => simp [points_snoc]

end BeaconReplay.Epochs
