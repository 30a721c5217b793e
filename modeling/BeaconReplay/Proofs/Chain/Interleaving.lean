import BeaconReplay.Proofs.Chain.Accumulation
import BeaconReplay.Proofs.Chain.Effect

/-!
# What no run can change

A run tries rules in any order and any number of times, and between them the environment moves the
slot as it likes. `Evolves` says how two points of such a run are related. The relation is reflexive
and transitive and holds across every move, so it holds between any two points: most of a state
stays, the historical lists only grow, and what is dropped or zeroed is never brought back.
-/
namespace BeaconReplay.Interleaving

open Accumulation (entries)

/-- A move of a run: a rule is tried, or the environment sets the slot. -/
inductive Move where
  | attempt (rule : Rule)
  | setSlot (slot : UInt64)

/-- The state behind a move. A rule that halts leaves the state as it was. -/
def Move.perform (spec : Spec) (s : BeaconState) : Move → BeaconState
  | attempt rule => rule.attempt spec s
  | setSlot slot => { s with slot := slot }

/-- The state behind a run. -/
def run (spec : Spec) (start : BeaconState) (moves : List Move) : BeaconState :=
  moves.foldl (Move.perform spec) start

theorem run_append (spec : Spec) (start : BeaconState) (past moves : List Move) :
    run spec start (past ++ moves) = run spec (run spec start past) moves :=
  List.foldl_append

/-- How a later point of a run is related to an earlier one. -/
structure Evolves (earlier later : BeaconState) : Prop where
  fork_eq : later.fork = earlier.fork
  eth1Data_eq : later.eth1Data = earlier.eth1Data
  blockRoots_eq : later.blockRoots = earlier.blockRoots
  stateRoots_eq : later.stateRoots = earlier.stateRoots
  size_randaoMixes : later.randaoMixes.size = earlier.randaoMixes.size
  size_slashings : later.slashings.size = earlier.slashings.size
  /-- Roots are only appended, and all of them are the root of one batch. -/
  roots_eq : ∃ n, later.historicalRoots.toList =
    earlier.historicalRoots.toList ++ List.replicate n (Rule.batchRoot earlier)
  /-- Summaries are only appended, and all of them are one summary. -/
  summaries_eq : ∃ n, later.historicalSummaries.toList =
    earlier.historicalSummaries.toList ++ List.replicate n (Rule.summary earlier)
  /-- Only one of the two lists can grow, and the fork decides which one. -/
  grows_one : if earlier.fork.before .capella
    then later.historicalSummaries = earlier.historicalSummaries
    else later.historicalRoots = earlier.historicalRoots
  roots_le : earlier.historicalRoots.size ≤ historicalRootsLimit →
    later.historicalRoots.size ≤ historicalRootsLimit
  summaries_le : earlier.historicalSummaries.size ≤ historicalRootsLimit →
    later.historicalSummaries.size ≤ historicalRootsLimit
  /-- Votes are kept or dropped, but never cast. -/
  votes_eq : later.eth1DataVotes = earlier.eth1DataVotes ∨ later.eth1DataVotes = #[]
  slashings_eq : ∀ i : ℕ, later.slashings[i]? = earlier.slashings[i]? ∨ later.slashings[i]? = some 0
  mixes_subset : ∀ mix ∈ later.randaoMixes, mix ∈ earlier.randaoMixes

namespace Evolves

variable {s t u : BeaconState} {spec : Spec} {rule : Rule}

theorem refl (s : BeaconState) : Evolves s s where
  fork_eq := rfl
  eth1Data_eq := rfl
  blockRoots_eq := rfl
  stateRoots_eq := rfl
  size_randaoMixes := rfl
  size_slashings := rfl
  roots_eq := ⟨0, by simp⟩
  summaries_eq := ⟨0, by simp⟩
  grows_one := by split <;> rfl
  roots_le := id
  summaries_le := id
  votes_eq := .inl rfl
  slashings_eq := fun _ => .inl rfl
  mixes_subset := fun _ => id

theorem summary_eq (h : Evolves s t) : Rule.summary t = Rule.summary s := by
  rw [Rule.summary, h.blockRoots_eq, h.stateRoots_eq, Rule.summary]

theorem batchRoot_eq (h : Evolves s t) : Rule.batchRoot t = Rule.batchRoot s := by
  rw [Rule.batchRoot, h.blockRoots_eq, h.stateRoots_eq, Rule.batchRoot]

/-- A state stays valid, or invalid for the same reason. -/
theorem validate_eq (h : Evolves s t) (spec : Spec) : t.validate spec = s.validate spec :=
  BeaconState.validate_congr (by rw [h.blockRoots_eq]) (by rw [h.stateRoots_eq])
    h.size_randaoMixes h.size_slashings

theorem trans (h : Evolves s t) (h' : Evolves t u) : Evolves s u where
  fork_eq := h'.fork_eq.trans h.fork_eq
  eth1Data_eq := h'.eth1Data_eq.trans h.eth1Data_eq
  blockRoots_eq := h'.blockRoots_eq.trans h.blockRoots_eq
  stateRoots_eq := h'.stateRoots_eq.trans h.stateRoots_eq
  size_randaoMixes := h'.size_randaoMixes.trans h.size_randaoMixes
  size_slashings := h'.size_slashings.trans h.size_slashings
  roots_eq := by
    obtain ⟨m, hm⟩ := h.roots_eq
    obtain ⟨n, hn⟩ := h'.roots_eq
    refine ⟨m + n, ?_⟩
    rw [hn, hm, h.batchRoot_eq, List.append_assoc, List.replicate_append_replicate]
  summaries_eq := by
    obtain ⟨m, hm⟩ := h.summaries_eq
    obtain ⟨n, hn⟩ := h'.summaries_eq
    refine ⟨m + n, ?_⟩
    rw [hn, hm, h.summary_eq, List.append_assoc, List.replicate_append_replicate]
  grows_one := by
    have hs := h.grows_one
    have ht := h'.grows_one
    rw [h.fork_eq] at ht
    split at hs
    · rw [if_pos ‹_›] at ht ⊢
      exact ht.trans hs
    · rw [if_neg ‹_›] at ht ⊢
      exact ht.trans hs
  roots_le := h'.roots_le ∘ h.roots_le
  summaries_le := h'.summaries_le ∘ h.summaries_le
  votes_eq := by
    rcases h'.votes_eq with hkept | hdropped
    · rw [hkept]
      exact h.votes_eq
    · exact .inr hdropped
  slashings_eq := by
    intro i
    rcases h'.slashings_eq i with hkept | hzeroed
    · rw [hkept]
      exact h.slashings_eq i
    · exact .inr hzeroed
  mixes_subset := fun mix hmix => h.mixes_subset mix (h'.mixes_subset mix hmix)

/-! ## One move -/

theorem setSlot (slot : UInt64) : Evolves s { s with slot := slot } :=
  { refl s with }

theorem dropVotes : Evolves s { s with eth1DataVotes := #[] } :=
  { refl s with votes_eq := .inr rfl }

theorem appendRoot (hfork : s.fork.before .capella = true)
    (hroom : s.historicalRoots.size < historicalRootsLimit) : Evolves s s.appendRoot :=
  { refl s with
    roots_eq := ⟨1, by simp [BeaconState.appendRoot]⟩
    grows_one := by simp [BeaconState.appendRoot, hfork]
    roots_le := fun _ => by simpa [BeaconState.appendRoot] using hroom }

theorem appendSummary (hfork : s.fork.before .capella = false)
    (hroom : s.historicalSummaries.size < historicalRootsLimit) : Evolves s s.appendSummary :=
  { refl s with
    summaries_eq := ⟨1, by simp [BeaconState.appendSummary]⟩
    grows_one := by simp [BeaconState.appendSummary, hfork]
    summaries_le := fun _ => by simpa [BeaconState.appendSummary] using hroom }

theorem zeroSlashings (i : ℕ) : Evolves s { s with slashings := s.slashings.setIfInBounds i 0 } :=
  { refl s with
    size_slashings := Array.size_setIfInBounds ..
    slashings_eq := by
      intro j
      by_cases hij : i = j
      · subst hij
        rcases Nat.lt_or_ge i s.slashings.size with hlt | hge
        · exact .inr (Array.getElem?_setIfInBounds_self_of_lt hlt)
        · exact .inl (by simp [hge])
      · exact .inl (Array.getElem?_setIfInBounds_ne hij) }

theorem carryMix {i : ℕ} (j : ℕ) (hi : i < s.randaoMixes.size) : Evolves s { s with
    randaoMixes := s.randaoMixes.setIfInBounds j (s.randaoMixes.getD i Root.zero) } :=
  { refl s with
    size_randaoMixes := Array.size_setIfInBounds ..
    mixes_subset := by
      intro mix hmix
      rcases Array.mem_or_eq_of_mem_setIfInBounds hmix with hold | rfl
      · exact hold
      · simp [hi] }

/-- A rule that is ready lets a state evolve. -/
theorem effect (h : rule.Ready spec s) : Evolves s (rule.effect spec s) := by
  cases rule with
  | eth1DataReset =>
    rw [Rule.effect_votes]
    split
    · exact dropVotes
    · exact refl s
  | historicalRootsUpdate =>
    rw [Rule.effect_roots]
    split
    · exact appendRoot h.supported (Nat.lt_of_not_le fun hfull => h.room ⟨hfull, ‹_›⟩)
    · exact refl s
  | historicalSummariesUpdate =>
    have hfork : s.fork.before .capella = false := by simpa [Rule.supports] using h.supported
    rw [Rule.effect_summaries]
    split
    · exact appendSummary hfork (Nat.lt_of_not_le fun hfull => h.room ⟨hfull, ‹_›⟩)
    · exact refl s
  | randaoMixesReset =>
    obtain ⟨-, -, hsize, -⟩ := BeaconState.validate_eq_ok_iff.1 (h.valid (by decide))
    exact carryMix _ ((Nat.mod_lt _ h.cycle_pos).trans_eq hsize.symm)
  | slashingsReset => exact zeroSlashings _

/-- Whatever the move, a state evolves. -/
theorem perform (spec : Spec) (s : BeaconState) (move : Move) :
    Evolves s (move.perform spec s) := by
  cases move with
  | setSlot slot => exact setSlot slot
  | attempt rule =>
    rw [Move.perform]
    rcases rule.attempt_cases spec s with hkept | ⟨hready, heffect⟩
    · rw [hkept]
      exact refl s
    · rw [heffect]
      exact effect hready

/-! ## Whole runs -/

/-- Whatever the moves, a state evolves. -/
theorem run (spec : Spec) (s : BeaconState) (moves : List Move) :
    Evolves s (run spec s moves) := by
  induction moves generalizing s with
  | nil => exact refl s
  | cons move moves ih => exact (perform spec s move).trans (ih _)

end Evolves

/-- A rule appends at most one entry. -/
theorem entries_effect_le (rule : Rule) (spec : Spec) (s : BeaconState) :
    entries (rule.effect spec s) ≤ entries s + 1 := by
  cases rule with
  | historicalRootsUpdate =>
    rw [Rule.effect_roots]
    split <;> simp +arith [entries, BeaconState.appendRoot]
  | historicalSummariesUpdate =>
    rw [Rule.effect_summaries]
    split <;> simp +arith [entries, BeaconState.appendSummary]
  | _ => exact Nat.le_succ _

theorem entries_perform_le (spec : Spec) (s : BeaconState) (move : Move) :
    entries (move.perform spec s) ≤ entries s + 1 := by
  cases move with
  | setSlot slot => exact Nat.le_succ _
  | attempt rule =>
    rw [Move.perform]
    rcases rule.attempt_cases spec s with hkept | ⟨-, heffect⟩
    · rw [hkept]
      exact Nat.le_succ _
    · rw [heffect]
      exact entries_effect_le rule spec s

/-- **Any two points of a run are related.** What `Evolves` says holds of a point of a run and every
later one, the start and the end among them. So the state is valid throughout or invalid throughout
for the same reason, an earlier list is a prefix of a later one, votes once dropped do not come
back, and a single move appends at most one entry to one of the lists. -/
theorem points_of_run_evolve (spec : Spec) (start : BeaconState) (past moves : List Move)
    (move : Move) :
    let earlier := run spec start past
    let later := run spec start (past ++ moves)
    Evolves earlier later ∧
    later.validate spec = earlier.validate spec ∧
    earlier.historicalRoots.toList <+: later.historicalRoots.toList ∧
    earlier.historicalSummaries.toList <+: later.historicalSummaries.toList ∧
    (earlier.eth1DataVotes = #[] → later.eth1DataVotes = #[]) ∧
    entries (run spec start (past ++ moves ++ [move])) ≤ entries later + 1 := by
  intro earlier later
  have h : Evolves earlier later := by
    rw [show later = run spec earlier moves from run_append ..]
    exact .run spec earlier moves
  obtain ⟨m, hm⟩ := h.roots_eq
  obtain ⟨n, hn⟩ := h.summaries_eq
  refine ⟨h, h.validate_eq spec, ⟨_, hm.symm⟩, ⟨_, hn.symm⟩, ?_, ?_⟩
  · intro hempty
    rcases h.votes_eq with hkept | hdropped
    · rw [hkept, hempty]
    · exact hdropped
  · rw [run_append]
    exact entries_perform_le spec later move

end BeaconReplay.Interleaving
