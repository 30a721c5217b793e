import BeaconReplay.Proofs.Chain.Outcome
import BeaconReplay.Proofs.Merkle.Layers

/-!
# What a root commits to

Two vectors of one length with one root are equal, unless somewhere on the way up two different
pairs of neighbours have one hash. The layers are compared from the root down: the first one that
differs shows the pairs. So an entry of the history commits to the two vectors it stands for.
-/
namespace BeaconReplay.Merkle

variable {a b xs ys : List Root} {k : ℕ}

/-- Two roots that are hashed together on the way up from the leaves: the neighbours at the place
`i` of the layer `k` levels up. -/
def Siblings (leaves : List Root) (k i : ℕ) (l r : Root) : Prop :=
  ∃ rs, (layers leaves)[k]? = some rs ∧ rs[2 * i]? = some l ∧ rs[2 * i + 1]? = some r

/-- The ways up from two vectors meet in a hash of different pairs, which stand at one place. -/
def Collide (a b : List Root) : Prop :=
  ∃ k i l r l' r', Siblings a k i l r ∧ Siblings b k i l' r' ∧ (l, r) ≠ (l', r') ∧
    Root.hashPair l r = Root.hashPair l' r'

/-- Layers that differ and have one next layer show different pairs with one hash. -/
theorem eq_or_collision_of_pairLayer : ∀ {xs ys : List Root}, xs.length = ys.length →
    pairLayer xs = pairLayer ys → xs = ys ∨ ∃ i l r l' r',
      (xs[2 * i]? = some l ∧ xs[2 * i + 1]? = some r) ∧
      (ys[2 * i]? = some l' ∧ ys[2 * i + 1]? = some r') ∧
      (l, r) ≠ (l', r') ∧ Root.hashPair l r = Root.hashPair l' r'
  | [], [], _, _ => .inl rfl
  | [_], [_], _, h => .inl h
  | l :: r :: xs, l' :: r' :: ys, hlength, h => by
    rw [pairLayer_cons_cons, pairLayer_cons_cons, List.cons.injEq] at h
    obtain ⟨hhash, hrest⟩ := h
    by_cases hpair : (l, r) = (l', r')
    · obtain ⟨rfl, rfl⟩ := Prod.mk.inj hpair
      rcases eq_or_collision_of_pairLayer (by simpa using hlength) hrest with rfl | hcollision
      · exact .inl rfl
      · obtain ⟨i, m, s, m', s', hxs, hys, hne, heq⟩ := hcollision
        exact .inr ⟨i + 1, m, s, m', s', by simpa [Nat.mul_succ] using hxs,
          by simpa [Nat.mul_succ] using hys, hne, heq⟩
    · exact .inr ⟨0, l, r, l', r', ⟨rfl, rfl⟩, ⟨rfl, rfl⟩, hpair, hhash⟩

/-- Padding keeps vectors of one length apart. -/
theorem padded_inj (hlength : a.length = b.length) (h : padded a = padded b) : a = b := by
  rw [padded_eq, padded_eq] at h
  exact List.append_inj_left h hlength

/-- From a layer on which two vectors agree, down to the leaves. -/
theorem eq_or_collide_of_layer (hlength : a.length = b.length) (hk : k ≤ depth a.length)
    (h : layer k (padded a) = layer k (padded b)) : a = b ∨ Collide a b := by
  induction k with
  | zero => exact .inl (padded_inj hlength h)
  | succ k ih =>
    have hka : k ≤ depth a.length := by omega
    have hkb : k ≤ depth b.length := hlength ▸ hka
    have hsame : (layer k (padded a)).length = (layer k (padded b)).length := by
      rw [length_layer_padded hka, length_layer_padded hkb, hlength]
    rw [layer_succ, layer_succ] at h
    rcases eq_or_collision_of_pairLayer hsame h with heq | hcollision
    · exact ih hka heq
    · obtain ⟨i, l, r, l', r', ha, hb, hne, hhash⟩ := hcollision
      exact .inr ⟨k, i, l, r, l', r', ⟨_, getElem?_layers hka, ha⟩,
        ⟨_, getElem?_layers hkb, hb⟩, hne, hhash⟩

/-- **A root binds the vector of its length, up to collisions.** -/
theorem eq_or_collide_of_root (hlength : a.length = b.length) (h : root a = root b) :
    a = b ∨ Collide a b := by
  by_cases ha : a = []
  · subst ha
    exact .inl (List.eq_nil_of_length_eq_zero hlength.symm).symm
  · have hb : b ≠ [] := by
      rintro rfl
      exact ha (List.eq_nil_of_length_eq_zero hlength)
    have htop : layer (depth a.length) (padded a) = layer (depth a.length) (padded b) := by
      rw [layer_depth_padded ha, hlength, layer_depth_padded hb, h]
    exact eq_or_collide_of_layer hlength le_rfl htop

section Entries

variable {spec : Spec} {s t : BeaconState}

/-- Two states have the same historical vectors, or two of these collide. -/
def VectorsAgree (s t : BeaconState) : Prop :=
  (s.blockRoots = t.blockRoots ∧ s.stateRoots = t.stateRoots) ∨
    Collide s.blockRoots.toList t.blockRoots.toList ∨
    Collide s.stateRoots.toList t.stateRoots.toList

/-- The hashes of two batches are those of different pairs of roots. -/
def BatchesCollide (s t : BeaconState) : Prop :=
  let l := root s.blockRoots.toList
  let r := root s.stateRoots.toList
  let l' := root t.blockRoots.toList
  let r' := root t.stateRoots.toList
  (l, r) ≠ (l', r') ∧ Root.hashPair l r = Root.hashPair l' r'

/-- Valid states with the same two roots agree on the vectors. -/
theorem vectorsAgree_of_roots (hs : s.validate spec = .ok ()) (ht : t.validate spec = .ok ())
    (hblock : root s.blockRoots.toList = root t.blockRoots.toList)
    (hstate : root s.stateRoots.toList = root t.stateRoots.toList) : VectorsAgree s t := by
  obtain ⟨hsBlock, hsState, -⟩ := BeaconState.validate_eq_ok_iff.1 hs
  obtain ⟨htBlock, htState, -⟩ := BeaconState.validate_eq_ok_iff.1 ht
  have hblockLength : s.blockRoots.toList.length = t.blockRoots.toList.length := by
    simp [hsBlock, htBlock]
  have hstateLength : s.stateRoots.toList.length = t.stateRoots.toList.length := by
    simp [hsState, htState]
  rcases eq_or_collide_of_root hblockLength hblock with hblocks | hcollide
  · rcases eq_or_collide_of_root hstateLength hstate with hstates | hcollide
    · exact .inl ⟨Array.toList_inj.1 hblocks, Array.toList_inj.1 hstates⟩
    · exact .inr (.inr hcollide)
  · exact .inr (.inl hcollide)

/-- A rule that appends a summary has found a valid state, and the summary is that of the state. -/
theorem summary_of_append {next : BeaconState} {entry : HistoricalSummary}
    (h : Rule.apply .historicalSummariesUpdate spec s = .ok next)
    (happend : next.historicalSummaries = s.historicalSummaries.push entry) :
    s.validate spec = .ok () ∧ entry = Rule.summary s := by
  obtain ⟨hvalid, rfl | rfl⟩ := Rule.updateSummaries_ok_cases h
  · have hsize := congrArg Array.size happend
    simp at hsize
  · exact ⟨hvalid, (Array.push_eq_push.1 happend).1.symm⟩

/-- A rule that appends a root has found a valid state, and the root is that of its batch. -/
theorem batchRoot_of_append {next : BeaconState} {entry : Root}
    (h : Rule.apply .historicalRootsUpdate spec s = .ok next)
    (happend : next.historicalRoots = s.historicalRoots.push entry) :
    s.validate spec = .ok () ∧ entry = Rule.batchRoot s := by
  obtain ⟨hvalid, rfl | rfl⟩ := Rule.updateRoots_ok_cases h
  · have hsize := congrArg Array.size happend
    simp at hsize
  · exact ⟨hvalid, (Array.push_eq_push.1 happend).1.symm⟩

end Entries

/-- **Equal commitments stand for equal data, or a collision is found**: for two vectors of one
length with one root, and for two states to whose history one entry is appended. For a batch root
the collision may also be that of the two roots which the batch hashes together. -/
theorem equal_commitments_bind :
    (∀ a b : List Root, a.length = b.length → root a = root b → a = b ∨ Collide a b) ∧
    (∀ (spec : Spec) (s t s' t' : BeaconState) (entry : HistoricalSummary),
      Rule.apply .historicalSummariesUpdate spec s = .ok s' →
      Rule.apply .historicalSummariesUpdate spec t = .ok t' →
      s'.historicalSummaries = s.historicalSummaries.push entry →
      t'.historicalSummaries = t.historicalSummaries.push entry → VectorsAgree s t) ∧
    ∀ (spec : Spec) (s t s' t' : BeaconState) (entry : Root),
      Rule.apply .historicalRootsUpdate spec s = .ok s' →
      Rule.apply .historicalRootsUpdate spec t = .ok t' →
      s'.historicalRoots = s.historicalRoots.push entry →
      t'.historicalRoots = t.historicalRoots.push entry →
      VectorsAgree s t ∨ BatchesCollide s t := by
  refine ⟨fun a b => eq_or_collide_of_root, ?_, ?_⟩
  · intro spec s t s' t' entry hs ht hsAppend htAppend
    obtain ⟨hsValid, rfl⟩ := summary_of_append hs hsAppend
    obtain ⟨htValid, hsummary⟩ := summary_of_append ht htAppend
    obtain ⟨hblock, hstate⟩ := HistoricalSummary.mk.inj hsummary
    exact vectorsAgree_of_roots hsValid htValid hblock hstate
  · intro spec s t s' t' entry hs ht hsAppend htAppend
    obtain ⟨hsValid, rfl⟩ := batchRoot_of_append hs hsAppend
    obtain ⟨htValid, hhash⟩ := batchRoot_of_append ht htAppend
    by_cases hpair : (root s.blockRoots.toList, root s.stateRoots.toList) =
        (root t.blockRoots.toList, root t.stateRoots.toList)
    · obtain ⟨hblock, hstate⟩ := Prod.mk.inj hpair
      exact .inl (vectorsAgree_of_roots hsValid htValid hblock hstate)
    · exact .inr ⟨hpair, hhash⟩

/-- A state of the small profile with blocks in its history. -/
def recorded (fork : Fork) (slot : UInt64) : BeaconState :=
  { BeaconState.new .minimal fork with
    slot := slot
    blockRoots := Array.replicate 64 (Root.hash [1]) }

theorem validate_recorded (fork : Fork) (slot : UInt64) :
    (recorded fork slot).validate .minimal = .ok () := by
  simp [BeaconState.validate_eq_ok_iff, recorded, BeaconState.new, Spec.minimal]

/-- At the ends of two periods, states of two forks append one entry for the same blocks. -/
theorem equal_commitments_of_two_forks :
    (∃ a b : List Root, a ≠ [] ∧ a.length = b.length ∧ root a = root b ∧ (a = b ∨ Collide a b)) ∧
    (∃ s' t' entry,
      Rule.apply .historicalSummariesUpdate .minimal (recorded .capella 63) = .ok s' ∧
      Rule.apply .historicalSummariesUpdate .minimal (recorded .deneb 127) = .ok t' ∧
      s'.historicalSummaries = #[entry] ∧ t'.historicalSummaries = #[entry] ∧
      VectorsAgree (recorded .capella 63) (recorded .deneb 127)) ∧
    ∃ s' t' entry,
      Rule.apply .historicalRootsUpdate .minimal (recorded .phase0 63) = .ok s' ∧
      Rule.apply .historicalRootsUpdate .minimal (recorded .altair 127) = .ok t' ∧
      s'.historicalRoots = #[entry] ∧ t'.historicalRoots = #[entry] ∧
      (VectorsAgree (recorded .phase0 63) (recorded .altair 127) ∨
        BatchesCollide (recorded .phase0 63) (recorded .altair 127)) := by
  obtain ⟨hlists, hsummaries, hroots⟩ := equal_commitments_bind
  have happly : ∀ {fork : Fork} {slot : UInt64} {list : String} {next : BeaconState},
      Spec.minimal.period ∣ Spec.minimal.epochOf slot + 1 →
      Spec.minimal.epochOf slot + 1 < UInt64.size →
      Rule.appending list 0 .minimal (recorded fork slot) next = .ok next := by
    intro fork slot list next hend hnext
    rw [Rule.appending_eq_ok (by decide) (by decide) hnext (by decide)]
    exact congrArg Except.ok (if_pos hend)
  have hcapella := (Rule.updateSummaries_eq_of_valid (by rfl)
    (validate_recorded .capella 63)).trans (happly (by decide) (by decide))
  have hdeneb := (Rule.updateSummaries_eq_of_valid (by rfl)
    (validate_recorded .deneb 127)).trans (happly (by decide) (by decide))
  have hphase0 := (Rule.updateRoots_eq_of_valid (by rfl)
    (validate_recorded .phase0 63)).trans (happly (by decide) (by decide))
  have haltair := (Rule.updateRoots_eq_of_valid (by rfl)
    (validate_recorded .altair 127)).trans (happly (by decide) (by decide))
  refine ⟨⟨[Root.zero, Root.hash []], _, by simp, rfl, rfl, hlists _ _ rfl rfl⟩, ?_, ?_⟩
  · exact ⟨_, _, _, hcapella, hdeneb, rfl, rfl, hsummaries _ _ _ _ _ _ hcapella hdeneb rfl rfl⟩
  · exact ⟨_, _, _, hphase0, haltair, rfl, rfl, hroots _ _ _ _ _ _ hphase0 haltair rfl rfl⟩

end BeaconReplay.Merkle
