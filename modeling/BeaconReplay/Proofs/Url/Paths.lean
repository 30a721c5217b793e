import BeaconReplay.Proofs.Url.Appended

/-!
# Paths that are left alone

A path of segments of unreserved characters, none of which is a dot segment, is read as it is
written: it is split at its slashes, nothing in it is resolved or escaped, and no query begins in
it. Slashes at its end are empty segments.
-/
namespace BeaconReplay.Url

open Host (isBlank)

variable {c : Char} {s acc : List Char} {segments done : List (List Char)}

/-- Whether a character has no meaning of its own in a URL. -/
def isUnreserved (c : Char) : Bool :=
  isLetter c || ('0' ≤ c && c ≤ '9') || ['-', '.', '_', '~'].contains c

/-- A segment of unreserved characters that stands for itself. -/
structure IsPlain (s : List Char) : Prop where
  unreserved : ∀ c ∈ s, isUnreserved c = true
  ne_dot : s ≠ ['.']
  ne_dots : s ≠ ['.', '.']

instance (s : List Char) : Decidable (IsPlain s) :=
  decidable_of_iff (s.all isUnreserved = true ∧ s ≠ ['.'] ∧ s ≠ ['.', '.'])
    ⟨fun h => ⟨List.all_eq_true.1 h.1, h.2.1, h.2.2⟩,
      fun h => ⟨List.all_eq_true.2 h.unreserved, h.ne_dot, h.ne_dots⟩⟩

/-- Segments with a slash in front of each. -/
def joined (segments : List (List Char)) : List Char := segments.flatMap ('/' :: ·)

theorem joined_append (segments others : List (List Char)) :
    joined (segments ++ others) = joined segments ++ joined others :=
  List.flatMap_append

/-! ## Unreserved characters -/

theorem toNat_of_isUnreserved (h : isUnreserved c = true) : c.toNat < 128 := by
  simp only [isUnreserved, isLetter, Bool.or_eq_true, Bool.and_eq_true, decide_eq_true_eq] at h
  rcases h with ((⟨-, hhigh⟩ | ⟨-, hhigh⟩) | ⟨-, hhigh⟩) | hother
  · exact Nat.lt_of_le_of_lt (Char.le_def.1 hhigh) (by decide)
  · exact Nat.lt_of_le_of_lt (Char.le_def.1 hhigh) (by decide)
  · exact Nat.lt_of_le_of_lt (Char.le_def.1 hhigh) (by decide)
  · have hmem : c = '-' ∨ c = '.' ∨ c = '_' ∨ c = '~' := by simpa using hother
    rcases hmem with rfl | rfl | rfl | rfl <;> decide

theorem forall_isUnreserved {P : Char → Prop}
    (hall : ∀ n < 128, isUnreserved (Char.ofNat n) = true → P (Char.ofNat n))
    (h : isUnreserved c = true) : P c := by
  have hc := hall c.toNat (toNat_of_isUnreserved h)
  rw [Char.ofNat_toNat] at hc
  exact hc h

/-- An unreserved character is not escaped, ends nothing and is seen. -/
theorem plain_of_isUnreserved (h : isUnreserved c = true) : Percent.inPath c = false ∧
    isSlash true c = false ∧ endsAuthority true c = false ∧ isBlank c = false :=
  forall_isUnreserved (P := fun c => Percent.inPath c = false ∧ isSlash true c = false ∧
    endsAuthority true c = false ∧ isBlank c = false) (by decide +kernel) h

/-- No unreserved character starts an escape, and only the dot is read as one. -/
theorem toLower_of_isUnreserved (h : isUnreserved c = true) :
    c.toLower ≠ '%' ∧ (c.toLower = '.' → c = '.') :=
  forall_isUnreserved (P := fun c => c.toLower ≠ '%' ∧ (c.toLower = '.' → c = '.'))
    (by decide +kernel) h

theorem isUnreserved_of_isDigit (hc : c.isDigit = true) : isUnreserved c = true := by
  simp only [Char.isDigit, Bool.and_eq_true, decide_eq_true_eq, ge_iff_le] at hc
  have hdigit : '0' ≤ c ∧ c ≤ '9' := hc
  simp [isUnreserved, hdigit]

/-! ## Segments -/

theorem IsPlain.not_isSlash (h : IsPlain s) : ∀ c ∈ s, isSlash true c = false :=
  fun c hc => (plain_of_isUnreserved (h.unreserved c hc)).2.1

theorem encode_of_isPlain (h : IsPlain s) : Percent.encode Percent.inPath s = s := by
  rw [Percent.encode, List.flatMap_congr (g := fun c => [c])]
  · simp
  · intro c hc
    rw [(plain_of_isUnreserved (h.unreserved c hc)).1]
    rfl

/-- Dot segments are spelled by dots and by escapes, neither of which spell a plain segment. -/
theorem not_isDots_of_isPlain (h : IsPlain s) : isDoubleDot s = false ∧ isSingleDot s = false := by
  have hescaped {t : List Char} (ht : '%' ∈ t) : s.map Char.toLower ≠ t := by
    rintro rfl
    obtain ⟨c, hc, hlow⟩ := List.mem_map.1 ht
    exact (toLower_of_isUnreserved (h.unreserved c hc)).1 hlow
  have hdots : s.map Char.toLower ≠ ['.', '.'] := by
    intro heq
    refine h.ne_dots ?_
    have hall : ∀ c ∈ s, c = '.' := by
      intro c hc
      have hlow : c.toLower ∈ ['.', '.'] := heq ▸ List.mem_map_of_mem hc
      exact (toLower_of_isUnreserved (h.unreserved c hc)).2 (by simpa using hlow)
    have hlength : s.length = 2 := by simpa using congrArg List.length heq
    exact List.eq_replicate_iff.2 ⟨hlength, hall⟩
  simp [isDoubleDot, isSingleDot, hdots, h.ne_dot, hescaped]

theorem resolve_of_isPlain (h : ∀ s ∈ segments, IsPlain s) :
    resolve done segments = done.reverse ++ segments := by
  induction segments generalizing done with
  | nil => simp [resolve]
  | cons s segments ih =>
    obtain ⟨hs, hrest⟩ := List.forall_mem_cons.1 h
    obtain ⟨hdouble, hsingle⟩ := not_isDots_of_isPlain hs
    simp [resolve, hdouble, hsingle, encode_of_isPlain hs, ih hrest]

/-- No character of a segment ends it. -/
theorem segmentsFrom_append (hs : ∀ c ∈ s, isSlash true c = false) (cs : List Char) :
    segmentsFrom true acc (s ++ cs) = segmentsFrom true (s.reverse ++ acc) cs := by
  induction s generalizing acc with
  | nil => rfl
  | cons c s ih =>
    obtain ⟨hc, hs⟩ := List.forall_mem_cons.1 hs
    rw [List.cons_append, segmentsFrom, hc, if_neg Bool.false_ne_true, ih hs, List.reverse_cons,
      List.append_assoc, List.singleton_append]

/-- Segments are split at the slashes in front of them. -/
theorem segmentsFrom_joined (h : ∀ s ∈ segments, IsPlain s) :
    segmentsFrom true acc (joined segments) = acc.reverse :: segments := by
  induction segments generalizing acc with
  | nil => rfl
  | cons s segments ih =>
    obtain ⟨hs, hrest⟩ := List.forall_mem_cons.1 h
    change (if isSlash true '/' then acc.reverse :: segmentsFrom true [] (s ++ joined segments)
      else _) = _
    rw [if_pos (by rfl), segmentsFrom_append hs.not_isSlash, ih hrest, List.append_nil,
      List.reverse_reverse]

theorem mem_joined {c : Char} (hc : c ∈ joined segments) : c = '/' ∨ ∃ s ∈ segments, c ∈ s := by
  obtain ⟨s, hs, hc⟩ := List.mem_flatMap.1 hc
  exact (List.mem_cons.1 hc).imp_right fun hc => ⟨s, hs, hc⟩

/-- Plain segments hold neither the mark of a query nor that of a fragment, and nothing blank. -/
theorem plain_of_joined (h : ∀ s ∈ segments, IsPlain s) :
    ∀ c ∈ joined segments, (c != '?' && c != '#') = true ∧ isBlank c = false := by
  intro c hc
  obtain rfl | ⟨s, hs, hc⟩ := mem_joined hc
  · exact ⟨rfl, rfl⟩
  · obtain ⟨-, -, hends, hblank⟩ := plain_of_isUnreserved ((h s hs).unreserved c hc)
    simp only [endsAuthority, Bool.or_eq_false_iff, beq_eq_false_iff_ne] at hends
    exact ⟨by simp [hends], hblank⟩

/-- **Plain segments are read as they are written.** -/
theorem pathAndQuery_joined (hne : segments ≠ []) (h : ∀ s ∈ segments, IsPlain s) :
    pathAndQuery true (joined segments) = (String.ofList (joined segments), none) := by
  have hplain : ∀ c ∈ joined segments, (c != '?' && c != '#') = true :=
    fun c hc => (plain_of_joined h c hc).1
  obtain ⟨s, rest, rfl⟩ := List.exists_cons_of_ne_nil hne
  obtain ⟨hs, hrest⟩ := List.forall_mem_cons.1 h
  have hsplit : segmentsFrom true [] (s ++ joined rest) = s :: rest := by
    rw [segmentsFrom_append hs.not_isSlash, segmentsFrom_joined hrest, List.append_nil,
      List.reverse_reverse]
  have hpath : readPath true (joined (s :: rest)) = joined (s :: rest) := by
    change (resolve [] (segmentsFrom true [] (s ++ joined rest))).flatMap ('/' :: ·) = _
    rw [hsplit, resolve_of_isPlain h]
    rfl
  rw [pathAndQuery, List.span_eq_takeWhile_dropWhile, List.takeWhile_eq_self_iff.2 hplain,
    List.dropWhile_eq_nil_iff.2 hplain]
  exact congrArg (String.ofList · , none) hpath

/-! ## Slashes at the end -/

/-- The slashes at the end of a path are its empty segments there. -/
theorem rdropWhile_joined (h : ∀ s ∈ segments, IsPlain s) :
    (joined segments).rdropWhile (· == '/') = joined (segments.rdropWhile List.isEmpty) := by
  induction segments using List.reverseRecOn with
  | nil => rfl
  | append_singleton segments s ih =>
    obtain ⟨hrest, hs⟩ := List.forall_mem_append.1 h
    rw [joined_append, List.rdropWhile_concat]
    split_ifs with hempty
    · obtain rfl : s = [] := List.isEmpty_iff.1 hempty
      exact (List.rdropWhile_concat_pos _ _ _ rfl).trans (ih hrest)
    · -- the last character of a segment that is not empty stops the slashes from being dropped
      have hne : s ≠ [] := fun hnil => hempty (by simp [hnil])
      obtain ⟨start, last, rfl⟩ := (List.eq_nil_or_concat' s).resolve_left hne
      have hlast := (List.forall_mem_singleton.1 hs).not_isSlash last (by simp)
      have hother : ¬(last == '/') = true := by
        intro heq
        rw [eq_of_beq heq] at hlast
        cases hlast
      have hsplit : joined segments ++ joined [start ++ [last]] =
          joined segments ++ '/' :: start ++ [last] := by simp [joined]
      rw [hsplit, List.rdropWhile_concat, if_neg hother, ← hsplit, joined_append]

end BeaconReplay.Url
