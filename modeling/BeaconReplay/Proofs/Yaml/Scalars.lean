import BeaconReplay.Proofs.Yaml.Page

/-!
# Scalars and blanks

Safe characters mean nothing to the lexer, so a scalar made of them is taken whole: in plain style
up to the colon behind a key, or with the line break behind it and the next indentation, and in
quotes up to the closing one. In front of a token, blanks and a break are passed over.
-/
namespace BeaconReplay.Yaml

section Characters

variable {c d : Char}

/-- A safe character is none of those that mean something to the lexer. -/
theorem beq_of_safe (hc : isSafe c = true) (hd : isSafe d = false) : (c == d) = false := by
  rw [beq_eq_false_iff_ne]
  rintro rfl
  rw [hc] at hd
  cases hd

theorem isBlank_of_safe (hc : isSafe c = true) : isBlank c = false := by
  simp (disch := decide) only [isBlank, beq_of_safe hc, Bool.or_self]

theorem isBreak_of_safe (hc : isSafe c = true) : isBreak c = false := by
  simp (disch := decide) only [isBreak, beq_of_safe hc, Bool.or_self]

theorem isIndicator_of_safe (hc : isSafe c = true) : Lexer.isIndicator c = false := by
  simp (disch := decide) only [Lexer.isIndicator, List.contains_cons, List.contains_nil,
    beq_of_safe hc, Bool.or_self]

theorem not_marker_of_safe {cs : List Char} (hc : isSafe c = true) :
    atMarker (c :: cs) = false := by
  unfold atMarker
  split
  · rename_i hcs
    obtain ⟨rfl, -⟩ := List.cons.inj hcs
    cases hc
  · rename_i hcs
    obtain ⟨rfl, -⟩ := List.cons.inj hcs
    cases hc
  · rfl

end Characters

/-- Whether a token may start a text, so that nothing of it is passed over. -/
def atToken : List Char → Bool
  | [] => true
  | c :: _ => !(isBlank c || isBreak c || c == '#' || c == '\ufeff')

theorem span_spaces {p : Char → Bool} (hp : p ' ' = true) {v : List Char}
    (hv : ∀ c ∈ v.head?, p c = false) (k : ℕ) :
    (List.replicate k ' ' ++ v).span p = (List.replicate k ' ', v) := by
  have htake : v.takeWhile p = [] := by
    cases v with
    | nil => rfl
    | cons c cs => simp [hv c rfl]
  have hdrop : v.dropWhile p = v := by
    cases v with
    | nil => rfl
    | cons c cs => simp [hv c rfl]
  rw [List.span_eq_takeWhile_dropWhile, List.takeWhile_append_of_pos, List.dropWhile_append_of_pos,
    htake, hdrop, List.append_nil]
  all_goals
    intro c hc
    rw [List.eq_of_mem_replicate hc, hp]

theorem facts_of_atToken {v : List Char} (hv : atToken v = true) : ∀ c ∈ v.head?,
    isBlank c = false ∧ isBreak c = false ∧ c ≠ '#' ∧ c ≠ '\ufeff' := by
  cases v with
  | nil => simp
  | cons c cs =>
    intro d hd
    obtain rfl : c = d := by simpa using hd
    simpa [atToken, and_assoc] using hv

namespace Cursor

variable {v : List Char} {a : Bool} {fuel i l col k : ℕ}

theorem skipComment_of_atToken (hv : atToken v = true) :
    skipComment ⟨v, i, l, col⟩ = ⟨v, i, l, col⟩ := by
  unfold skipComment
  split
  · rename_i rest hrest
    obtain rfl : v = '#' :: rest := hrest
    exact absurd rfl (facts_of_atToken hv '#' rfl).2.2.1
  · rfl

/-- Where no byte order mark stands, blanks and a comment are passed over, and then a break. -/
theorem toToken_succ {c : Cursor} (h : c.rest.head? ≠ some '\ufeff') :
    toToken false (fuel + 1) a c =
      let d := (c.skipWhile fun ch => ch == ' ' || (!a && ch == '\t')).skipComment
      match d.rest with
      | [] => (a, d)
      | ch :: _ => if isBreak ch then toToken false fuel true d.newline else (a, d) := by
  have hno : ∀ tail, c.rest = '\ufeff' :: tail → False := by
    intro tail hrest
    rw [hrest] at h
    exact h rfl
  cases hrest : (c.skipWhile fun ch => ch == ' ' || (!a && ch == '\t')).skipComment.rest with
  | nil => simp only [toToken, hrest, Bool.false_or]
  | cons ch cs => simp only [toToken, hrest, Bool.false_or, Bool.not_false, Bool.or_true]

/-- Blanks in front of a token are passed over. -/
theorem toToken_blanks (hv : atToken v = true) :
    toToken false (fuel + 1) a ⟨List.replicate k ' ' ++ v, i, l, col⟩ =
      (a, ⟨v, i + k, l, col + k⟩) := by
  have hbom : (List.replicate k ' ' ++ v).head? ≠ some '\ufeff' := by
    intro h
    cases k with
    | zero => exact (facts_of_atToken hv '\ufeff' h).2.2.2 rfl
    | succ k => simp [List.replicate_succ] at h
  have hspan : (List.replicate k ' ' ++ v).span (fun ch => ch == ' ' || (!a && ch == '\t')) =
      (List.replicate k ' ', v) := by
    refine span_spaces (by simp) (fun c hc => ?_) k
    have hblank := (facts_of_atToken hv c hc).1
    simp only [isBlank, Bool.or_eq_false_iff] at hblank
    simp [hblank]
  rw [toToken_succ hbom]
  simp only [skipWhile, hspan, onLine, List.length_replicate, skipComment_of_atToken hv]
  cases v with
  | nil => rfl
  | cons c cs => simp [(facts_of_atToken hv c rfl).2.1]

/-- A break and the blanks behind it are passed over, and a key may start. -/
theorem toToken_break (hv : atToken v = true) :
    toToken false (fuel + 2) a ⟨'\n' :: (List.replicate k ' ' ++ v), i, l, col⟩ =
      (true, ⟨v, i + 1 + k, l + 1, k⟩) := by
  rw [toToken_succ (by simp)]
  simp only [skipWhile, List.span_eq_takeWhile_dropWhile, onLine, skipComment]
  simp [newline, isBreak, toToken_blanks hv]

end Cursor

section Scalars

variable {w v rest : List Char} {limit fuel i l col k : ℕ}

/-- A word ends in front of a break. -/
theorem plainWord_break (acc : List Char) (n : ℕ) (cs : List Char) :
    plainWord false acc n ('\n' :: cs) = some (acc, n, '\n' :: cs) := by
  simp [plainWord, isBlank, isBreak]

/-- A word ends in front of a colon that ends a key. -/
theorem plainWord_colon (acc : List Char) (n : ℕ) {cs : List Char} (h : atBlank cs = true) :
    plainWord false acc n (':' :: cs) = some (acc, n, ':' :: cs) := by
  simp [plainWord, isBlank, isBreak, h]

/-- A word takes all safe characters. -/
theorem plainWord_safe (hw : ∀ c ∈ w, isSafe c = true)
    (hrest : ∀ acc n, plainWord false acc n rest = some (acc, n, rest)) (acc : List Char) (n : ℕ) :
    plainWord false acc n (w ++ rest) = some (w.reverse ++ acc, n + w.length, rest) := by
  induction w generalizing acc n with
  | nil => simpa using hrest acc n
  | cons c w ih =>
    have hc := hw c (List.mem_cons_self ..)
    have hw' : ∀ d ∈ w, isSafe d = true := fun d hd => hw d (List.mem_cons_of_mem _ hd)
    rw [List.cons_append, plainWord]
    simp only [isBlank_of_safe hc, isBreak_of_safe hc, Bool.false_and, Bool.or_false,
      Bool.false_eq_true, if_false, beq_of_safe hc (by decide : isSafe ':' = false), ih hw']
    simp [Nat.add_assoc, Nat.add_comm 1]

@[simp] theorem folded_none : Gap.none.folded = [] := rfl

@[simp] theorem broken_none : Gap.none.broken = false := rfl

/-- Behind a break, a gap takes all blanks. -/
theorem readGap_blanks {indent : Option ℕ} {g : Gap} (hg : g.broken = true)
    (hv : atToken v = true) (hfuel : k < fuel) :
    readGap indent fuel g ⟨List.replicate k ' ' ++ v, i, l, col⟩ =
      some (g, ⟨v, i + k, l, col + k⟩) := by
  induction k generalizing fuel i col with
  | zero =>
    obtain ⟨fuel, rfl⟩ : ∃ n, fuel = n + 1 := ⟨fuel - 1, by omega⟩
    cases v with
    | nil => simp [readGap]
    | cons c cs =>
      obtain ⟨hblank, hbreak, -⟩ := facts_of_atToken hv c rfl
      simp [readGap, hblank, hbreak]
  | succ k ih =>
    obtain ⟨fuel, rfl⟩ : ∃ n, fuel = n + 1 := ⟨fuel - 1, by omega⟩
    have hstep : ∀ cs, readGap indent (fuel + 1) g ⟨' ' :: cs, i, l, col⟩ =
        readGap indent fuel g ⟨cs, i + 1, l, col + 1⟩ := by
      intro cs
      simp [readGap, isBlank, Gap.blank, hg, Cursor.next, Cursor.onLine]
    rw [List.replicate_succ, List.cons_append, hstep, ih (by omega), Nat.add_assoc i,
      Nat.add_assoc col, Nat.add_comm 1]

/-- A gap takes a break and the indentation behind it. -/
theorem readGap_break (indent : Option ℕ) (i l col : ℕ) (hv : atToken v = true)
    (hfuel : k + 1 < fuel) :
    ∃ g, g.broken = true ∧
      readGap indent fuel Gap.none ⟨'\n' :: (List.replicate k ' ' ++ v), i, l, col⟩ =
        some (g, ⟨v, i + 1 + k, l + 1, k⟩) := by
  obtain ⟨fuel, rfl⟩ : ∃ n, fuel = n + 1 := ⟨fuel - 1, by omega⟩
  refine ⟨Gap.none.newline '\n', rfl, ?_⟩
  have hgap : (Gap.none.newline '\n').broken = true := rfl
  simp [readGap, isBlank, isBreak, Cursor.newline, readGap_blanks hgap hv (by omega : k < fuel)]

/-- A scalar does not end where it starts. -/
theorem startsScalar_of_safe (hw : ∀ c ∈ w, isSafe c = true) (hne : w ≠ []) :
    ((col == 0 && atMarker (w ++ rest)) || (w ++ rest).head? == some '#') = false := by
  cases w with
  | nil => exact absurd rfl hne
  | cons c w =>
    have hc := hw c (List.mem_cons_self ..)
    have hcomment : (c == '#') = false := beq_of_safe hc (by decide)
    simp [not_marker_of_safe hc, beq_eq_false_iff_ne.1 hcomment]

/-- A key in plain style ends in front of its colon. -/
theorem plainScalar_key (hw : ∀ c ∈ w, isSafe c = true) (hne : w ≠ []) {indent : ℕ}
    (hrest : atBlank rest = true) :
    plainScalar false indent limit (fuel + 1) [] Gap.none ⟨w ++ ':' :: rest, i, l, col⟩ =
      some (w.reverse, false, ⟨':' :: rest, i + w.length, l, col + w.length⟩) := by
  rw [plainScalar, startsScalar_of_safe hw hne]
  simp [plainWord_safe hw fun acc n => plainWord_colon acc n hrest, hne, Cursor.onLine, isBlank,
    isBreak]

/-- A scalar in plain style takes the break behind it and the indentation of the next line. -/
theorem plainScalar_line (hw : ∀ c ∈ w, isSafe c = true) (hne : w ≠ []) {indent : ℕ}
    (hv : atToken v = true) (hk : k < indent) (hlimit : k + 1 < limit) :
    plainScalar false indent limit (fuel + 1) [] Gap.none
        ⟨w ++ '\n' :: (List.replicate k ' ' ++ v), i, l, col⟩ =
      some (w.reverse, true, ⟨v, i + w.length + 1 + k, l + 1, k⟩) := by
  obtain ⟨g, hg, hgap⟩ := readGap_break (some indent) (i + w.length) l (col + w.length) hv hlimit
  rw [plainScalar, startsScalar_of_safe hw hne]
  simp [plainWord_safe hw fun acc n => plainWord_break acc n _, hne, Cursor.onLine, isBreak,
    hgap, hg, hk]

/-- The characters inside quotes, up to the closing one. -/
theorem quotedRun_safe (hw : ∀ c ∈ w, isSafe c = true) (hfuel : w.length < fuel)
    (acc : List Char) (n : ℕ) :
    quotedRun true fuel acc n (w ++ '\'' :: '\n' :: rest) =
      some (w.reverse ++ acc, n + w.length, .quote, '\'' :: '\n' :: rest) := by
  induction w generalizing fuel acc n with
  | nil =>
    obtain ⟨fuel, rfl⟩ : ∃ n, fuel = n + 1 := ⟨fuel - 1, by simp at hfuel; omega⟩
    simp [quotedRun, isBlank, isBreak]
  | cons c w ih =>
    obtain ⟨fuel, rfl⟩ : ∃ n, fuel = n + 1 := ⟨fuel - 1, by simp at hfuel; omega⟩
    have hc := hw c (List.mem_cons_self ..)
    have hquote : c ≠ '\'' := beq_eq_false_iff_ne.1 (beq_of_safe hc (by decide))
    have hw' : ∀ d ∈ w, isSafe d = true := fun d hd => hw d (List.mem_cons_of_mem _ hd)
    have hfuel' : w.length < fuel := by simpa using hfuel
    simp [quotedRun, isBlank_of_safe hc, isBreak_of_safe hc, hquote, ih hw' hfuel', Nat.add_assoc,
      Nat.add_comm 1]

/-- A scalar in quotes, behind the opening one. -/
theorem quotedScalar_line (hw : ∀ c ∈ w, isSafe c = true) (hlimit : w.length < limit) :
    quotedScalar true limit (fuel + 1) [] ⟨w ++ '\'' :: '\n' :: rest, i, l, col + 1⟩ =
      some (w.reverse, ⟨'\n' :: rest, i + w.length + 1, l, col + 1 + w.length + 1⟩) := by
  simp [quotedScalar, quotedRun_safe hw hlimit, Cursor.onLine, Cursor.next]

end Scalars

end BeaconReplay.Yaml
