import BeaconReplay.Proofs.Text.Numerals

/-!
# Spellings of numbers

A word is read from decimal digits, however many zeros are in front of them, behind one plus sign or
none. Of all spellings of a word, the one that is written has neither a sign nor a zero in front.
-/
namespace BeaconReplay.Decimal

variable {s : String} {ds cs : List Char} {n m : ℕ} {w : UInt64}

/-- A text that spells a number: one decimal digit or more, behind one plus sign or none. -/
def Spells (s : String) (n : ℕ) : Prop :=
  ∃ ds : List Char, (s.toList = ds ∨ s.toList = '+' :: ds) ∧ ds ≠ [] ∧
    (∀ c ∈ ds, c.isDigit = true) ∧ Nat.ofDigitChars 10 ds 0 = n

/-- A text has neither a sign in front nor a zero in front of another digit. -/
def Plain (s : String) : Prop :=
  s.toList.head? ≠ some '+' ∧ (s.toList.head? = some '0' → s.toList = ['0'])

/-! ## Digits -/

/-- A character without a value is no digit. -/
theorem digit?_eq_none {c : Char} (h : c.isDigit = false) : digit? c = none := by
  rw [digit?, if_neg]
  rintro ⟨hlow, hhigh⟩
  have hdigit : c.isDigit = true := by
    simp only [Char.isDigit, Bool.and_eq_true, decide_eq_true_eq, ge_iff_le]
    exact ⟨hlow, hhigh⟩
  rw [h] at hdigit
  cases hdigit

/-- What is accumulated consists of digits. -/
theorem isDigit_of_accumulate (h : accumulate n cs = .ok m) : ∀ c ∈ cs, c.isDigit = true := by
  induction cs generalizing n with
  | nil => exact List.forall_mem_nil _
  | cons c cs ih =>
    rw [accumulate] at h
    cases hc : c.isDigit with
    | false =>
      rw [digit?_eq_none hc] at h
      cases h
    | true =>
      rw [digit?_of_isDigit hc] at h
      dsimp only at h
      split_ifs at h
      exact List.forall_mem_cons.2 ⟨hc, ih h⟩

/-- Characters are accumulated to a number if they are digits that spell it and it is no larger than
a word. -/
theorem accumulate_eq_ok_iff : accumulate 0 cs = .ok m ↔
    (∀ c ∈ cs, c.isDigit = true) ∧ Nat.ofDigitChars 10 cs 0 = m ∧ m < wordLimit := by
  constructor
  · intro h
    have hdigits := isDigit_of_accumulate h
    rw [accumulate_digits hdigits (by decide)] at h
    split_ifs at h with hlimit
    cases h
    exact ⟨hdigits, rfl, hlimit⟩
  · rintro ⟨hdigits, rfl, hlimit⟩
    rw [accumulate_digits hdigits (by decide), if_pos hlimit]

theorem accumulate_word_eq_ok_iff : (accumulate 0 cs).map Nat.toUInt64 = .ok w ↔
    (∀ c ∈ cs, c.isDigit = true) ∧ Nat.ofDigitChars 10 cs 0 = w.toNat := by
  rw [Result.map_eq_ok_iff]
  simp only [accumulate_eq_ok_iff]
  constructor
  · rintro ⟨m, ⟨hdigits, hvalue, hlimit⟩, rfl⟩
    exact ⟨hdigits, by rw [hvalue]; exact (UInt64.toNat_ofNat_of_lt' hlimit).symm⟩
  · rintro ⟨hdigits, hvalue⟩
    exact ⟨w.toNat, ⟨hdigits, hvalue, w.toNat_lt_size⟩, UInt64.ofNat_toNat⟩

theorem spells_of_digits (hs : s.toList = ds) (hne : ds ≠ []) (hsign : ds.head? ≠ some '+') :
    Spells s n ↔ (∀ c ∈ ds, c.isDigit = true) ∧ Nat.ofDigitChars 10 ds 0 = n := by
  constructor
  · rintro ⟨es, hsame | hplus, -, hdigits, hvalue⟩
    · rw [hs] at hsame
      subst hsame
      exact ⟨hdigits, hvalue⟩
    · rw [← hs, hplus] at hsign
      exact absurd rfl hsign
  · rintro ⟨hdigits, hvalue⟩
    exact ⟨ds, .inl hs, hne, hdigits, hvalue⟩

theorem spells_of_plus (hs : s.toList = '+' :: ds) (hne : ds ≠ []) :
    Spells s n ↔ (∀ c ∈ ds, c.isDigit = true) ∧ Nat.ofDigitChars 10 ds 0 = n := by
  constructor
  · rintro ⟨es, hsame | hplus, -, hdigits, hvalue⟩
    · -- a plus sign is no digit
      rw [hs] at hsame
      have hsign := hdigits '+' (hsame ▸ List.mem_cons_self)
      cases hsign
    · rw [hs, List.cons.injEq] at hplus
      obtain rfl := hplus.2
      exact ⟨hdigits, hvalue⟩
  · rintro ⟨hdigits, hvalue⟩
    exact ⟨ds, .inr hs, hne, hdigits, hvalue⟩

/-- **A word is read from its spellings and from no other text.** -/
theorem word_eq_ok_iff : word s = .ok w ↔ Spells s w.toNat := by
  rw [word]
  split
  · next hs =>
    refine iff_of_false (by simp) ?_
    rintro ⟨ds, hsame | hplus, hne, -⟩
    · exact hne (hsame.symm.trans hs)
    · rw [hs] at hplus
      cases hplus
  · next hs =>
    refine iff_of_false (by simp) ?_
    rintro ⟨ds, hsame | hplus, hne, hdigits, -⟩
    · rw [hs] at hsame
      have hsign := hdigits '+' (hsame ▸ List.mem_cons_self)
      cases hsign
    · rw [hs, List.cons.injEq] at hplus
      exact hne hplus.2.symm
  · next ds hlone hs =>
    have hne : ds ≠ [] := fun hnil => hlone (hnil ▸ rfl)
    rw [spells_of_plus hs hne, accumulate_word_eq_ok_iff]
  · next hempty hlone hsign =>
    have hhead : s.toList.head? ≠ some '+' := by
      intro hhead
      obtain ⟨ds, hds⟩ := List.head?_eq_some_iff.1 hhead
      exact hsign ds hds
    rw [spells_of_digits rfl hempty hhead, accumulate_word_eq_ok_iff]

/-! ## The spelling that is written -/

/-- Digits without a zero in front are those of their number. -/
theorem toDigits_ofDigitChars (hne : ds ≠ []) (hdigits : ∀ c ∈ ds, c.isDigit = true)
    (hzero : ds.head? = some '0' → ds = ['0']) :
    Nat.toDigits 10 (Nat.ofDigitChars 10 ds 0) = ds := by
  have hchar : ∀ c : Char, c.isDigit = true → c.toNat - 48 < 10 ∧
      Nat.digitChar (c.toNat - 48) = c := by
    intro c hc
    have hall : ∀ k < 10, Nat.digitChar k = Char.ofNat (k + 48) := by decide
    simp only [Char.isDigit, Bool.and_eq_true, decide_eq_true_eq, ge_iff_le] at hc
    have hlow : 48 ≤ c.toNat := hc.1
    have hhigh : c.toNat ≤ 57 := hc.2
    refine ⟨by omega, ?_⟩
    rw [hall _ (by omega), Nat.sub_add_cancel hlow, Char.ofNat_toNat]
  induction ds using List.reverseRecOn with
  | nil => exact absurd rfl hne
  | append_singleton ds c ih =>
    obtain ⟨hlt, hc⟩ := hchar c (hdigits c (by simp))
    rw [Nat.ofDigitChars_append, Nat.ofDigitChars_cons, Nat.ofDigitChars_nil]
    change Nat.toDigits 10 (10 * Nat.ofDigitChars 10 ds 0 + (c.toNat - 48)) = _
    by_cases hds : ds = []
    · subst hds
      rw [Nat.ofDigitChars_nil, Nat.mul_zero, Nat.zero_add, Nat.toDigits_of_lt_base hlt, hc]
      rfl
    · -- the digits in front of the last one are those of a number that is not zero
      have hfront := ih hds (fun d hd => hdigits d (List.mem_append_left _ hd)) fun hhead => by
        have hall := hzero (by rw [List.head?_append_of_ne_nil _ hds, hhead])
        simpa [hds] using congrArg List.length hall
      have hpos : 0 < Nat.ofDigitChars 10 ds 0 := by
        refine Nat.pos_of_ne_zero fun hvalue => ?_
        rw [hvalue] at hfront
        have hhead : ds.head? = some '0' := by rw [← hfront]; rfl
        have hall := hzero (by rw [List.head?_append_of_ne_nil _ hds, hhead])
        simpa [hds] using congrArg List.length hall
      rw [Nat.toDigits_of_base_le (by omega) (by omega), Nat.mul_add_mod, Nat.mod_eq_of_lt hlt,
        Nat.mul_add_div (by omega), Nat.div_eq_of_lt hlt, Nat.add_zero, hfront, hc]

/-- **Of the spellings of a word, the one that is written is plain, and no other one is.** -/
theorem eq_text_iff : s = text w ↔ Spells s w.toNat ∧ Plain s := by
  constructor
  · rintro rfl
    refine ⟨word_eq_ok_iff.1 (word_text w), ?_, ?_⟩
    · rw [toList_text]
      intro hhead
      have hsign := Nat.isDigit_of_mem_toDigits (by omega) (by omega) (List.mem_of_mem_head? hhead)
      cases hsign
    · rw [toList_text]
      intro hhead
      obtain ⟨rest, hrest⟩ := List.head?_eq_some_iff.1 hhead
      rw [hrest, (toDigits_eq_zero_cons hrest).2]
  · rintro ⟨⟨ds, hsame | hplus, hne, hdigits, hvalue⟩, hsign, hzero⟩
    · subst hsame
      have hwritten := toDigits_ofDigitChars hne hdigits hzero
      rw [← String.toList_inj, toList_text, ← hvalue, hwritten]
    · rw [hplus] at hsign
      exact absurd rfl hsign

end BeaconReplay.Decimal
