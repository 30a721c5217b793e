import BeaconReplay.Proofs.Json.Reading
import BeaconReplay.Proofs.Text.Decimals

/-!
# Numerals of words

A numeral has one spelling for each word: it has no leading zero and no plus sign, and a point, an
exponent, a minus sign or a size beyond the words makes it a number of another sort. So the numeral
of a word is its decimal text and no other text.
-/
namespace BeaconReplay

namespace Numeral

variable {num : Numeral} {negative : Bool} {cs rest : List Char} {s : String} {w : UInt64}

theorem isDigit_eq (c : Char) : isDigit c = c.isDigit := by
  rw [Bool.eq_iff_iff]
  simp [isDigit, Char.isDigit, Char.le_def]

theorem digitsValue_eq (ds : List Char) : digitsValue ds = Nat.ofDigitChars 10 ds 0 := by
  rw [Nat.ofDigitChars_eq_foldl]
  simp only [digitsValue, Nat.mul_comm, Char.reduceToNat]

/-- A numeral without a point has been read to where the point would stand. -/
theorem eq_of_fraction? (h : fraction? cs = some (none, rest)) : rest = cs := by
  unfold fraction? at h
  split at h
  · split at h <;> cases h
  · cases h
    rfl

theorem eq_of_exponent? (h : exponent? cs = some (none, rest)) : rest = cs := by
  unfold exponent? at h
  dsimp only at h
  split at h
  · split at h <;> split at h <;> cases h
  · split at h <;> split at h <;> cases h
  · cases h
    rfl

/-- A numeral without a point and without an exponent is a run of digits, the first of which is a
zero only if it is the only one. -/
theorem digits_of_unsigned? (h : unsigned? negative cs = some (num, rest))
    (hfraction : num.fraction = none) (hexponent : num.exponent = none) :
    num.negative = negative ∧ cs = num.whole ++ rest ∧ num.whole ≠ [] ∧
      (∀ c ∈ num.whole, c.isDigit = true) ∧ (num.whole.head? = some '0' → num.whole = ['0']) := by
  have hsplit : splitDigits cs = (cs.takeWhile isDigit, cs.dropWhile isDigit) :=
    List.span_eq_takeWhile_dropWhile ..
  rw [unsigned?] at h
  split at h
  · cases h
  · cases h
  · next ds behind hne hzero hds =>
    obtain ⟨⟨frac, afterPoint⟩, hfrac, h⟩ := Option.bind_eq_some_iff.1 h
    obtain ⟨⟨exp, afterExponent⟩, hexp, h⟩ := Option.bind_eq_some_iff.1 h
    cases h
    obtain rfl : frac = none := hfraction
    obtain rfl : exp = none := hexponent
    obtain rfl := eq_of_fraction? hfrac
    obtain rfl := eq_of_exponent? hexp
    rw [hsplit, Prod.mk.injEq] at hds
    obtain ⟨rfl, rfl⟩ := hds
    refine ⟨rfl, List.takeWhile_append_dropWhile.symm, hne, fun c hc => ?_, fun hhead => ?_⟩
    · rw [← isDigit_eq]
      exact List.mem_takeWhile_imp hc
    · obtain ⟨tail, htail⟩ := List.head?_eq_some_iff.1 hhead
      cases tail with
      | nil => exact htail
      | cons d tail => exact absurd htail (hzero d tail)

/-- **The number of a numeral is a word if and only if the numeral is the decimal text of it.** -/
theorem value?_eq_word_iff (h : read? s.toList = some (num, [])) :
    num.value? = some (.integer w.toNat) ↔ s = Decimal.text w := by
  constructor
  · intro hvalue
    unfold value? at hvalue
    dsimp only at hvalue
    split_ifs at hvalue with hword hnegative
    · simp only [Bool.and_eq_true, Option.isNone_iff_eq_none, Bool.not_eq_true'] at hword
      obtain ⟨⟨⟨hfraction, hexponent⟩, hsign⟩, -⟩ := hword
      have hmagnitude : digitsValue num.whole = w.toNat := by simpa using hvalue
      have hunsigned : ∃ negative cs, unsigned? negative cs = some (num, []) ∧
          (negative = false → s.toList = cs) := by
        unfold read? at h
        split at h
        · exact ⟨true, _, h, fun hsign => by cases hsign⟩
        · exact ⟨false, _, h, fun _ => rfl⟩
      obtain ⟨negative, cs, hread, hcs⟩ := hunsigned
      obtain ⟨hsame, hall, hne, hdigits, hzero⟩ := digits_of_unsigned? hread hfraction hexponent
      rw [List.append_nil] at hall
      have hs : s.toList = num.whole := (hcs (hsame.symm.trans hsign)).trans hall
      refine Decimal.eq_text_iff.2 ⟨⟨num.whole, .inl hs, hne, hdigits, ?_⟩, ?_, hs ▸ hzero⟩
      · rw [← digitsValue_eq, hmagnitude]
      · intro hhead
        have hplus := hdigits '+' (List.mem_of_mem_head? (hs ▸ hhead))
        cases hplus
    · -- a number below zero is no word
      simp only [Bool.and_eq_true, decide_eq_true_eq] at hnegative
      have hpos : 0 < digitsValue num.whole := hnegative.1.2
      simp only [Option.some.injEq, JsonNumber.integer.injEq] at hvalue
      omega
    · obtain ⟨x, -, hx⟩ := Option.map_eq_some_iff.1 hvalue
      cases hx
  · rintro rfl
    have hread := read?_toDigits w.toNat Json.Document.closed_nil
    rw [List.append_nil, ← Decimal.toList_text, h] at hread
    cases hread
    rw [Decimal.toList_text]
    exact value?_toDigits w.toNat_lt_size

end Numeral

namespace Json.Document

variable {s : String} {num : Numeral}

theorem exists_cons_of_read? {cs rest : List Char} (h : Numeral.read? cs = some (num, rest)) :
    ∃ c behind, cs = c :: behind ∧ startsNumeral c = true := by
  unfold Numeral.read? at h
  split at h
  · exact ⟨_, _, rfl, rfl⟩
  · cases cs with
    | nil => cases h
    | cons c behind =>
      refine ⟨c, behind, rfl, ?_⟩
      by_contra hc
      rw [startsNumeral, Bool.or_eq_true, not_or, Bool.not_eq_true, Bool.not_eq_true] at hc
      simp [Numeral.unsigned?, Numeral.splitDigits, List.span_eq_takeWhile_dropWhile, hc.2] at h

/-- A text that is a numeral is read as its number. -/
theorem ofString_numeral (h : Numeral.read? s.toList = some (num, [])) :
    ofString s = ⟨.number num.value?, true⟩ := by
  obtain ⟨c, cs, hs, hc⟩ := exists_cons_of_read? h
  rw [hs] at h
  rw [ofString, ofChars, hs, readValue_numeral hc h]
  rfl

/-- A text that is a string between quotes is read as that string. -/
theorem ofString_string (s : String) :
    ofString (Json.string s).text = ⟨.string (some s), true⟩ := by
  rw [ofString, Json.text, String.toList_ofList, ofChars_chars rfl, ofValue]

end Json.Document

end BeaconReplay
