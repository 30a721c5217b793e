import BeaconReplay.Chain.Root
import BeaconReplay.Proofs.Result
import BeaconReplay.Proofs.Text.Hexadecimal
import BeaconReplay.Text.Decimal

/-!
# Numerals read back

The digits of a byte string give the byte string, and so the text of a root gives the root. The
decimal text of a number consists of digits and has no zero in front, unless it is zero.
-/
namespace BeaconReplay

namespace Root

variable (r : Root)

theorem length_toList : r.toList.length = 32 := by simp [toList]

theorem ofList?_toList : ofList? r.toList = some r := by
  obtain ⟨⟨bytes, hsize⟩⟩ := r
  simp [ofList?, toList, hsize]

/-- The table has the digits in the order of their values. -/
theorem digitTable_getD {n : UInt8} (hn : n.toNat < 16) :
    digitTable.getD n.toNat '0' = Hex.digit n := by
  have hall : ∀ k < 16, digitTable.getD k '0' = Hex.digit (UInt8.ofNat k) := by decide
  simpa using hall n.toNat hn

theorem toList_writeByte (s : String) (b : UInt8) :
    (writeByte s b).toList = s.toList ++ Hex.byteDigits b := by
  rw [writeByte, digitTable_getD (Hex.high_lt b), digitTable_getD (Hex.low_lt b)]
  simp [Hex.byteDigits]

/-- Bytes that are written one by one are written by their digits. -/
theorem toList_foldl_writeByte (bs : List UInt8) (s : String) :
    (bs.foldl writeByte s).toList = s.toList ++ Hex.digits bs := by
  induction bs generalizing s with
  | nil => simp [Hex.digits]
  | cons b bs ih =>
    rw [List.foldl_cons, ih, toList_writeByte, List.append_assoc]
    rfl

/-- The characters of the text of a root. -/
theorem toList_text : r.text.toList = '0' :: 'x' :: Hex.digits r.toList := by
  rw [text, toList_foldl_writeByte]
  rfl

/-- **A root is written as its bytes are.** -/
theorem text_eq_encode : r.text = Hex.encode r.toList := by
  rw [← String.toList_inj, toList_text, Hex.encode, String.toList_ofList]

theorem ofList?_eq_some {r : Root} {bs : List UInt8} (h : ofList? bs = some r) :
    bs.length = 32 ∧ r.toList = bs := by
  unfold ofList? at h
  split_ifs at h with hlength
  cases h
  exact ⟨hlength, by simp [toList]⟩

theorem parse?_eq (s : String) : parse? s = (Hex.decode? 32 s).bind ofList? := by
  rw [parse?, parse]
  cases (Hex.decode? 32 s).bind ofList? <;> rfl

/-- The text of a byte string is that of a root if the bytes are. -/
theorem parse?_encode (bs : List UInt8) : parse? (Hex.encode bs) = ofList? bs := by
  rw [parse?_eq, Hex.decode?_encode]
  split_ifs with hlength
  · rfl
  · simp [ofList?, hlength]

/-- **The text of a root reads back.** -/
theorem parse?_text : parse? r.text = some r := by
  rw [text_eq_encode, parse?_encode, ofList?_toList]

theorem text_inj {r s : Root} : r.text = s.text ↔ r = s := by
  constructor
  · intro h
    have hparse := congrArg parse? h
    simpa [parse?_text] using hparse
  · rintro rfl
    rfl

end Root

namespace Decimal

theorem toList_text (n : UInt64) : (text n).toList = Nat.toDigits 10 n.toNat := by
  simp [text]

/-- A decimal digit has its value. -/
theorem digit?_of_isDigit {c : Char} (h : c.isDigit = true) : digit? c = some (c.toNat - 48) := by
  simp only [Char.isDigit, Bool.and_eq_true, decide_eq_true_eq, ge_iff_le] at h
  rw [digit?, if_pos ⟨h.1, h.2⟩]

/-- Digits are accumulated to the number that they spell, unless it is too large. -/
theorem accumulate_digits {cs : List Char} (h : ∀ c ∈ cs, c.isDigit = true) {n : ℕ}
    (hn : n < wordLimit) : accumulate n cs =
      if Nat.ofDigitChars 10 cs n < wordLimit then .ok (Nat.ofDigitChars 10 cs n)
      else .error .overflow := by
  induction cs generalizing n with
  | nil => simp [accumulate, hn]
  | cons c cs ih =>
    have hc := digit?_of_isDigit (h c (List.mem_cons_self ..))
    have hcs : ∀ d ∈ cs, d.isDigit = true := fun d hd => h d (List.mem_cons_of_mem _ hd)
    have hstep : Nat.ofDigitChars 10 (c :: cs) n =
        Nat.ofDigitChars 10 cs (n * 10 + (c.toNat - 48)) := by
      rw [Nat.ofDigitChars_cons, Nat.mul_comm]
      rfl
    -- the number only grows by further digits, so one that is too large stays so
    have hgrow : n * 10 + (c.toNat - 48) ≤ Nat.ofDigitChars 10 (c :: cs) n := by
      rw [hstep, Nat.ofDigitChars_eq_ofDigitChars_zero]
      exact (Nat.le_mul_of_pos_left _ (Nat.pow_pos (by omega))).trans (Nat.le_add_right _ _)
    rw [accumulate, hc]
    by_cases hnext : n * 10 + (c.toNat - 48) < wordLimit
    · simp only [hnext, if_true, ih hcs hnext, hstep]
    · have hlarge : ¬Nat.ofDigitChars 10 (c :: cs) n < wordLimit := by omega
      simp only [hnext, hlarge, if_false]

/-- **The decimal text of a word reads back.** -/
theorem word_text (n : UInt64) : word (text n) = .ok n := by
  have hdigits : ∀ c ∈ Nat.toDigits 10 n.toNat, c.isDigit = true :=
    fun _ => Nat.isDigit_of_mem_toDigits (by omega) (by omega)
  have hword : n.toNat < wordLimit := n.toNat_lt_size
  have haccumulate := accumulate_digits (n := 0) hdigits (by decide)
  rw [Nat.ofDigitChars_ten_toDigits, if_pos hword] at haccumulate
  rw [word, toList_text]
  cases hcs : Nat.toDigits 10 n.toNat with
  | nil => exact absurd hcs Nat.toDigits_ne_nil
  | cons c cs =>
    have hsign : c ≠ '+' := by
      rintro rfl
      have hplus := hdigits '+' (by simp [hcs])
      cases hplus
    rw [hcs] at haccumulate
    simp [hsign, haccumulate]

/-- A numeral that starts with a zero is that of zero. -/
theorem toDigits_eq_zero_cons {n : ℕ} {rest : List Char} (h : Nat.toDigits 10 n = '0' :: rest) :
    n = 0 ∧ rest = [] := by
  induction n using Nat.strong_induction_on generalizing rest with
  | _ n ih =>
    by_cases hn : n < 10
    · rw [Nat.toDigits_of_lt_base hn] at h
      simp only [List.cons.injEq] at h
      obtain ⟨hdigit, hrest⟩ := h
      have hzero : ∀ k < 10, Nat.digitChar k = '0' → k = 0 := by decide
      exact ⟨hzero n hn hdigit, hrest.symm⟩
    · -- the digits in front of the last one are those of a smaller number, which is not zero
      rw [Nat.toDigits_of_base_le (by omega) (by omega)] at h
      cases hfront : Nat.toDigits 10 (n / 10) with
      | nil => exact absurd hfront Nat.toDigits_ne_nil
      | cons c cs =>
        rw [hfront, List.cons_append, List.cons.injEq] at h
        obtain ⟨rfl, -⟩ := h
        obtain ⟨hzero, -⟩ := ih (n / 10) (by omega) hfront
        omega

end Decimal

end BeaconReplay
