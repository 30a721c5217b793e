import BeaconReplay.Text.Utf8
import Mathlib

/-!
# Texts as bytes and back

The bytes of a text are those of its characters, one character after the other. Each character is
read back from its bytes, so the bytes of a text hold no mistake, and a body that is a text is read
as that text.
-/
namespace BeaconReplay

namespace Utf8

/-! ## The bytes of a text -/

theorem toList_loop (bs : ByteArray) (i : ℕ) (done : List UInt8) :
    ByteArray.toList.loop bs i done = done.reverse ++ bs.data.toList.drop i := by
  fun_induction ByteArray.toList.loop bs i done with
  | case1 i done hlt ih =>
    have hbound : i < bs.data.toList.length := by simpa using hlt
    have hget : bs.get! i = bs.data.toList[i] := getElem!_pos bs.data i (by simpa using hlt)
    rw [ih, List.drop_eq_getElem_cons hbound, hget]
    simp
  | case2 i done hge =>
    have hnone : bs.data.toList.length ≤ i := by simpa using hge
    rw [List.drop_eq_nil_of_le hnone, List.append_nil]

theorem toList_eq (bs : ByteArray) : bs.toList = bs.data.toList := by
  rw [ByteArray.toList, toList_loop]
  rfl

/-- The bytes of a text are those of its characters. -/
theorem encode_eq (s : String) : encode s = s.toList.flatMap String.utf8EncodeChar := by
  obtain ⟨cs, rfl⟩ := s.exists_eq_ofList
  rw [encode, String.toUTF8_eq_toByteArray, String.toByteArray_ofList, List.utf8Encode, toList_eq,
    List.toList_data_toByteArray, String.toList_ofList]

theorem length_encode (s : String) : (encode s).length = s.utf8ByteSize := by
  rw [encode, toList_eq, Array.length_toList]
  rfl

/-- A text is made of its bytes. -/
theorem fromUTF8?_encode (s : String) : String.fromUTF8? ⟨(encode s).toArray⟩ = some s := by
  have hbytes : (⟨(encode s).toArray⟩ : ByteArray) = s.toByteArray := by
    rw [encode, toList_eq, Array.toArray_toList]
    rfl
  rw [hbytes, String.fromUTF8?, dif_pos s.isValidUTF8]
  rfl

/-! ## Reading characters back -/

/-- A byte of a range that is given by its number. -/
theorem toNat_ofNat {n : ℕ} (h : n < 256) : (UInt8.ofNat n).toNat = n := by
  rw [UInt8.toNat_ofNat']
  exact Nat.mod_eq_of_lt h

/-- One more byte of a character. -/
theorem continue?_succ {n v low high b : ℕ} (hlow : low ≤ b) (hhigh : b ≤ high) (hb : b < 256)
    (bs : List UInt8) : continue? (n + 1) v low high (UInt8.ofNat b :: bs) =
      continue? n (v * 64 + (b - 0x80)) 0x80 0xBF bs := by
  simp [continue?, toNat_ofNat hb, hlow, hhigh]

/-- The number of a character lies outside of the surrogates. -/
theorem toNat_cases (c : Char) :
    c.toNat < 0xD800 ∨ 0xDFFF < c.toNat ∧ c.toNat < 0x110000 := c.valid

theorem lead?_one {n : ℕ} (h : n < 0x80) : lead? n = some (0, n, 0x80, 0xBF) := by
  rw [lead?, if_pos h]

theorem lead?_two {k : ℕ} (hlow : 2 ≤ k) (hhigh : k < 32) :
    lead? (k + 0xC0) = some (1, k, 0x80, 0xBF) := by
  rw [lead?, if_neg (by omega), if_neg (by omega), if_pos (by omega), Nat.add_sub_cancel]

/-- The range of the second of three bytes keeps out what fits in two, and the surrogates. -/
theorem lead?_three {k : ℕ} (h : k < 16) : lead? (k + 0xE0) = some (2, k,
    if k = 0 then 0xA0 else 0x80, if k = 13 then 0x9F else 0xBF) := by
  have hall : ∀ k < 16, lead? (k + 0xE0) = some (2, k,
    if k = 0 then 0xA0 else 0x80, if k = 13 then 0x9F else 0xBF) := by decide
  exact hall k h

/-- The range of the second of four bytes keeps out what fits in three, and what lies beyond the
last character. -/
theorem lead?_four {k : ℕ} (h : k < 5) : lead? (k + 0xF0) = some (3, k,
    if k = 0 then 0x90 else 0x80, if k = 4 then 0x8F else 0xBF) := by
  have hall : ∀ k < 5, lead? (k + 0xF0) = some (3, k,
    if k = 0 then 0x90 else 0x80, if k = 4 then 0x8F else 0xBF) := by decide
  exact hall k h

/-- A character is read back from its bytes. -/
theorem next_utf8EncodeChar (c : Char) (rest : List UInt8) : ∃ b bs,
    String.utf8EncodeChar c = b :: bs ∧ next b (bs ++ rest) = (some c, rest) := by
  have hvalid := toNat_cases c
  have hc : Char.ofNat c.toNat = c := Char.ofNat_toNat c
  have hval : c.val.toNat = c.toNat := rfl
  generalize c.toNat = v at hvalid hc hval
  unfold String.utf8EncodeChar
  rw [hval]
  by_cases hone : v ≤ 0x7F
  · refine ⟨UInt8.ofNat v, [], by simp [hone], ?_⟩
    rw [next, toNat_ofNat (by omega), lead?_one (by omega)]
    simp [continue?, hc]
  by_cases htwo : v ≤ 0x7FF
  · refine ⟨_, _, by simp only [hone, htwo, if_true, if_false]; rfl, ?_⟩
    have hlead : v / 64 % 32 = v / 64 := Nat.mod_eq_of_lt (by omega)
    have hv : v / 64 * 64 + (v % 64 + 0x80 - 0x80) = v := by omega
    rw [hlead, next, toNat_ofNat (by omega), lead?_two (by omega) (by omega)]
    simp only [List.cons_append, List.nil_append]
    rw [continue?_succ (by omega) (by omega) (by omega), hv, continue?, hc]
  by_cases hthree : v ≤ 0xFFFF
  · refine ⟨_, _, by simp only [hone, htwo, hthree, if_true, if_false]; rfl, ?_⟩
    have hlead : v / 4096 % 16 = v / 4096 := Nat.mod_eq_of_lt (by omega)
    have hv : (v / 4096 * 64 + (v / 64 % 64 + 0x80 - 0x80)) * 64 + (v % 64 + 0x80 - 0x80) = v := by
      omega
    rw [hlead, next, toNat_ofNat (by omega), lead?_three (by omega)]
    simp only [List.cons_append, List.nil_append]
    rw [continue?_succ (by split <;> omega) (by split <;> omega) (by omega),
      continue?_succ (by omega) (by omega) (by omega), hv, continue?, hc]
  · refine ⟨_, _, by simp only [hone, htwo, hthree, if_false]; rfl, ?_⟩
    have hlead : v / 262144 % 8 = v / 262144 := Nat.mod_eq_of_lt (by omega)
    have hv : ((v / 262144 * 64 + (v / 4096 % 64 + 0x80 - 0x80)) * 64 +
        (v / 64 % 64 + 0x80 - 0x80)) * 64 + (v % 64 + 0x80 - 0x80) = v := by
      omega
    rw [hlead, next, toNat_ofNat (by omega), lead?_four (by omega)]
    simp only [List.cons_append, List.nil_append]
    rw [continue?_succ (by split <;> omega) (by split <;> omega) (by omega),
      continue?_succ (by omega) (by omega) (by omega),
      continue?_succ (by omega) (by omega) (by omega), hv, continue?, hc]

theorem charsFrom_flatMap (cs : List Char) {fuel : ℕ}
    (h : (cs.flatMap String.utf8EncodeChar).length ≤ fuel) :
    charsFrom fuel (cs.flatMap String.utf8EncodeChar) = cs.map some := by
  induction cs generalizing fuel with
  | nil => cases fuel <;> rfl
  | cons c cs ih =>
    obtain ⟨b, bs, hbytes, hnext⟩ := next_utf8EncodeChar c (cs.flatMap String.utf8EncodeChar)
    simp only [List.flatMap_cons, hbytes, List.cons_append, List.length_cons,
      List.length_append] at h
    obtain ⟨fuel, rfl⟩ : ∃ n, fuel = n + 1 := ⟨fuel - 1, by omega⟩
    have hrest : charsFrom fuel (cs.flatMap String.utf8EncodeChar) = cs.map some := ih (by omega)
    rw [List.flatMap_cons, hbytes, List.cons_append, charsFrom, hnext]
    exact congrArg (some c :: ·) hrest

/-- **The bytes of a text hold its characters and no mistake.** -/
theorem chars_encode (s : String) : chars (encode s) = s.toList.map some := by
  rw [chars, encode_eq, charsFrom_flatMap _ le_rfl]

end Utf8

end BeaconReplay
