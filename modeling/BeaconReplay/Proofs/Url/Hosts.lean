import BeaconReplay.Proofs.Result
import BeaconReplay.Proofs.Text.Encoding
import BeaconReplay.Url.Host

/-!
# Texts that are no host

A character below the first visible one is never part of an escape, and its byte is never part of
another character. So it survives decoding, and no domain may hold it: a text that ends in such a
character is no host of a special scheme, whatever stands in front of it.
-/
namespace BeaconReplay

namespace Utf8

/-- The bytes that may follow the first one of a character lie outside of ASCII. -/
theorem low_of_lead? {b n v low high : ℕ} (h : lead? b = some (n, v, low, high)) : 0x80 ≤ low := by
  unfold lead? at h
  split_ifs at h <;> simp only [Option.some.injEq, Prod.mk.injEq] at h <;> omega

/-- The rest of a character takes no ASCII byte away. -/
theorem mem_continue? {n v low high : ℕ} {bs : List UInt8} {b : UInt8} (hlow : 0x80 ≤ low)
    (hb : b ∈ bs) (hascii : b.toNat < 0x80) : b ∈ (continue? n v low high bs).2 := by
  induction n generalizing v low high bs with
  | zero => exact hb
  | succ n ih =>
    cases bs with
    | nil => cases hb
    | cons c cs =>
      rw [continue?]
      split_ifs with hrange
      · simp only [Bool.and_eq_true, decide_eq_true_eq] at hrange
        rcases List.mem_cons.1 hb with rfl | hcs
        · omega
        · exact ih le_rfl hcs
      · exact hb

theorem length_continue?_le (n v low high : ℕ) (bs : List UInt8) :
    (continue? n v low high bs).2.length ≤ bs.length := by
  induction n generalizing v low high bs with
  | zero => exact le_rfl
  | succ n ih =>
    cases bs with
    | nil => exact le_rfl
    | cons c cs =>
      rw [continue?]
      split_ifs
      · exact (ih ..).trans (Nat.le_succ _)
      · exact le_rfl

/-- What follows a first character. -/
theorem next_rest {b c : UInt8} {bs : List UInt8} (hb : b ∈ bs) (hascii : b.toNat < 0x80) :
    b ∈ (next c bs).2 := by
  rw [next]
  cases hlead : lead? c.toNat with
  | none => exact hb
  | some lead =>
    obtain ⟨n, v, low, high⟩ := lead
    exact mem_continue? (low_of_lead? hlead) hb hascii

theorem length_next_le (c : UInt8) (bs : List UInt8) : (next c bs).2.length ≤ bs.length := by
  rw [next]
  cases lead? c.toNat with
  | none => exact le_rfl
  | some lead => exact length_continue?_le ..

/-- An ASCII byte is a character of its own. -/
theorem mem_charsFrom_of_ascii {b : UInt8} {bs : List UInt8} {fuel : ℕ} (hb : b ∈ bs)
    (hascii : b.toNat < 0x80) (hfuel : bs.length ≤ fuel) :
    some (Char.ofNat b.toNat) ∈ charsFrom fuel bs := by
  induction fuel generalizing bs with
  | zero =>
    rw [List.length_eq_zero_iff.1 (Nat.le_zero.1 hfuel)] at hb
    cases hb
  | succ fuel ih =>
    cases bs with
    | nil => cases hb
    | cons c cs =>
      rw [charsFrom]
      rcases List.mem_cons.1 hb with rfl | hcs
      · rw [next, lead?_one hascii]
        exact List.mem_cons_self
      · have hrest : (next c cs).2.length ≤ fuel :=
          (length_next_le c cs).trans (Nat.le_of_succ_le_succ hfuel)
        exact List.mem_cons_of_mem _ (ih (next_rest hcs hascii) hrest)

theorem mem_of_mapM_id {α : Type} {xs : List (Option α)} {ys : List α} {x : α}
    (h : xs.mapM id = some ys) (hx : some x ∈ xs) : x ∈ ys := by
  induction xs generalizing ys with
  | nil => cases hx
  | cons y xs ih =>
    simp only [List.mapM_cons, id, Option.bind_eq_bind, Option.bind_eq_some_iff, Option.pure_def,
      Option.some.injEq] at h
    obtain ⟨z, rfl, zs, hzs, rfl⟩ := h
    rcases List.mem_cons.1 hx with heq | hx
    · cases heq
      exact List.mem_cons_self
    · exact List.mem_cons_of_mem _ (ih hzs hx)

/-- The text of bytes holds the character of each ASCII byte. -/
theorem mem_decode?_of_ascii {b : UInt8} {bs : List UInt8} {s : String} (h : decode? bs = some s)
    (hb : b ∈ bs) (hascii : b.toNat < 0x80) : Char.ofNat b.toNat ∈ s.toList := by
  rw [decode?, Option.map_eq_some_iff] at h
  obtain ⟨cs, hcs, rfl⟩ := h
  have hmem := mem_charsFrom_of_ascii hb hascii le_rfl
  rw [String.toList_ofList]
  exact mem_of_mapM_id hcs hmem

end Utf8

namespace Percent

/-- The bytes of a character that is no part of an escape are left by the escapes around it. -/
theorem encodeChar_subset_decode {x : Char} {cs : List Char} (hdigit : Hex.value? x = none)
    (hpercent : x ≠ '%') (hx : x ∈ cs) : Utf8.encodeChar x ⊆ decode cs := by
  fun_induction decode cs with
  | case1 => cases hx
  | case2 a b rest u v hb ha ih =>
    have hne : x ≠ a ∧ x ≠ b := by
      constructor
      · rintro rfl
        rw [hdigit] at ha
        cases ha
      · rintro rfl
        rw [hdigit] at hb
        cases hb
    have hrest : x ∈ rest := by simpa [hpercent, hne] using hx
    exact List.subset_cons_of_subset _ (ih hrest)
  | case3 a b rest hno ih =>
    have hrest : x ∈ a :: b :: rest := by simpa [hpercent] using hx
    exact List.subset_cons_of_subset _ (ih hrest)
  | case4 c rest hno ih =>
    rcases List.mem_cons.1 hx with rfl | hrest
    · exact List.subset_append_left ..
    · exact List.subset_append_of_subset_right _ (ih hrest)

end Percent

namespace Host

/-- Whether a character is a blank or a control character, as are cut off from the ends of a URL. -/
def isBlank (c : Char) : Bool := c.toNat ≤ 0x20

variable {x : Char} {cs : List Char} {address : Host}

theorem toNat_of_isBlank (hx : isBlank x = true) : x.toNat < 0x21 :=
  Nat.lt_succ_of_le (of_decide_eq_true hx)

/-- A blank has no part in an escape. -/
theorem value?_of_isBlank (hx : isBlank x = true) : Hex.value? x = none := by
  have hall : ∀ n < 0x21, Hex.value? (Char.ofNat n) = none := by decide
  simpa using hall x.toNat (toNat_of_isBlank hx)

theorem ne_of_isBlank {c : Char} (hx : isBlank x = true) (hc : isBlank c = false) : x ≠ c := by
  rintro rfl
  rw [hx] at hc
  cases hc

/-- The byte of an ASCII character is the number of the character. -/
theorem mem_encodeChar_of_ascii (hx : x.toNat < 0x80) :
    ∃ b ∈ Utf8.encodeChar x, b.toNat = x.toNat := by
  have hbytes : Utf8.encodeChar x = String.utf8EncodeChar x := by
    have h := Utf8.encode_eq (String.singleton x)
    rwa [String.toList_singleton, List.flatMap_singleton] at h
  have hascii : x.val.toNat ≤ 0x7F := Nat.le_of_lt_succ hx
  rw [hbytes, String.utf8EncodeChar, if_pos hascii]
  exact ⟨_, List.mem_singleton_self _, Utf8.toNat_ofNat (hx.trans (by decide))⟩

/-- Whether a character stands in no domain, escapes around it or not. -/
def isBarred (x : Char) : Bool :=
  x.toNat < 0x80 && (Hex.value? x).isNone && x != '%' && isForbidden x

theorem isBarred_of_isBlank (hx : isBlank x = true) : isBarred x = true := by
  have hall : ∀ n < 0x21, isBarred (Char.ofNat n) = true := by decide
  simpa using hall x.toNat (toNat_of_isBlank hx)

/-- Brackets end in a bracket. -/
theorem unbracketed?_of_last (hx : x ≠ ']') (cs : List Char) : unbracketed? (cs ++ [x]) = none := by
  cases cs with
  | nil => by_cases h : x = '[' <;> simp [unbracketed?, h]
  | cons c cs => by_cases h : c = '[' <;> simp [unbracketed?, h, hx]

variable [Tables]

theorem not_mem_of_domain (h : ofSpecial cs = .ok address) (hhead : cs.head? ≠ some '[')
    (hx : isBarred x = true) : x ∉ cs := by
  intro hmem
  simp only [isBarred, Bool.and_eq_true, decide_eq_true_eq, Option.isNone_iff_eq_none,
    bne_iff_ne] at hx
  obtain ⟨⟨⟨hascii, hdigit⟩, hpercent⟩, hforbidden⟩ := hx
  rw [ofSpecial, if_neg hhead] at h
  cases hdecode : Utf8.decode? (Percent.decode cs) with
  | none =>
    rw [hdecode] at h
    cases h
  | some name =>
    obtain ⟨b, hb, hnat⟩ := mem_encodeChar_of_ascii hascii
    have hbyte := Percent.encodeChar_subset_decode hdigit hpercent hmem hb
    have hname : x ∈ name.toList := by
      have h := Utf8.mem_decode?_of_ascii hdecode hbyte (hnat ▸ hascii)
      rwa [hnat, Char.ofNat_toNat] at h
    have hany : name.toList.any isForbidden = true := List.any_eq_true.2 ⟨x, hname, hforbidden⟩
    simp [hdecode, hany] at h

/-- No text that ends in a blank is a host of a special scheme. -/
theorem ofSpecial_of_blank (hx : isBlank x = true) (cs : List Char) :
    ∃ fault, ofSpecial (cs ++ [x]) = .error fault := by
  have hne : x ≠ ']' := ne_of_isBlank hx rfl
  rw [ofSpecial]
  split_ifs with hbracket
  · refine ⟨.invalidIpv6, ?_⟩
    simp [ofBrackets, unbracketed?_of_last hne cs]
  · cases hhost : ofSpecial (cs ++ [x]) with
    | ok address =>
      exact absurd (by simp) (not_mem_of_domain hhost hbracket (isBarred_of_isBlank hx))
    | error fault =>
      rw [ofSpecial, if_neg hbracket] at hhost
      exact ⟨fault, hhost⟩

end Host

end BeaconReplay
