import BeaconReplay.Proofs.Text.Hexadecimal

/-!
# Numbers in base sixteen

The digits of a byte string spell the number whose bytes these are, so reading eight digits as one
number and taking its bytes apart is reading them pair by pair. Alone the reader of numbers would
take a sign in front; behind the check that there are only digits it never meets one.
-/
namespace BeaconReplay.Hex

theorem isDigit_iff {b : UInt8} : isDigit b = true ↔ nibble? b ≠ none := by
  have hall : ∀ k < 256, isDigit (UInt8.ofNat k) = true ↔ nibble? (UInt8.ofNat k) ≠ none := by
    decide +kernel
  simpa using hall b.toNat b.toNat_lt

/-- The check of the digits is passed by the texts that are read pair by pair, and by no others. -/
theorem all_isDigit_iff {n : ℕ} {s : String} :
    (digitBytes s).length = 2 * n ∧ (digitBytes s).all isDigit = true ↔
      ∃ bs, decode? n s = some bs := by
  rw [decode?]
  constructor
  · rintro ⟨hlength, hall⟩
    rw [if_pos hlength]
    exact exists_pairs? hlength fun b hb => isDigit_iff.1 (List.all_eq_true.1 hall b hb)
  · rintro ⟨bs, h⟩
    split_ifs at h with hlength
    exact ⟨hlength, List.all_eq_true.2 fun b hb => isDigit_iff.2 (value_of_pairs? h b hb)⟩

theorem nibble?_lt {b n : UInt8} (h : nibble? b = some n) : n.toNat < 16 := by
  have hall : ∀ k < 256, ((nibble? (UInt8.ofNat k)).all fun n => n.toNat < 16) = true := by
    decide +kernel
  have hb := hall b.toNat b.toNat_lt
  rw [UInt8.ofNat_toNat, h] at hb
  exact of_decide_eq_true hb

/-- The number that a byte string continues. -/
def number (n : ℕ) (bs : List UInt8) : ℕ := bs.foldl (fun n b => n * 256 + b.toNat) n

variable {ds bs : List UInt8}

theorem continue?_cons {b d : UInt8} {n : ℕ} (hb : nibble? b = some d)
    (hfits : n * 16 + d.toNat < UInt32.size) :
    continue? n (b :: ds) = continue? (n * 16 + d.toNat) ds := by
  rw [continue?, hb]
  exact if_pos hfits

/-- The digits of a byte string continue a number as the byte string does. -/
theorem continue?_of_pairs? (h : pairs? nibble? ds = some bs) {n : ℕ}
    (hfits : (n + 1) * 256 ^ bs.length ≤ UInt32.size) :
    continue? n ds = some (number n bs) := by
  fun_induction pairs? nibble? ds generalizing bs n with
  | case1 =>
    cases h
    rfl
  | case2 => cases h
  | case3 x y xs ih =>
    obtain ⟨high, low, rest, hx, hy, hrest, rfl⟩ := pairs?_eq_some_iff.1 h
    have hhigh := nibble?_lt hx
    have hlow := nibble?_lt hy
    have hjoined := (joined hhigh hlow).1
    rw [List.length_cons, pow_succ', ← Nat.mul_assoc] at hfits
    have hpair : (n + 1) * 256 ≤ UInt32.size :=
      (Nat.le_mul_of_pos_right _ (by positivity)).trans hfits
    have hvalue : (n * 16 + high.toNat) * 16 + low.toNat =
        n * 256 + (high <<< 4 ||| low).toNat := by omega
    rw [continue?_cons hx (by omega), continue?_cons hy (by omega), hvalue, ih hrest]
    · rfl
    · exact (Nat.mul_le_mul_right _ (by omega)).trans hfits

theorem word32?_cons {d : UInt8} (h : d ≠ 43) :
    word32? (d :: ds) = (continue? 0 (d :: ds)).map UInt32.ofNat := by
  simp [word32?, h]

/-- The digits of four bytes are read as the number of these. -/
theorem word32?_of_pairs? (h : pairs? nibble? ds = some bs) (hlength : bs.length = 4) :
    word32? ds = some (UInt32.ofNat (number 0 bs)) := by
  have hcontinue : continue? 0 ds = some (number 0 bs) :=
    continue?_of_pairs? h (by rw [hlength]; decide)
  have hds := length_of_pairs? h
  cases ds with
  | nil =>
    rw [hlength] at hds
    cases hds
  | cons d ds =>
    -- a sign is no digit, so none is in front
    have hsign : d ≠ 43 := by
      rintro rfl
      exact value_of_pairs? h 43 (List.mem_cons_self ..) (by decide)
    rw [word32?_cons hsign, hcontinue]
    rfl

/-- A number of four bytes has these. -/
theorem bigEndian_number (hlength : bs.length = 4) :
    bigEndian (UInt32.ofNat (number 0 bs)) = bs := by
  match bs, hlength with
  | [b₃, b₂, b₁, b₀], _ =>
    have h₃ := b₃.toNat_lt
    have h₂ := b₂.toNat_lt
    have h₁ := b₁.toNat_lt
    have h₀ := b₀.toNat_lt
    simp only [number, bigEndian, List.foldl_cons, List.foldl_nil, List.cons.injEq, and_true,
      ← UInt8.toNat_inj]
    simp
    omega

end BeaconReplay.Hex
