import BeaconReplay.Proofs.Text.Encoding
import BeaconReplay.Text.Hex

/-!
# Hexadecimal text

Digits of either case have the values of the lower-case ones, and a byte string is spelled by two
digits for each byte. The bytes of a text are read as its characters are: a character outside ASCII
has no byte that is a digit. So the texts that are read as byte strings are the spellings of these,
with one marker in front or none.
-/
namespace BeaconReplay.Hex

/-! ## Digits and their values -/

/-- The lower-case digits in the order of their values. -/
def alphabet : List Char :=
  ['0', '1', '2', '3', '4', '5', '6', '7', '8', '9', 'a', 'b', 'c', 'd', 'e', 'f']

/-- A digit reads back as its value. -/
theorem value?_digit {n : UInt8} (h : n.toNat < 16) : value? (digit n) = some n := by
  have hall : ∀ k < 16, value? (digit (UInt8.ofNat k)) = some (UInt8.ofNat k) := by decide
  simpa using hall n.toNat h

/-- A byte is put together from its halves. -/
theorem halves (b : UInt8) : (b >>> 4) <<< 4 ||| (b &&& 15) = b := by
  have hall : ∀ k < 256,
      (UInt8.ofNat k >>> 4) <<< 4 ||| (UInt8.ofNat k &&& 15) = UInt8.ofNat k := by decide +kernel
  simpa using hall b.toNat b.toNat_lt

theorem high_lt (b : UInt8) : (b >>> 4).toNat < 16 := by
  have hall : ∀ k < 256, (UInt8.ofNat k >>> 4).toNat < 16 := by decide +kernel
  simpa using hall b.toNat b.toNat_lt

theorem low_lt (b : UInt8) : (b &&& 15).toNat < 16 := by
  have hall : ∀ k < 256, (UInt8.ofNat k &&& 15).toNat < 16 := by decide +kernel
  simpa using hall b.toNat b.toNat_lt

/-- Two halves make one byte, of which they are the halves. -/
theorem joined {h l : UInt8} (hh : h.toNat < 16) (hl : l.toNat < 16) :
    (h <<< 4 ||| l).toNat = 16 * h.toNat + l.toNat ∧
      (h <<< 4 ||| l) >>> 4 = h ∧ (h <<< 4 ||| l) &&& 15 = l := by
  have hall : ∀ i < 16, ∀ j < 16,
      (UInt8.ofNat i <<< 4 ||| UInt8.ofNat j).toNat =
        16 * (UInt8.ofNat i).toNat + (UInt8.ofNat j).toNat ∧
      (UInt8.ofNat i <<< 4 ||| UInt8.ofNat j) >>> 4 = UInt8.ofNat i ∧
      (UInt8.ofNat i <<< 4 ||| UInt8.ofNat j) &&& 15 = UInt8.ofNat j := by decide +kernel
  simpa using hall h.toNat hh l.toNat hl

theorem toNat_eq_halves (b : UInt8) : b.toNat = 16 * (b >>> 4).toNat + (b &&& 15).toNat := by
  have h := (joined (high_lt b) (low_lt b)).1
  rwa [halves] at h

theorem forall_ascii {P : Char → Prop} (h : ∀ k < 128, P (Char.ofNat k)) {c : Char}
    (hc : c.toNat < 128) : P c := by
  simpa using h c.toNat hc

theorem toLower_of_not_ascii {c : Char} (hc : ¬c.toNat < 128) : c.toLower = c := by
  have hbound : ¬c.val ≤ 'Z'.val := fun hle => hc (Nat.lt_of_le_of_lt hle (by decide))
  rw [Char.toLower, dif_neg fun h => hbound h.2]

theorem not_mem_alphabet {c : Char} (hc : ¬c.toNat < 128) : c.toLower ∉ alphabet := by
  have hall : alphabet.Forall fun d => d.toNat < 128 := by decide
  rw [toLower_of_not_ascii hc]
  exact fun hmem => hc (List.forall_iff_forall_mem.1 hall c hmem)

/-- The value of a digit is its place among the lower-case ones; other characters have none. -/
theorem value?_eq (c : Char) : value? c =
    if c.toLower ∈ alphabet then some (UInt8.ofNat (alphabet.idxOf c.toLower)) else none := by
  by_cases hc : c.toNat < 128
  · exact forall_ascii (P := fun c => value? c = if c.toLower ∈ alphabet then
      some (UInt8.ofNat (alphabet.idxOf c.toLower)) else none) (by decide +kernel) hc
  · have hbound (d : Char) (hd : d.toNat < 128) : ¬c ≤ d :=
      fun hle => hc (Nat.lt_of_le_of_lt hle hd)
    rw [if_neg (not_mem_alphabet hc)]
    simp [value?, hbound '9' (by decide), hbound 'f' (by decide), hbound 'F' (by decide)]

/-- A value is below sixteen, and its digit is the lower-case one. -/
theorem digit_of_value? {c : Char} {n : UInt8} (h : value? c = some n) :
    n.toNat < 16 ∧ digit n = c.toLower ∧ n.toNat = alphabet.idxOf c.toLower := by
  rw [value?_eq] at h
  split_ifs at h with hmem
  cases h
  have hall : alphabet.Forall fun d => (UInt8.ofNat (alphabet.idxOf d)).toNat < 16 ∧
      digit (UInt8.ofNat (alphabet.idxOf d)) = d ∧
      (UInt8.ofNat (alphabet.idxOf d)).toNat = alphabet.idxOf d := by decide
  exact List.forall_iff_forall_mem.1 hall _ hmem

theorem value?_ne_none_iff {c : Char} : value? c ≠ none ↔ c.toLower ∈ alphabet := by
  rw [value?_eq]
  split_ifs <;> simp [*]

@[simp] theorem digits_cons (b : UInt8) (bs : List UInt8) :
    digits (b :: bs) = digit (b >>> 4) :: digit (b &&& 15) :: digits bs := rfl

theorem length_digits (bs : List UInt8) : (digits bs).length = 2 * bs.length := by
  induction bs with
  | nil => rfl
  | cons b bs ih =>
    simp only [digits_cons, List.length_cons, ih]
    omega

/-- Every digit of a byte string is the digit of a value below sixteen. -/
theorem exists_digit_of_mem {c : Char} {bs : List UInt8} (h : c ∈ digits bs) :
    ∃ n : UInt8, n.toNat < 16 ∧ digit n = c := by
  obtain ⟨b, -, hc⟩ := List.mem_flatMap.1 h
  have hpair : c = digit (b >>> 4) ∨ c = digit (b &&& 15) := by simpa [byteDigits] using hc
  rcases hpair with rfl | rfl
  · exact ⟨b >>> 4, high_lt b, rfl⟩
  · exact ⟨b &&& 15, low_lt b, rfl⟩

/-! ## Pairs of digits -/

section Pairs

variable {α β : Type} {value : α → Option UInt8} {x y : α} {xs : List α} {bs : List UInt8}

/-- What is read from a pair and what stands behind it. -/
theorem pairs?_eq_some_iff : pairs? value (x :: y :: xs) = some bs ↔
    ∃ h l rest, value x = some h ∧ value y = some l ∧ pairs? value xs = some rest ∧
      (h <<< 4 ||| l) :: rest = bs := by
  simp [pairs?, Option.bind_eq_some_iff]

theorem length_of_pairs? (h : pairs? value xs = some bs) : xs.length = 2 * bs.length := by
  fun_induction pairs? value xs generalizing bs with
  | case1 =>
    cases h
    rfl
  | case2 => cases h
  | case3 x y xs ih =>
    obtain ⟨_, _, rest, -, -, hrest, rfl⟩ := pairs?_eq_some_iff.1 h
    rw [List.length_cons, List.length_cons, List.length_cons, ih hrest]
    ring

theorem value_of_pairs? (h : pairs? value xs = some bs) : ∀ x ∈ xs, value x ≠ none := by
  fun_induction pairs? value xs generalizing bs with
  | case1 => exact List.forall_mem_nil _
  | case2 => cases h
  | case3 x y xs ih =>
    obtain ⟨_, _, rest, hx, hy, hrest, rfl⟩ := pairs?_eq_some_iff.1 h
    simp only [List.forall_mem_cons]
    exact ⟨by simp [hx], by simp [hy], ih hrest⟩

/-- Twice as many digits as bytes are wanted are read. -/
theorem exists_pairs? {n : ℕ} (hlength : xs.length = 2 * n) (hvalue : ∀ x ∈ xs, value x ≠ none) :
    ∃ bs, pairs? value xs = some bs := by
  induction n generalizing xs with
  | zero => exact ⟨[], by rw [List.length_eq_zero_iff.1 hlength]; rfl⟩
  | succ n ih =>
    match xs, hlength with
    | x :: y :: xs, hlength =>
      simp only [List.forall_mem_cons] at hvalue
      obtain ⟨hx, hy, hrest⟩ := hvalue
      obtain ⟨h, hx⟩ := Option.ne_none_iff_exists'.1 hx
      obtain ⟨l, hy⟩ := Option.ne_none_iff_exists'.1 hy
      obtain ⟨rest, hrest⟩ := ih (by simp only [List.length_cons] at hlength; omega) hrest
      exact ⟨_, pairs?_eq_some_iff.2 ⟨h, l, rest, hx, hy, hrest, rfl⟩⟩

theorem pairs?_map (f : β → α) (ys : List β) :
    pairs? value (ys.map f) = pairs? (fun y => value (f y)) ys := by
  fun_induction pairs? (fun y => value (f y)) ys with
  | case1 => rfl
  | case2 => rfl
  | case3 x y ys ih => rw [List.map_cons, List.map_cons, pairs?, ih]

theorem pairs?_congr {other : α → Option UInt8} (h : ∀ x ∈ xs, value x = other x) :
    pairs? value xs = pairs? other xs := by
  fun_induction pairs? value xs with
  | case1 => rfl
  | case2 => rfl
  | case3 x y xs ih =>
    simp only [List.forall_mem_cons] at h
    rw [pairs?, h.1, h.2.1, ih h.2.2]

end Pairs

/-! ## Digits as bytes -/

theorem nibble?_of_ascii {c : Char} (hc : c.toNat < 128) :
    nibble? (UInt8.ofNat c.toNat) = value? c :=
  forall_ascii (P := fun c => nibble? (UInt8.ofNat c.toNat) = value? c) (by decide +kernel) hc

theorem nibble?_of_not_ascii {b : UInt8} (hb : 128 ≤ b.toNat) : nibble? b = none := by
  have hall : ∀ k < 256, 128 ≤ k → nibble? (UInt8.ofNat k) = none := by decide +kernel
  simpa using hall b.toNat b.toNat_lt hb

theorem utf8EncodeChar_of_ascii {c : Char} (hc : c.toNat < 128) :
    String.utf8EncodeChar c = [UInt8.ofNat c.toNat] := by
  have hval : c.val.toNat ≤ 127 := Nat.le_of_lt_succ hc
  rw [String.utf8EncodeChar]
  exact if_pos hval

/-- Outside ASCII, every byte of a character is beyond it too. -/
theorem le_of_mem_utf8EncodeChar {c : Char} (hc : ¬c.toNat < 128) {b : UInt8}
    (hb : b ∈ String.utf8EncodeChar c) : 128 ≤ b.toNat := by
  have hvalid := Utf8.toNat_cases c
  have hval : c.val.toNat = c.toNat := rfl
  unfold String.utf8EncodeChar at hb
  rw [hval] at hb
  generalize c.toNat = v at hvalid hc hb
  dsimp only at hb
  split_ifs at hb <;> simp only [List.mem_cons, List.not_mem_nil, or_false] at hb
  · omega
  · rcases hb with rfl | rfl <;> rw [Utf8.toNat_ofNat (by omega)] <;> omega
  · rcases hb with rfl | rfl | rfl <;> rw [Utf8.toNat_ofNat (by omega)] <;> omega
  · rcases hb with rfl | rfl | rfl | rfl <;> rw [Utf8.toNat_ofNat (by omega)] <;> omega

/-- **The bytes of a text are read as its characters are.** -/
theorem pairs?_encode (s : String) : pairs? nibble? (Utf8.encode s) = bytes? s.toList := by
  rw [Utf8.encode_eq, bytes?]
  by_cases hascii : ∀ c ∈ s.toList, c.toNat < 128
  · have hbytes : s.toList.flatMap String.utf8EncodeChar =
        s.toList.map fun c => UInt8.ofNat c.toNat := by
      rw [← List.flatMap_pure_eq_map]
      exact List.flatMap_congr fun c hc => utf8EncodeChar_of_ascii (hascii c hc)
    rw [hbytes, pairs?_map]
    exact pairs?_congr fun c hc => nibble?_of_ascii (hascii c hc)
  · -- neither the character nor its first byte has a value
    obtain ⟨c, hmem, hc⟩ : ∃ c ∈ s.toList, ¬c.toNat < 128 := by simpa using hascii
    obtain ⟨b, bs, hbytes, -⟩ := Utf8.next_utf8EncodeChar c []
    have hb : b ∈ String.utf8EncodeChar c := by rw [hbytes]; exact List.mem_cons_self ..
    have hnibble := nibble?_of_not_ascii (le_of_mem_utf8EncodeChar hc hb)
    have hvalue : value? c = none := by rw [value?_eq, if_neg (not_mem_alphabet hc)]
    rw [Option.eq_none_iff_forall_ne_some.2 fun bs h =>
        value_of_pairs? h b (List.mem_flatMap.2 ⟨c, hmem, hb⟩) hnibble,
      Option.eq_none_iff_forall_ne_some.2 fun bs h => value_of_pairs? h c hmem hvalue]

/-- A byte string of the wanted length is read from the characters behind the marker. -/
theorem decode?_eq_some_iff {n : ℕ} {s : String} {bs : List UInt8} :
    decode? n s = some bs ↔ bytes? (stripMarker s.toList) = some bs ∧ bs.length = n := by
  have hpairs : pairs? nibble? (digitBytes s) = bytes? (stripMarker s.toList) := by
    rw [digitBytes, pairs?_encode, String.toList_ofList]
  rw [decode?, hpairs]
  constructor
  · intro h
    split_ifs at h with hlength
    have htwice := length_of_pairs? (hpairs.trans h)
    exact ⟨h, by omega⟩
  · rintro ⟨h, rfl⟩
    rw [if_pos (length_of_pairs? (hpairs.trans h)), h]

/-! ## Spellings -/

/-- A text spells a byte string: behind one marker or none it has two digits for each byte, which is
sixteen times the value of the first one and the value of the second one. -/
structure Spells (s : String) (ds : List Char) (bs : List UInt8) : Prop where
  marked : s = String.ofList ds ∨ s = String.ofList ('0' :: 'x' :: ds)
  digits : ∀ c ∈ ds, c.toLower ∈ alphabet
  length : ds.length = 2 * bs.length
  value : ∀ i (h : i < bs.length), bs[i].toNat =
    16 * alphabet.idxOf ds[2 * i].toLower + alphabet.idxOf ds[2 * i + 1].toLower

variable {s : String} {ds : List Char} {bs : List UInt8}

theorem value_of_bytes? (h : bytes? ds = some bs) (i : ℕ) (hi : i < bs.length)
    (hds : 2 * i + 1 < ds.length) : bs[i].toNat =
      16 * alphabet.idxOf ds[2 * i].toLower + alphabet.idxOf ds[2 * i + 1].toLower := by
  rw [bytes?] at h
  fun_induction pairs? value? ds generalizing bs i with
  | case1 => cases hds
  | case2 => cases h
  | case3 x y xs ih =>
    obtain ⟨high, low, rest, hx, hy, hrest, rfl⟩ := pairs?_eq_some_iff.1 h
    cases i with
    | zero =>
      obtain ⟨hhigh, -, hx⟩ := digit_of_value? hx
      obtain ⟨hlow, -, hy⟩ := digit_of_value? hy
      exact (joined hhigh hlow).1.trans (by rw [hx, hy]; rfl)
    | succ i =>
      simp only [List.length_cons] at hds
      exact ih hrest i (Nat.lt_of_succ_lt_succ hi) (by omega)

/-- Digits are read as the byte string that has them, in lower case, for its own. -/
theorem digits_of_bytes? (h : bytes? ds = some bs) : digits bs = ds.map Char.toLower := by
  rw [bytes?] at h
  fun_induction pairs? value? ds generalizing bs with
  | case1 =>
    cases h
    rfl
  | case2 => cases h
  | case3 x y xs ih =>
    obtain ⟨high, low, rest, hx, hy, hrest, rfl⟩ := pairs?_eq_some_iff.1 h
    obtain ⟨hhigh, hx, -⟩ := digit_of_value? hx
    obtain ⟨hlow, hy, -⟩ := digit_of_value? hy
    obtain ⟨-, hfirst, hsecond⟩ := joined hhigh hlow
    rw [digits_cons, hfirst, hsecond, hx, hy, ih hrest]
    rfl

/-- The digits of a byte string read back. -/
theorem bytes?_digits (bs : List UInt8) : bytes? (digits bs) = some bs := by
  induction bs with
  | nil => rfl
  | cons b bs ih =>
    rw [digits_cons, bytes?, pairs?_eq_some_iff]
    exact ⟨_, _, bs, value?_digit (high_lt b), value?_digit (low_lt b), ih, by rw [halves]⟩

theorem Spells.bytes?_eq (h : Spells s ds bs) : bytes? ds = some bs := by
  obtain ⟨read, hread⟩ := exists_pairs? h.length fun c hc => value?_ne_none_iff.2 (h.digits c hc)
  have hlength : ds.length = 2 * read.length := length_of_pairs? hread
  have hds := h.length
  rw [bytes?, hread]
  refine congrArg some (List.ext_getElem (by omega) fun i hi hbs => UInt8.toNat_inj.1 ?_)
  exact (value_of_bytes? hread i hi (by omega)).trans (h.value i hbs).symm

theorem spells_of_bytes? (hs : s = String.ofList ds ∨ s = String.ofList ('0' :: 'x' :: ds))
    (h : bytes? ds = some bs) : Spells s ds bs where
  marked := hs
  digits c hc := value?_ne_none_iff.1 (value_of_pairs? h c hc)
  length := length_of_pairs? h
  value i hi := value_of_bytes? h i hi (by have := length_of_pairs? h; omega)

/-- The characters behind a marker are read, or all where there is none. -/
theorem stripMarker_cases (cs : List Char) :
    cs = '0' :: 'x' :: stripMarker cs ∨ stripMarker cs = cs := by
  unfold stripMarker
  split
  · exact .inl rfl
  · exact .inr rfl

/-- A marker is no part of the digits, of which `x` is none. -/
theorem stripMarker_of_digits (h : ∀ c ∈ ds, c.toLower ∈ alphabet) : stripMarker ds = ds := by
  rcases stripMarker_cases ds with hmarked | hplain
  · have hx : 'x' ∈ ds := by rw [hmarked]; simp
    exact absurd (h 'x' hx) (by decide)
  · exact hplain

/-- **The texts that are read as byte strings are the spellings of these.** -/
theorem decode?_eq_some_iff_spells {n : ℕ} :
    decode? n s = some bs ↔ bs.length = n ∧ ∃ ds, Spells s ds bs := by
  rw [decode?_eq_some_iff]
  constructor
  · rintro ⟨h, hlength⟩
    refine ⟨hlength, stripMarker s.toList, spells_of_bytes? ?_ h⟩
    rcases stripMarker_cases s.toList with hmarked | hplain
    · exact .inr (by rw [← hmarked, String.ofList_toList])
    · exact .inl (by rw [hplain, String.ofList_toList])
  · rintro ⟨hlength, ds, h⟩
    refine ⟨?_, hlength⟩
    have hstrip : stripMarker s.toList = ds := by
      rcases h.marked with rfl | rfl
      · rw [String.toList_ofList, stripMarker_of_digits h.digits]
      · rw [String.toList_ofList]
        rfl
    rw [hstrip, h.bytes?_eq]

/-- A text has the digits of `n` bytes, of either case, behind one marker or none. -/
def Written (n : ℕ) (s : String) : Prop :=
  ∃ ds, (s = String.ofList ds ∨ s = String.ofList ('0' :: 'x' :: ds)) ∧ ds.length = 2 * n ∧
    ∀ c ∈ ds, c.toLower ∈ alphabet

theorem exists_decode?_iff {n : ℕ} : (∃ bs, decode? n s = some bs) ↔ Written n s := by
  constructor
  · rintro ⟨bs, h⟩
    obtain ⟨rfl, ds, hspells⟩ := decode?_eq_some_iff_spells.1 h
    exact ⟨ds, hspells.marked, hspells.length, hspells.digits⟩
  · rintro ⟨ds, hmarked, hlength, hdigits⟩
    obtain ⟨bs, hbs⟩ := exists_pairs? hlength fun c hc => value?_ne_none_iff.2 (hdigits c hc)
    have htwice := length_of_pairs? hbs
    exact ⟨bs, decode?_eq_some_iff_spells.2 ⟨by omega, ds, spells_of_bytes? hmarked hbs⟩⟩

/-- A byte string is written by the digits that it was spelled by, in lower case. -/
theorem Spells.encode_eq (h : Spells s ds bs) :
    encode bs = String.ofList ('0' :: 'x' :: ds.map Char.toLower) := by
  rw [encode, digits_of_bytes? h.bytes?_eq]

/-- The text of a byte string reads back where that many bytes are wanted. -/
theorem decode?_encode (n : ℕ) (bs : List UInt8) :
    decode? n (encode bs) = if bs.length = n then some bs else none := by
  have hbytes : bytes? (stripMarker (encode bs).toList) = some bs := by
    rw [encode, String.toList_ofList]
    exact bytes?_digits bs
  split_ifs with hlength
  · exact decode?_eq_some_iff.2 ⟨hbytes, hlength⟩
  · refine Option.eq_none_iff_forall_ne_some.2 fun other hother => hlength ?_
    obtain ⟨hread, rfl⟩ := decode?_eq_some_iff.1 hother
    rw [Option.some_inj.1 (hbytes.symm.trans hread)]

end BeaconReplay.Hex
