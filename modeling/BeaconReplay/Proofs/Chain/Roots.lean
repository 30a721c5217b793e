import BeaconReplay.Proofs.Chain.Precedence
import BeaconReplay.Proofs.Text.Numerals
import BeaconReplay.Proofs.Text.Order

/-!
# The text of a root

A root is read from exactly the spellings of thirty-two bytes, and from every other text comes the
refusal of that text. A reading that looks at each index finds none out of bounds. The text that is
written for a root reads back, and texts are ordered as their roots are.
-/
namespace BeaconReplay

namespace Hex

/-! ## The order of digits -/

theorem digit_lt_digit_iff {m n : UInt8} (hm : m.toNat < 16) (hn : n.toNat < 16) :
    digit m < digit n ↔ m < n := by
  have hall : ∀ i < 16, ∀ j < 16,
      digit (UInt8.ofNat i) < digit (UInt8.ofNat j) ↔ UInt8.ofNat i < UInt8.ofNat j := by decide
  simpa using hall m.toNat hm n.toNat hn

theorem digit_inj {m n : UInt8} (hm : m.toNat < 16) (hn : n.toNat < 16) :
    digit m = digit n ↔ m = n := by
  constructor
  · intro h
    have hvalue := value?_digit hm
    rw [h, value?_digit hn] at hvalue
    exact (Option.some_inj.1 hvalue).symm
  · rintro rfl
    rfl

/-- Digits are ordered as the bytes that have them. -/
theorem digits_lt_digits_iff {as bs : List UInt8} : digits as < digits bs ↔ as < bs := by
  induction as generalizing bs with
  | nil =>
    cases bs with
    | nil => exact iff_of_false (List.not_lt_nil _) (List.not_lt_nil _)
    | cons b bs => exact iff_of_true (List.nil_lt_cons _ _) (List.nil_lt_cons _ _)
  | cons a as ih =>
    cases bs with
    | nil => exact iff_of_false (List.not_lt_nil _) (List.not_lt_nil _)
    | cons b bs =>
      have ha := toNat_eq_halves a
      have hb := toNat_eq_halves b
      have halow := low_lt a
      have hblow := low_lt b
      rw [digits_cons, digits_cons, List.cons_lt_cons_iff, List.cons_lt_cons_iff,
        List.cons_lt_cons_iff, ih, digit_lt_digit_iff (high_lt a) (high_lt b),
        digit_lt_digit_iff halow hblow, digit_inj (high_lt a) (high_lt b), digit_inj halow hblow]
      simp only [UInt8.lt_iff_toNat_lt, ← UInt8.toNat_inj]
      -- of two bytes the greater one has the greater high half, or the same and the greater low one
      by_cases hrest : as < bs
      · simp only [hrest, and_true]
        omega
      · simp only [hrest, and_false, or_false]
        omega

end Hex

namespace Root

/-! ## Reading into places -/

/-- The value of a byte; where it has none, the whole text is refused. -/
def valueStrict (s : String) (b : UInt8) : Rule.Step UInt8 :=
  match Hex.nibble? b with
  | some n => .ok n
  | none => .error (.refused (.invalidHex s))

/-- The bytes of a root with another one at its place, if there is such a place. -/
def placeStrict (bytes : Vector UInt8 32) (i : ℕ) (b : UInt8) : Rule.Step (Vector UInt8 32) :=
  if h : i < 32 then .ok (bytes.set i b) else .error (Rule.outOfBounds 32 i)

/-- Bytes two by two; the last one may be left alone. -/
def chunks : List UInt8 → List (Array UInt8)
  | [] => []
  | [x] => [#[x]]
  | x :: y :: xs => #[x, y] :: chunks xs

/-- Read chunk by chunk into the places from the `i`-th on, and crash where a chunk has no second
byte or a byte has no place. -/
def fillStrict (s : String) : ℕ → List (Array UInt8) → Vector UInt8 32 →
    Rule.Step (Vector UInt8 32)
  | _, [], bytes => .ok bytes
  | i, chunk :: chunks, bytes => do
    let h ← valueStrict s (← Rule.entry chunk 0)
    let l ← valueStrict s (← Rule.entry chunk 1)
    fillStrict s (i + 1) chunks (← placeStrict bytes i (h <<< 4 ||| l))

/-- Read a root, and crash where an index is behind the end. -/
def parseStrict (s : String) : Rule.Step Root :=
  if (Hex.digitBytes s).length = 64 then do
    let bytes ← fillStrict s 0 (chunks (Hex.digitBytes s)) (Vector.replicate 32 0)
    pure ⟨bytes⟩
  else .error (.refused (.invalidHex s))

theorem take_set {α : Type} {xs : List α} {i : ℕ} (hi : i < xs.length) (x : α) :
    (xs.set i x).take (i + 1) = xs.take i ++ [x] := by
  rw [List.take_add_one, List.take_set_of_le le_rfl, List.getElem?_set_self hi]
  rfl

/-- As many pairs as there are places left are read into these. -/
theorem fillStrict_eq (s : String) {i : ℕ} {xs : List UInt8} (bytes : Vector UInt8 32)
    (hi : i ≤ 32) (hlength : xs.length = 2 * (32 - i)) : fillStrict s i (chunks xs) bytes =
      match (Hex.pairs? Hex.nibble? xs).bind fun bs => ofList? (bytes.toList.take i ++ bs) with
      | some r => .ok r.bytes
      | none => .error (.refused (.invalidHex s)) := by
  fun_induction Hex.pairs? Hex.nibble? xs generalizing i bytes with
  | case1 =>
    have hfull : bytes.toList.take i = bytes.toList :=
      List.take_of_length_le (by rw [Vector.length_toList]; rw [List.length_nil] at hlength; omega)
    have hread : ofList? (bytes.toList ++ []) = some ⟨bytes⟩ := by
      rw [List.append_nil]
      exact ofList?_toList ⟨bytes⟩
    rw [Option.bind_some, hfull, hread]
    rfl
  | case2 =>
    rw [List.length_singleton] at hlength
    omega
  | case3 x y xs ih =>
    simp only [List.length_cons] at hlength
    have hlt : i < 32 := by omega
    have hfirst : Rule.entry #[x, y] 0 = .ok x := rfl
    have hsecond : Rule.entry #[x, y] 1 = .ok y := rfl
    rw [chunks, fillStrict, hfirst, hsecond, Result.ok_bind]
    cases hx : Hex.nibble? x with
    | none => simp [valueStrict, hx]
    | some h =>
      cases hy : Hex.nibble? y with
      | none => simp [valueStrict, hx, hy]
      | some l =>
        have hplace : placeStrict bytes i (h <<< 4 ||| l) = .ok (bytes.set i (h <<< 4 ||| l)) :=
          dif_pos hlt
        have htake : (bytes.set i (h <<< 4 ||| l)).toList.take (i + 1) =
            bytes.toList.take i ++ [h <<< 4 ||| l] := by
          rw [Vector.toList_set]
          exact take_set (by simpa using hlt) _
        have hrest := ih (bytes.set i (h <<< 4 ||| l)) hlt (by omega)
        rw [htake] at hrest
        simp only [valueStrict, hx, hy, Result.ok_bind, hplace, hrest]
        cases Hex.pairs? Hex.nibble? xs <;> simp

/-- **No index is out of bounds where a root is read.** -/
theorem parseStrict_eq (s : String) : parseStrict s = Rule.checked (parse s) := by
  rw [parseStrict, parse, Hex.decode?]
  split_ifs with hlength
  · rw [fillStrict_eq s _ (Nat.zero_le 32) hlength]
    simp only [List.take_zero, List.nil_append]
    cases (Hex.pairs? Hex.nibble? (Hex.digitBytes s)).bind ofList? <;> rfl
  · rfl

/-! ## Texts -/

theorem parse_eq_ok_iff {s : String} {r : Root} :
    parse s = .ok r ↔ Hex.decode? 32 s = some r.toList := by
  rw [parse]
  constructor
  · intro h
    split at h
    · rename_i hread
      cases h
      obtain ⟨bs, hbs, hroot⟩ := Option.bind_eq_some_iff.1 hread
      rw [hbs, (ofList?_eq_some hroot).2]
    · cases h
  · intro h
    rw [h, Option.bind_some, ofList?_toList]

theorem compareBytes_eq_lt_iff {as bs : List UInt8} : compareBytes as bs = .lt ↔ as < bs := by
  induction as generalizing bs with
  | nil => cases bs <;> simp [compareBytes]
  | cons a as ih =>
    cases bs with
    | nil => simp [compareBytes]
    | cons b bs =>
      rw [compareBytes, Ordering.then_eq_lt, ih, Std.compare_eq_lt, Std.compare_eq_iff_eq,
        List.cons_lt_cons_iff]

/-- Texts are ordered as their roots are. -/
theorem encode_text_lt_iff {r s : Root} :
    Utf8.encode r.text < Utf8.encode s.text ↔ r.order s = .lt := by
  rw [Utf8.encode_lt_encode_iff, String.lt_iff_toList_lt, toList_text, toList_text, order,
    compareBytes_eq_lt_iff, ← Hex.digits_lt_digits_iff]
  simp only [List.cons_lt_cons_iff, lt_irrefl, true_and, false_or]

/-- **Roots and their texts.** A text is read as a root exactly if it has sixty-four digits of
either case behind one marker or none; the root has the bytes that these digits spell, and it is
written by the same digits in lower case. Every other text is refused and named as a whole, and no
index is out of bounds on the way. The text of a root reads back, so different roots have different
texts, and the byte order of these is the order of the roots. -/
theorem texts_are_spellings :
    (∀ s, (∃ r, parse s = .ok r) ↔ Hex.Written 32 s) ∧
    (∀ s, (∃ r, parse s = .ok r) ∨ parse s = .error (.invalidHex s)) ∧
    (∀ s, parseStrict s = Rule.checked (parse s)) ∧
    (∀ s r, parse s = .ok r ↔ ∃ ds, Hex.Spells s ds r.toList ∧
      r.text = String.ofList ('0' :: 'x' :: ds.map Char.toLower)) ∧
    (∀ r, parse r.text = .ok r) ∧
    Function.Injective text ∧
    ∀ r s : Root, r.order s = .lt ↔ Utf8.encode r.text < Utf8.encode s.text := by
  refine ⟨fun s => ?_, fun s => ?_, parseStrict_eq, fun s r => ?_, fun r => ?_,
    fun r s => text_inj.1, fun r s => encode_text_lt_iff.symm⟩
  · rw [← Hex.exists_decode?_iff]
    constructor
    · rintro ⟨r, h⟩
      exact ⟨r.toList, parse_eq_ok_iff.1 h⟩
    · rintro ⟨bs, h⟩
      obtain ⟨hlength, -⟩ := Hex.decode?_eq_some_iff_spells.1 h
      exact ⟨⟨⟨bs.toArray, by simpa using hlength⟩⟩, parse_eq_ok_iff.2 (by simpa [toList] using h)⟩
  · rw [parse]
    split
    · exact .inl ⟨_, rfl⟩
    · exact .inr rfl
  · rw [parse_eq_ok_iff, Hex.decode?_eq_some_iff_spells, and_iff_right (length_toList r)]
    refine exists_congr fun ds => (and_iff_left_of_imp fun h => ?_).symm
    rw [text_eq_encode, h.encode_eq]
  · rw [parse_eq_ok_iff, text_eq_encode, Hex.decode?_encode, if_pos (length_toList r)]

end Root

end BeaconReplay
