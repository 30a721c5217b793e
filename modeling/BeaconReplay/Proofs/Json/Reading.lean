import BeaconReplay.Json.Document
import BeaconReplay.Proofs.Text.Numerals

/-!
# Compact texts read back

A compact text has no blanks, so every value is read up to the comma or bracket behind it. The
escapes of a string give back its characters and a numeral its word; arrays and objects are then
read part by part, and a text whose numbers are words gives the document of its value.
-/
namespace BeaconReplay

namespace Json

mutual

/-- Whether every number of a value is a word. -/
def wordsOnly : Json → Bool
  | .number (.integer i) => 0 ≤ i && i < UInt64.size
  | .number (.real _) => false
  | .array items => wordsOnlyItems items
  | .object members => wordsOnlyMembers members
  | _ => true

/-- Whether every number of some items is a word. -/
def wordsOnlyItems : List Json → Bool
  | [] => true
  | v :: vs => wordsOnly v && wordsOnlyItems vs

/-- Whether every number of some members is a word. -/
def wordsOnlyMembers : List (String × Json) → Bool
  | [] => true
  | (_, v) :: ms => wordsOnly v && wordsOnlyMembers ms

end

theorem wordsOnlyItems_map {α : Type} {item : α → Json} (h : ∀ a, (item a).wordsOnly = true)
    (xs : List α) : wordsOnlyItems (xs.map item) = true := by
  induction xs with
  | nil => rfl
  | cons x xs ih => rw [List.map_cons, wordsOnlyItems, h, ih, Bool.and_self]

end Json

namespace Json.Document

/-! ## Strings -/

/-- The digits of a control character's escape give its number. -/
theorem hexUnit?_controlDigits {c : Char} (h : c.toNat < 32) (rest : List Char) :
    hexUnit? ('0' :: '0' :: (controlDigits c ++ rest)) = some (c.toNat, rest) := by
  have hall : ∀ n < 32, hexValue? (if n < 16 then '0' else '1') = some (n / 16) ∧
      hexValue? ((Nat.toDigits 16 (n % 16)).headD '0') = some (n % 16) := by decide
  have hzero : hexValue? '0' = some 0 := by decide
  obtain ⟨hhigh, hlow⟩ := hall c.toNat h
  have hn : ((0 * 16 + 0) * 16 + c.toNat / 16) * 16 + c.toNat % 16 = c.toNat := by omega
  simp only [controlDigits, List.cons_append, List.nil_append, hexUnit?, hzero, hhigh, hlow,
    Option.bind_eq_bind, Option.bind_some, Option.pure_def, hn]

/-- A character is read back from its escape. -/
theorem readString_escape (c : Char) (fuel : ℕ) (acc rest : List Char) :
    readString (fuel + 1) (some acc) (escape c ++ rest) =
      readString fuel (some (c :: acc)) rest := by
  unfold escape
  split_ifs with hquote hslash hback hfeed hnew hreturn htab hcontrol
  · simp [readString, shortEscape?, hquote]
  · simp [readString, shortEscape?, hslash]
  · simp [readString, shortEscape?, hback]
  · simp [readString, shortEscape?, hfeed]
  · simp [readString, shortEscape?, hnew]
  · simp [readString, shortEscape?, hreturn]
  · simp [readString, shortEscape?, htab]
  · have hunit := hexUnit?_controlDigits hcontrol rest
    have hhigh : ¬(0xD800 ≤ c.toNat ∧ c.toNat ≤ 0xDBFF) := by omega
    have hlow : ¬(0xDC00 ≤ c.toNat ∧ c.toNat ≤ 0xDFFF) := by omega
    simp [readString, hunit, hhigh, hlow, Char.ofNat_toNat]
  · simp [readString, hquote, hslash, hcontrol]

theorem escape_ne_nil (c : Char) : escape c ≠ [] := by
  unfold escape
  split_ifs <;> simp

/-- The characters between quotes are read up to the closing one. -/
theorem readString_flatMap (cs : List Char) (fuel : ℕ) (acc rest : List Char)
    (h : (cs.flatMap escape).length < fuel) :
    readString fuel (some acc) (cs.flatMap escape ++ '"' :: rest) =
      some (some (acc.reverse ++ cs), rest) := by
  induction cs generalizing fuel acc with
  | nil =>
    obtain ⟨fuel, rfl⟩ := Nat.exists_eq_add_one_of_ne_zero (by omega : fuel ≠ 0)
    simp [readString]
  | cons c cs ih =>
    have hescape := List.length_pos_iff.2 (escape_ne_nil c)
    rw [List.flatMap_cons, List.length_append] at h
    obtain ⟨fuel, rfl⟩ := Nat.exists_eq_add_one_of_ne_zero (by omega : fuel ≠ 0)
    rw [List.flatMap_cons, List.append_assoc, readString_escape, ih fuel _ (by omega)]
    simp

/-- **A quoted string reads back.** -/
theorem string?_quoted (s : String) (rest : List Char) :
    string? (s.toList.flatMap escape ++ '"' :: rest) = some (some s, rest) := by
  rw [string?, readString_flatMap _ _ _ _ (by simp)]
  simp

/-- Characters that are no quotes, slashes or control characters stand for themselves. -/
theorem flatMap_escape_of_plain {cs : List Char}
    (h : ∀ c ∈ cs, 32 ≤ c.toNat ∧ c ≠ '"' ∧ c ≠ '\\') : cs.flatMap escape = cs := by
  induction cs with
  | nil => rfl
  | cons c cs ih =>
    obtain ⟨⟨hlow, hquote, hslash⟩, hcs⟩ := List.forall_mem_cons.1 h
    have hcontrol : ∀ d : Char, d.toNat < 32 → c ≠ d := by
      rintro d hd rfl
      omega
    have hc : escape c = [c] := by
      simp [escape, hquote, hslash, hcontrol '\x08' (by decide), hcontrol '\x0c' (by decide),
        hcontrol '\n' (by decide), hcontrol '\r' (by decide), hcontrol '\t' (by decide), hlow]
    rw [List.flatMap_cons, hc, ih hcs, List.singleton_append]

/-- A decimal numeral is quoted as it stands. -/
theorem quoted_decimal (n : UInt64) :
    quoted (Decimal.text n) = '"' :: ((Decimal.text n).toList ++ ['"']) := by
  have hdigits : ∀ c ∈ (Decimal.text n).toList, 32 ≤ c.toNat ∧ c ≠ '"' ∧ c ≠ '\\' := by
    intro c hc
    rw [Decimal.toList_text] at hc
    have hdigit := Nat.isDigit_of_mem_toDigits (by omega) (by omega) hc
    simp only [Char.isDigit, Bool.and_eq_true, decide_eq_true_eq, ge_iff_le,
      UInt32.le_iff_toNat_le] at hdigit
    have hlow : 48 ≤ c.toNat := hdigit.1
    have hhigh : c.toNat ≤ 57 := hdigit.2
    refine ⟨by omega, ?_, ?_⟩
    · rintro rfl
      exact absurd hlow (by decide)
    · rintro rfl
      exact absurd hhigh (by decide)
  rw [quoted, flatMap_escape_of_plain hdigits]

/-- The digits of a byte string are quoted as they stand. -/
theorem quoted_hex (bs : List UInt8) :
    quoted (Hex.encode bs) = '"' :: ((Hex.encode bs).toList ++ ['"']) := by
  have hall : ∀ n < 16, 32 ≤ (Hex.digit (UInt8.ofNat n)).toNat ∧
      Hex.digit (UInt8.ofNat n) ≠ '"' ∧ Hex.digit (UInt8.ofNat n) ≠ '\\' := by decide
  have hdigits : ∀ c ∈ (Hex.encode bs).toList, 32 ≤ c.toNat ∧ c ≠ '"' ∧ c ≠ '\\' := by
    simp only [Hex.encode, String.toList_ofList, List.forall_mem_cons]
    refine ⟨by decide, by decide, fun c hc => ?_⟩
    obtain ⟨n, hn, rfl⟩ := Hex.exists_digit_of_mem hc
    simpa using hall n.toNat hn
  rw [quoted, flatMap_escape_of_plain hdigits]

/-! ## Numerals -/

/-- Nothing follows that could belong to a numeral: a comma, a bracket, a brace or the end. -/
def Closed (rest : List Char) : Prop := ∀ c ∈ rest.head?, c = ',' ∨ c = ']' ∨ c = '}'

theorem closed_nil : Closed [] := by simp [Closed]

theorem closed_itemChars (vs : List Json) (rest : List Char) : Closed (itemChars vs ++ rest) := by
  cases vs <;> simp [Closed, itemChars]

theorem closed_memberChars (ms : List (String × Json)) (rest : List Char) :
    Closed (memberChars ms ++ rest) := by
  cases ms <;> simp [Closed, memberChars]

end Json.Document

namespace Numeral

open Json.Document

theorem isDigit_of_mem_toDigits {n : ℕ} {c : Char} (h : c ∈ Nat.toDigits 10 n) :
    isDigit c = true := by
  have hdigit := Nat.isDigit_of_mem_toDigits (by omega) (by omega) h
  simpa [Char.isDigit, isDigit, Char.le_def] using hdigit

/-- A number has a first digit. -/
theorem exists_toDigits_cons (n : ℕ) : ∃ c cs, Nat.toDigits 10 n = c :: cs ∧ isDigit c = true := by
  obtain ⟨c, cs, hcs⟩ := List.exists_cons_of_ne_nil (Nat.toDigits_ne_nil (n := n) (b := 10))
  exact ⟨c, cs, hcs, isDigit_of_mem_toDigits (n := n) (by simp [hcs])⟩

theorem not_isBlank_of_isDigit {c : Char} (h : isDigit c = true) : isBlank c = false := by
  rw [← Bool.not_eq_true]
  intro hblank
  simp only [isBlank, Bool.or_eq_true, beq_iff_eq] at hblank
  rcases hblank with ((rfl | rfl) | rfl) | rfl <;> cases h

/-- What follows a numeral does not belong to it. -/
theorem not_isDigit_of_closed {rest : List Char} (hrest : Closed rest) :
    ∀ c ∈ rest.head?, isDigit c = false := by
  intro c hc
  rcases hrest c hc with rfl | rfl | rfl <;> rfl

/-- The digits of a number are taken up to what cannot belong to a numeral. -/
theorem splitDigits_toDigits (n : ℕ) {rest : List Char} (hrest : Closed rest) :
    splitDigits (Nat.toDigits 10 n ++ rest) = (Nat.toDigits 10 n, rest) := by
  have hdigits : ∀ c ∈ Nat.toDigits 10 n, isDigit c = true := fun _ => isDigit_of_mem_toDigits
  have hstop := not_isDigit_of_closed hrest
  rw [splitDigits, List.span_eq_takeWhile_dropWhile, List.takeWhile_append_of_pos hdigits,
    List.dropWhile_append_of_pos hdigits]
  cases rest with
  | nil => simp
  | cons c rest => simp [hstop c rfl]

theorem digitsValue_toDigits (n : ℕ) : digitsValue (Nat.toDigits 10 n) = n := by
  have hvalue := Nat.ofDigitChars_ten_toDigits (n := n)
  rw [Nat.ofDigitChars_eq_foldl] at hvalue
  simpa only [digitsValue, Nat.mul_comm, Char.reduceToNat] using hvalue

theorem fraction?_of_closed {rest : List Char} (hrest : Closed rest) :
    fraction? rest = some (none, rest) := by
  cases rest with
  | nil => rfl
  | cons c rest => rcases hrest c rfl with rfl | rfl | rfl <;> rfl

theorem exponent?_of_closed {rest : List Char} (hrest : Closed rest) :
    exponent? rest = some (none, rest) := by
  cases rest with
  | nil => rfl
  | cons c rest => rcases hrest c rfl with rfl | rfl | rfl <;> rfl

/-- A numeral without a sign is read up to what cannot belong to it. -/
theorem unsigned?_toDigits (n : ℕ) {rest : List Char} (hrest : Closed rest) :
    unsigned? false (Nat.toDigits 10 n ++ rest) =
      some (⟨false, Nat.toDigits 10 n, none, none⟩, rest) := by
  have hsplit := splitDigits_toDigits n hrest
  rw [unsigned?, hsplit]
  split
  · next hnil => exact absurd (congrArg Prod.fst hnil) Nat.toDigits_ne_nil
  · -- only the numeral of zero starts with a zero
    next hzero =>
    have hdigits := congrArg Prod.fst hzero
    exact absurd (Decimal.toDigits_eq_zero_cons hdigits).2 (List.cons_ne_nil _ _)
  · next hpair =>
    cases hpair
    simp [fraction?_of_closed hrest, exponent?_of_closed hrest]

/-- The numeral of a number is read up to what cannot belong to it. -/
theorem read?_toDigits (n : ℕ) {rest : List Char} (hrest : Closed rest) :
    read? (Nat.toDigits 10 n ++ rest) = some (⟨false, Nat.toDigits 10 n, none, none⟩, rest) := by
  obtain ⟨c, cs, hcs, hdigit⟩ := exists_toDigits_cons n
  have hsign : c ≠ '-' := by
    rintro rfl
    cases hdigit
  have hunsigned := unsigned?_toDigits n hrest
  rw [hcs] at hunsigned ⊢
  rw [List.cons_append, read?, ← List.cons_append]
  · exact hunsigned
  · rintro _ hminus
    exact hsign (List.cons.inj hminus).1

/-- **The numeral of a word stands for the word.** -/
theorem value?_toDigits {n : ℕ} (h : n < UInt64.size) :
    value? ⟨false, Nat.toDigits 10 n, none, none⟩ = some (.integer n) := by
  simp [value?, digitsValue_toDigits, h]

end Numeral

namespace Json.Document

/-! ## Values -/

@[simp] theorem ofValues_eq_map (vs : List Json) : ofValues vs = vs.map ofValue := by
  induction vs with
  | nil => rfl
  | cons v vs ih => rw [ofValues, ih, List.map_cons]

/-- A number of such a value is a word, written in decimal digits. -/
theorem exists_word {n : JsonNumber} (h : (Json.number n).wordsOnly = true) :
    ∃ m < UInt64.size, n = .integer m ∧ n.text.toList = Nat.toDigits 10 m := by
  cases n with
  | real x => cases h
  | integer i =>
    simp only [wordsOnly, Bool.and_eq_true, decide_eq_true_eq] at h
    obtain ⟨hlow, hhigh⟩ := h
    obtain ⟨m, rfl⟩ := Int.eq_ofNat_of_zero_le hlow
    have hm : m < UInt64.size := by omega
    have htext : (JsonNumber.integer m).text = toString m := rfl
    exact ⟨m, hm, rfl, by simp [htext]⟩

/-- The first character of a value is neither blank nor a closing bracket. -/
theorem exists_chars_cons {v : Json} (hv : v.wordsOnly = true) :
    ∃ c cs, v.chars = c :: cs ∧ isBlank c = false ∧ c ≠ ']' := by
  cases v with
  | null => exact ⟨_, _, rfl, rfl, by decide⟩
  | boolean b => cases b <;> exact ⟨_, _, rfl, rfl, by decide⟩
  | number n =>
    obtain ⟨m, -, -, htext⟩ := exists_word hv
    obtain ⟨c, cs, hcs, hdigit⟩ := Numeral.exists_toDigits_cons m
    refine ⟨c, cs, by rw [chars, htext, hcs], Numeral.not_isBlank_of_isDigit hdigit, ?_⟩
    rintro rfl
    cases hdigit
  | string s => exact ⟨_, _, rfl, rfl, by decide⟩
  | array items => cases items <;> exact ⟨_, _, rfl, rfl, by decide⟩
  | object members => cases members <;> exact ⟨_, _, rfl, rfl, by decide⟩

theorem skipBlanks_cons {c : Char} (h : isBlank c = false) (cs : List Char) :
    skipBlanks (c :: cs) = c :: cs := by
  rw [skipBlanks, h, if_neg Bool.false_ne_true]

/-- What starts like a numeral is read as a numeral. -/
theorem readValue_numeral {c : Char} {cs rest : List Char} {n : Numeral}
    (hc : startsNumeral c = true) (hread : Numeral.read? (c :: cs) = some (n, rest)) (fuel : ℕ) :
    readValue (fuel + 1) (c :: cs) = (.number n.value?, some rest) := by
  have hne : ∀ d, startsNumeral d = false → c ≠ d := by
    rintro d hd rfl
    exact Bool.false_ne_true (hd.symm.trans hc)
  have hblank : isBlank c = false := by
    rw [startsNumeral, Bool.or_eq_true, beq_iff_eq] at hc
    obtain rfl | hdigit := hc
    · rfl
    · exact Numeral.not_isBlank_of_isDigit hdigit
  simp [readValue, skipBlanks_cons hblank cs, hne '"' rfl, hne '[' rfl, hne '\x7b' rfl,
    hne 'n' rfl, hne 't' rfl, hne 'f' rfl, hc, hread]

section Steps

variable {fuel : ℕ} {first : Bool} {c : Char} {cs rest : List Char} {d : Document}
  {acc : List Document} {mems : List (Option String × Document)}

theorem readValue_bracket : readValue (fuel + 1) ('[' :: cs) = readItems fuel true [] cs := by
  simp [readValue, skipBlanks, isBlank]

theorem readValue_brace : readValue (fuel + 1) ('\x7b' :: cs) = readMembers fuel true [] cs := by
  simp [readValue, skipBlanks, isBlank]

theorem readItems_close :
    readItems (fuel + 1) first acc (']' :: rest) = (.array acc.reverse true, some rest) := by
  simp [readItems, skipBlanks, isBlank]

theorem readItems_first (hblank : isBlank c = false) (hclose : c ≠ ']')
    (hvalue : readValue fuel (c :: cs) = (d, some rest)) :
    readItems (fuel + 1) true acc (c :: cs) = readItems fuel false (d :: acc) rest := by
  simp [readItems, skipBlanks_cons hblank, hclose, hvalue]

theorem readItems_next (hblank : isBlank c = false) (hclose : c ≠ ']')
    (hvalue : readValue fuel (c :: cs) = (d, some rest)) :
    readItems (fuel + 1) false acc (',' :: c :: cs) = readItems fuel false (d :: acc) rest := by
  have hcomma : skipBlanks (',' :: c :: cs) = ',' :: c :: cs := skipBlanks_cons rfl _
  simp [readItems, hcomma, skipBlanks_cons hblank, hclose, hvalue]

theorem readMembers_close :
    readMembers (fuel + 1) first mems ('\x7d' :: rest) =
      (.object mems.reverse .closed, some rest) := by
  simp [readMembers, skipBlanks, isBlank]

theorem readMembers_first (k : String) (hvalue : readValue fuel cs = (d, some rest)) :
    readMembers (fuel + 1) true mems (quoted k ++ ':' :: cs) =
      readMembers fuel false ((some k, d) :: mems) rest := by
  have hname := string?_quoted k (':' :: cs)
  simp [readMembers, quoted, skipBlanks, isBlank, hname, hvalue]

theorem readMembers_next (k : String) (hvalue : readValue fuel cs = (d, some rest)) :
    readMembers (fuel + 1) false mems (',' :: (quoted k ++ ':' :: cs)) =
      readMembers fuel false ((some k, d) :: mems) rest := by
  have hname := string?_quoted k (':' :: cs)
  simp [readMembers, quoted, skipBlanks, isBlank, hname, hvalue]

end Steps

mutual

/-- A value is read up to what stands behind it. -/
theorem readValue_chars (v : Json) (fuel : ℕ) (rest : List Char) (hv : v.wordsOnly = true)
    (hrest : Closed rest) (hfuel : 2 * v.chars.length ≤ fuel) :
    readValue fuel (v.chars ++ rest) = (ofValue v, some rest) := by
  obtain ⟨c, cs, hchars, -, -⟩ := exists_chars_cons hv
  have hpos : 0 < v.chars.length := by simp [hchars]
  obtain ⟨fuel, rfl⟩ := Nat.exists_eq_add_one_of_ne_zero (by omega : fuel ≠ 0)
  match v with
  | .null => simp [chars, readValue, skipBlanks, isBlank, afterWord, ofValue]
  | .boolean true => simp [chars, readValue, skipBlanks, isBlank, afterWord, ofValue]
  | .boolean false => simp [chars, readValue, skipBlanks, isBlank, afterWord, ofValue]
  | .number n =>
    obtain ⟨m, hm, rfl, htext⟩ := exists_word hv
    obtain ⟨c, cs, hdigits, hdigit⟩ := Numeral.exists_toDigits_cons m
    have hread := Numeral.read?_toDigits m hrest
    rw [hdigits, List.cons_append] at hread
    have hstart : startsNumeral c = true := by simp [startsNumeral, hdigit]
    rw [chars, htext, hdigits, List.cons_append, readValue_numeral hstart hread, ← hdigits,
      Numeral.value?_toDigits hm, ofValue]
  | .string s =>
    have hstring := string?_quoted s rest
    simp [chars, quoted, readValue, skipBlanks, isBlank, ofValue, hstring]
  | .array [] =>
    simp only [chars, List.length_cons, List.length_nil] at hfuel
    obtain ⟨fuel, rfl⟩ := Nat.exists_eq_add_one_of_ne_zero (by omega : fuel ≠ 0)
    exact readValue_bracket.trans readItems_close
  | .array (v :: vs) =>
    simp only [wordsOnly, wordsOnlyItems, Bool.and_eq_true] at hv
    simp only [chars, List.length_cons, List.length_append] at hfuel
    obtain ⟨fuel, rfl⟩ := Nat.exists_eq_add_one_of_ne_zero (by omega : fuel ≠ 0)
    obtain ⟨c, cs, hfirst, hblank, hclose⟩ := exists_chars_cons hv.1
    have hvalue := readValue_chars v fuel (itemChars vs ++ rest) hv.1 (closed_itemChars vs rest)
      (by omega)
    have hitems := readItems_itemChars vs fuel [ofValue v] rest hv.2 (by omega)
    rw [hfirst, List.cons_append] at hvalue
    rw [chars, List.cons_append, List.append_assoc, readValue_bracket, hfirst, List.cons_append,
      readItems_first hblank hclose hvalue, hitems]
    rfl
  | .object [] =>
    simp only [chars, List.length_cons, List.length_nil] at hfuel
    obtain ⟨fuel, rfl⟩ := Nat.exists_eq_add_one_of_ne_zero (by omega : fuel ≠ 0)
    exact readValue_brace.trans readMembers_close
  | .object ((k, v) :: ms) =>
    simp only [wordsOnly, wordsOnlyMembers, Bool.and_eq_true] at hv
    simp only [chars, List.length_cons, List.length_append] at hfuel
    obtain ⟨fuel, rfl⟩ := Nat.exists_eq_add_one_of_ne_zero (by omega : fuel ≠ 0)
    have hvalue := readValue_chars v fuel (memberChars ms ++ rest) hv.1
      (closed_memberChars ms rest) (by omega)
    have hmembers := readMembers_memberChars ms fuel [(some k, ofValue v)] rest hv.2 (by omega)
    rw [chars, List.cons_append, List.append_assoc, List.cons_append, List.append_assoc,
      readValue_brace, readMembers_first k hvalue, hmembers]
    rfl

/-- Further items are read up to the closing bracket. -/
theorem readItems_itemChars (vs : List Json) (fuel : ℕ) (acc : List Document) (rest : List Char)
    (hvs : wordsOnlyItems vs = true) (hfuel : 2 * (itemChars vs).length ≤ fuel) :
    readItems fuel false acc (itemChars vs ++ rest) =
      (.array (acc.reverse ++ ofValues vs) true, some rest) := by
  match vs with
  | [] =>
    simp only [itemChars, List.length_cons, List.length_nil] at hfuel
    obtain ⟨fuel, rfl⟩ := Nat.exists_eq_add_one_of_ne_zero (by omega : fuel ≠ 0)
    rw [itemChars, List.cons_append, List.nil_append, readItems_close, ofValues, List.append_nil]
  | v :: vs =>
    simp only [wordsOnlyItems, Bool.and_eq_true] at hvs
    simp only [itemChars, List.length_cons, List.length_append] at hfuel
    obtain ⟨fuel, rfl⟩ := Nat.exists_eq_add_one_of_ne_zero (by omega : fuel ≠ 0)
    obtain ⟨c, cs, hfirst, hblank, hclose⟩ := exists_chars_cons hvs.1
    have hvalue := readValue_chars v fuel (itemChars vs ++ rest) hvs.1 (closed_itemChars vs rest)
      (by omega)
    have hitems := readItems_itemChars vs fuel (ofValue v :: acc) rest hvs.2 (by omega)
    rw [hfirst, List.cons_append] at hvalue
    rw [itemChars, List.cons_append, List.append_assoc, hfirst, List.cons_append,
      readItems_next hblank hclose hvalue, hitems, List.reverse_cons, List.append_assoc]
    rfl

/-- Further members are read up to the closing brace. -/
theorem readMembers_memberChars (ms : List (String × Json)) (fuel : ℕ)
    (acc : List (Option String × Document)) (rest : List Char)
    (hms : wordsOnlyMembers ms = true) (hfuel : 2 * (memberChars ms).length ≤ fuel) :
    readMembers fuel false acc (memberChars ms ++ rest) =
      (.object (acc.reverse ++ ofMembers ms) .closed, some rest) := by
  match ms with
  | [] =>
    simp only [memberChars, List.length_cons, List.length_nil] at hfuel
    obtain ⟨fuel, rfl⟩ := Nat.exists_eq_add_one_of_ne_zero (by omega : fuel ≠ 0)
    rw [memberChars, List.cons_append, List.nil_append, readMembers_close, ofMembers,
      List.append_nil]
  | (k, v) :: ms =>
    simp only [wordsOnlyMembers, Bool.and_eq_true] at hms
    simp only [memberChars, List.length_cons, List.length_append] at hfuel
    obtain ⟨fuel, rfl⟩ := Nat.exists_eq_add_one_of_ne_zero (by omega : fuel ≠ 0)
    have hvalue := readValue_chars v fuel (memberChars ms ++ rest) hms.1
      (closed_memberChars ms rest) (by omega)
    have hmembers := readMembers_memberChars ms fuel ((some k, ofValue v) :: acc) rest hms.2
      (by omega)
    rw [memberChars, List.cons_append, List.append_assoc, List.cons_append, List.append_assoc,
      readMembers_next k hvalue, hmembers, List.reverse_cons, List.append_assoc]
    rfl

end

/-- **The compact text of a value whose numbers are words is read back as that value.** -/
theorem ofChars_chars {v : Json} (hv : v.wordsOnly = true) :
    ofChars v.chars = ⟨ofValue v, true⟩ := by
  have hread := readValue_chars v (2 * v.chars.length + 2) [] hv closed_nil (by omega)
  rw [List.append_nil] at hread
  rw [ofChars, hread]
  rfl

end Json.Document

end BeaconReplay
