import BeaconReplay.Proofs.Client.Answers

/-!
# The text of a fork version

A version is read as one number of eight digits and taken apart into bytes, and a root pair by
pair; both are written by the same two digits for each byte. The two readings take the same texts,
up to the number of their digits, as the same bytes.
-/
namespace BeaconReplay

namespace Hex

theorem digit_eq_digitChar {n : UInt8} (hn : n.toNat < 16) : digit n = Nat.digitChar n.toNat := by
  have hall : ∀ k < 16, digit (UInt8.ofNat k) = Nat.digitChar (UInt8.ofNat k).toNat := by decide
  simpa using hall n.toNat hn

/-- A byte string is written by two digits for each byte, behind the marker. -/
theorem toList_encode (bs : List UInt8) : (encode bs).toList = '0' :: 'x' :: bs.flatMap fun b =>
    [Nat.digitChar (b.toNat / 16), Nat.digitChar (b.toNat % 16)] := by
  rw [encode, String.toList_ofList, digits]
  refine congrArg (fun cs => '0' :: 'x' :: cs) (List.flatMap_congr fun b _ => ?_)
  have hhigh := high_lt b
  have hlow := low_lt b
  have hb := toNat_eq_halves b
  have hquotient : (b >>> 4).toNat = b.toNat / 16 := by omega
  have hremainder : (b &&& 15).toNat = b.toNat % 16 := by omega
  rw [byteDigits, digit_eq_digitChar hhigh, digit_eq_digitChar hlow, hquotient, hremainder]

theorem encode_injective : Function.Injective encode := by
  intro as bs h
  have hread := decode?_encode bs.length bs
  rw [← h, decode?_encode, if_pos rfl] at hread
  split_ifs at hread
  exact Option.some_inj.1 hread

end Hex

namespace ForkVersion

variable {s : String} {v : ForkVersion}

/-- The check in front of the reader of numbers is passed by written versions only. -/
theorem check_iff : ((Hex.digitBytes s).length = 8 && (Hex.digitBytes s).all Hex.isDigit) = true ↔
    Hex.Written 4 s := by
  rw [Bool.and_eq_true, decide_eq_true_eq, ← Hex.exists_decode?_iff]
  exact Hex.all_isDigit_iff (n := 4)

theorem parse?_eq_some_iff : parse? s = some v ↔ Hex.decode? 4 s = some v.bytes.toList := by
  rw [parse?_eq, Option.bind_eq_some_iff]
  constructor
  · rintro ⟨bs, hbs, hv⟩
    rw [hbs, (ofList?_eq_some hv).2]
  · intro h
    exact ⟨v.bytes.toList, h, ofList?_toList⟩

theorem exists_parse?_iff : (∃ v, parse? s = some v) ↔ Hex.Written 4 s := by
  rw [← Hex.exists_decode?_iff]
  constructor
  · rintro ⟨v, h⟩
    exact ⟨v.bytes.toList, parse?_eq_some_iff.1 h⟩
  · rintro ⟨bs, h⟩
    obtain ⟨hlength, -⟩ := Hex.decode?_eq_some_iff_spells.1 h
    exact ⟨⟨⟨bs.toArray, by simpa using hlength⟩⟩, parse?_eq_some_iff.2 (by simpa using h)⟩

/-- A version has the bytes that its digits spell, which are those of their pairs. -/
theorem parse?_eq_some_iff_spells : parse? s = some v ↔ ∃ ds, Hex.Spells s ds v.bytes.toList ∧
    Hex.pairs? Hex.nibble? (Utf8.encode (String.ofList ds)) = some v.bytes.toList ∧
    v.text = String.ofList ('0' :: 'x' :: ds.map Char.toLower) := by
  rw [parse?_eq_some_iff, Hex.decode?_eq_some_iff_spells, and_iff_right (by simp)]
  constructor
  · rintro ⟨ds, h⟩
    refine ⟨ds, h, ?_, h.encode_eq⟩
    rw [Hex.pairs?_encode, String.toList_ofList, h.bytes?_eq]
  · rintro ⟨ds, h, -⟩
    exact ⟨ds, h⟩

/-- The reader of numbers alone takes a sign, which is no digit. -/
example : Hex.word32? [43, 48, 49] = some 1 ∧ Hex.isDigit 43 = false := by decide

end ForkVersion

/-- **Hexadecimal text is one format.** Byte strings are written by two lower-case digits for each
byte, so different ones differently and those of roots as the roots. A version is read exactly from
the texts that have eight digits of either case behind one marker or none, and no other text passes
the check in front of the reader of numbers. The bytes of the version are the ones that these digits
spell, which reading them pair by pair gives as well, and it is written by the same digits in lower
case. The text of a version reads back. -/
theorem Hex.codecs_agree :
    (∀ bs, (encode bs).toList = '0' :: 'x' :: bs.flatMap fun b =>
      [Nat.digitChar (b.toNat / 16), Nat.digitChar (b.toNat % 16)]) ∧
    Function.Injective encode ∧
    (∀ r : Root, encode r.toList = r.text) ∧
    (∀ s, ((digitBytes s).length = 8 && (digitBytes s).all isDigit) = true ↔ Written 4 s) ∧
    (∀ s, (∃ v, ForkVersion.parse? s = some v) ↔ Written 4 s) ∧
    (∀ s v, ForkVersion.parse? s = some v ↔ ∃ ds, Spells s ds v.bytes.toList ∧
      pairs? nibble? (Utf8.encode (String.ofList ds)) = some v.bytes.toList ∧
      v.text = String.ofList ('0' :: 'x' :: ds.map Char.toLower)) ∧
    ∀ v : ForkVersion, ForkVersion.parse? v.text = some v := by
  refine ⟨toList_encode, encode_injective, fun r => r.text_eq_encode.symm,
    fun _ => ForkVersion.check_iff, fun _ => ForkVersion.exists_parse?_iff,
    fun _ _ => ForkVersion.parse?_eq_some_iff_spells, fun v => ?_⟩
  rw [ForkVersion.text, ForkVersion.parse?_encode, ForkVersion.ofList?_toList]

end BeaconReplay
