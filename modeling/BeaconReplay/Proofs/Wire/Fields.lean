import BeaconReplay.Proofs.Result
import BeaconReplay.Proofs.Text.Encoding
import BeaconReplay.Wire.Format

/-!
# Fields read back

A varint and a key are read back in front of whatever follows. A run of bytes fills a message
where the reader passes over it and has set its fields; runs that fill one after the other fill
together, and so a message is read back field by field. A field that is left out because it has
its default needs no bytes to be set.
-/
namespace BeaconReplay.Wire

/-! ## Varints and keys -/

/-- A number below 128 is one byte. -/
theorem readVarintBytes_last {n : ℕ} (h : n < 128) (room : ℕ) (rest : List UInt8) :
    readVarintBytes (room + 1) (n.toUInt8 :: rest) = some (n, rest) := by
  have hbyte : n.toUInt8.toNat = n := Utf8.toNat_ofNat (by omega)
  have hlast : n.toUInt8 < 128 := by
    rw [UInt8.lt_iff_toNat_lt, hbyte]
    exact h
  rw [readVarintBytes, if_pos hlast, hbyte]

/-- A byte with its high bit set holds seven bits of a number that goes on. -/
theorem readVarintBytes_more {n m room : ℕ} {bs rest : List UInt8}
    (h : readVarintBytes room bs = some (m, rest)) :
    readVarintBytes (room + 1) ((n % 128 + 128).toUInt8 :: bs) =
      some (n % 128 + 128 * m, rest) := by
  have hbyte : (n % 128 + 128).toUInt8.toNat = n % 128 + 128 := Utf8.toNat_ofNat (by omega)
  have hmore : ¬(n % 128 + 128).toUInt8 < 128 := by
    rw [UInt8.lt_iff_toNat_lt, hbyte]
    exact Nat.not_lt.2 (Nat.le_add_left _ _)
  simp only [readVarintBytes, if_neg hmore, h, Option.map_some, hbyte, Nat.add_sub_cancel]

/-- A varint with room enough is read back. -/
theorem readVarintBytes_varintBytes (rest : List UInt8) {room n : ℕ} (h : n < 128 ^ (room + 1)) :
    readVarintBytes (room + 1) (varintBytes (room + 1) n ++ rest) = some (n, rest) := by
  induction room generalizing n with
  | zero =>
    have hsmall : n < 128 := by simpa using h
    rw [varintBytes, if_pos hsmall]
    exact readVarintBytes_last hsmall 0 rest
  | succ room ih =>
    rw [varintBytes]
    split_ifs with hsmall
    · exact readVarintBytes_last hsmall (room + 1) rest
    · have hquotient : n / 128 < 128 ^ (room + 1) :=
        Nat.div_lt_of_lt_mul (by rwa [← Nat.pow_succ'])
      rw [List.cons_append, readVarintBytes_more (ih hquotient), Nat.mod_add_div]

/-- **The varint of a word is read back.** -/
theorem readVarint_varint (n : UInt64) (rest : List UInt8) :
    readVarint (varint n ++ rest) = some (n, rest) := by
  have hroom : n.toNat < 128 ^ (9 + 1) := n.toNat_lt_size.trans (by decide)
  rw [readVarint, varint, varintLimit, readVarintBytes_varintBytes rest hroom]
  simp [n.toNat_lt_size]

@[simp] theorem readWord_varint (n : UInt64) (rest : List UInt8) :
    readWord (varint n ++ rest) = .ok (n, rest) := by
  rw [readWord, readVarint_varint]

theorem varint_ne_nil (n : UInt64) : varint n ≠ [] := by
  rw [varint, varintLimit, varintBytes]
  split_ifs <;> simp

namespace WireType

theorem all_number (t : WireType) : all[t.number]? = some t := by
  cases t <;> rfl

theorem number_lt (t : WireType) : t.number < 8 := by
  cases t <;> decide

end WireType

/-- The tags that a key has room for. -/
def Tag (tag : ℕ) : Prop := 0 < tag ∧ tag < Nat.pow 2 29

instance (tag : ℕ) : Decidable (Tag tag) := inferInstanceAs (Decidable (_ ∧ _))

/-- The key of a field is read back. -/
theorem readKey_keyBytes {tag : ℕ} (htag : Tag tag) (t : WireType) (rest : List UInt8) :
    readKey (keyBytes tag t ++ rest) = .ok ((tag, t), rest) := by
  obtain ⟨hpos, hlt⟩ := htag
  have ht := t.number_lt
  have hpow : Nat.pow 2 29 = 536870912 := by norm_num
  have hkey : (tag * 8 + t.number).toUInt64.toNat = tag * 8 + t.number := by
    rw [UInt64.toNat_ofNat']
    exact Nat.mod_eq_of_lt (by omega)
  have hroom : ¬Nat.pow 2 32 ≤ tag * 8 + t.number := by
    have hpow' : Nat.pow 2 32 = 4294967296 := by norm_num
    omega
  have htype : (tag * 8 + t.number) % 8 = t.number := by omega
  have hquotient : (tag * 8 + t.number) / 8 = tag := by omega
  have hnonzero : tag ≠ 0 := by omega
  simp only [readKey, keyBytes, readWord_varint, Result.ok_bind, hkey, hroom, if_false, htype,
    hquotient, t.all_number, hnonzero, Result.pure_eq_ok]

/-! ## Contents behind a length -/

theorem toNat_length {bs : List UInt8} (h : bs.length < UInt64.size) :
    bs.length.toUInt64.toNat = bs.length := by
  rw [UInt64.toNat_ofNat']
  exact Nat.mod_eq_of_lt h

theorem readBytes_delimited {bs : List UInt8} (h : bs.length < UInt64.size) (rest : List UInt8) :
    readBytes (delimited bs ++ rest) = .ok (bs, rest) := by
  rw [readBytes, delimited, List.append_assoc, readWord_varint, Result.ok_bind]
  simp [toNat_length h]

theorem readText_delimited {s : String} (h : s.utf8ByteSize < UInt64.size) (rest : List UInt8) :
    readText (delimited (Utf8.encode s) ++ rest) = .ok (s, rest) := by
  have hlength : (Utf8.encode s).length < UInt64.size := by rwa [Utf8.length_encode]
  have hbytes := readBytes_delimited hlength rest
  rw [readText, hbytes, Result.ok_bind]
  simp [Utf8.fromUTF8?_encode]

/-! ## Runs of fields -/

namespace Schema

variable {μ κ : Type} {s : Schema μ} {depth tag : ℕ} {bs cs : List UInt8} {m m' m'' : μ}
  {name : String}

/-- Bytes fill a message if the reader passes over them, whatever follows, and has turned the
message into another one. -/
def Fills (s : Schema μ) (depth : ℕ) (bs : List UInt8) (m m' : μ) : Prop :=
  ∃ steps ≤ bs.length, ∀ fuel limit rest, limit ≤ rest.length →
    s.readFields depth limit (steps + fuel) (bs ++ rest) m = s.readFields depth limit fuel rest m'

theorem Fills.nil (m : μ) : s.Fills depth [] m m :=
  ⟨0, le_rfl, fun fuel limit rest _ => by rw [Nat.zero_add, List.nil_append]⟩

theorem Fills.append (h : s.Fills depth bs m m') (h' : s.Fills depth cs m' m'') :
    s.Fills depth (bs ++ cs) m m'' := by
  obtain ⟨k, hk, hfirst⟩ := h
  obtain ⟨l, hl, hsecond⟩ := h'
  refine ⟨k + l, by rw [List.length_append]; omega, fun fuel limit rest hlimit => ?_⟩
  have hlimit' : limit ≤ (cs ++ rest).length := by rw [List.length_append]; omega
  rw [List.append_assoc, Nat.add_assoc, hfirst _ _ _ hlimit', hsecond _ _ _ hlimit]

/-- The reader stops at its limit. -/
theorem readFields_of_le {limit : ℕ} (h : bs.length ≤ limit) (fuel : ℕ) :
    s.readFields depth limit fuel bs m = .ok (m, bs) := by
  cases fuel with
  | zero => rfl
  | succ fuel => rw [readFields, if_pos h, Result.pure_eq_ok]

/-- **Bytes that fill a message are decoded to it.** -/
theorem Fills.decode (h : s.Fills nestingLimit bs m m') : s.decode m bs = .ok m' := by
  obtain ⟨k, hk, hread⟩ := h
  have hstop : s.readFields nestingLimit 0 (bs.length - k) [] m' = .ok (m', []) :=
    readFields_of_le (Nat.le_of_eq List.length_nil) _
  have hall := hread (bs.length - k) 0 [] le_rfl
  rw [Nat.add_sub_cancel' hk, List.append_nil, hstop] at hall
  rw [Schema.decode, hall, Result.map_ok]

/-- Bytes that fill a nested message are read back behind their length. -/
theorem Fills.readNested (h : s.Fills depth bs m m') (hlength : bs.length < UInt64.size)
    (rest : List UInt8) :
    s.readNested (depth + 1) m (delimited bs ++ rest) = .ok (m', rest) := by
  obtain ⟨k, hk, hread⟩ := h
  have hfuel : (bs ++ rest).length = k + (bs.length - k + rest.length) := by
    rw [List.length_append]
    omega
  have hlimit : (bs ++ rest).length - bs.length = rest.length := by
    rw [List.length_append, Nat.add_sub_cancel_left]
  have hroom : ¬(bs ++ rest).length < bs.length := by
    rw [List.length_append]
    omega
  have hall := hread (bs.length - k + rest.length) rest.length rest le_rfl
  rw [readFields_of_le le_rfl, ← hfuel] at hall
  rw [Schema.readNested, delimited, List.append_assoc, readWord_varint, Result.ok_bind]
  simp only [toNat_length hlength, hroom, if_false, hlimit, hall, Result.ok_bind, if_true,
    Result.pure_eq_ok]

/-- A key and a content that its slot takes fill a message. -/
theorem fills_field (slot : Slot μ) {t : WireType} (htag : Tag tag)
    (hslot : s.slots.lookup tag = some slot) (htype : slot.type = t)
    (hread : ∀ rest, slot.read depth (bs ++ rest) m = .ok (m', rest)) :
    s.Fills depth (keyBytes tag t ++ bs) m m' := by
  have hkey : 0 < (keyBytes tag t).length := List.length_pos_iff.2 (varint_ne_nil _)
  refine ⟨1, by rw [List.length_append]; omega, fun fuel limit rest hlimit => ?_⟩
  have hmore : ¬(keyBytes tag t ++ bs ++ rest).length ≤ limit := by
    simp only [List.length_append]
    omega
  have hfield : s.readField depth (keyBytes tag t ++ bs ++ rest) m = .ok (m', rest) := by
    rw [readField, List.append_assoc, readKey_keyBytes htag, Result.ok_bind]
    simp only [hslot, expect, htype, if_true, Result.pure_eq_ok, Result.ok_bind, hread rest,
      Except.mapError]
  rw [Nat.add_comm, readFields, if_neg hmore, hfield, Result.ok_bind]

/-- The field of a word; zero is the default and is not written. -/
theorem fills_word {set : UInt64 → μ → μ} {n : UInt64} (htag : Tag tag)
    (hslot : s.slots.lookup tag = some (.word name set)) (hzero : set 0 m = m)
    (hset : set n m = m') : s.Fills depth (wordField tag n) m m' := by
  rw [wordField, ← hset]
  split_ifs with hn
  · rw [hn, hzero]
    exact .nil m
  · refine fills_field (.word name set) htag hslot rfl fun rest => ?_
    simp [Slot.word]

/-- The field of a flag; one that is not set is not written. -/
theorem fills_flag {set : Bool → μ → μ} {b : Bool} (htag : Tag tag)
    (hslot : s.slots.lookup tag = some (.flag name set)) (hzero : set false m = m)
    (hset : set b m = m') : s.Fills depth (flagField tag b) m m' := by
  rw [← hset]
  cases b with
  | false =>
    rw [hzero]
    exact .nil m
  | true =>
    refine fills_field (.flag name set) htag hslot rfl fun rest => ?_
    simp [Slot.flag]

/-- The field of a byte string; the empty one is not written. -/
theorem fills_bytes {set : List UInt8 → μ → μ} {content : List UInt8} (htag : Tag tag)
    (hslot : s.slots.lookup tag = some (.bytes name set)) (hlength : content.length < UInt64.size)
    (hzero : set [] m = m) (hset : set content m = m') :
    s.Fills depth (bytesField tag content) m m' := by
  rw [bytesField, ← hset]
  split_ifs with hempty
  · rw [List.isEmpty_iff.1 hempty, hzero]
    exact .nil m
  · refine fills_field (.bytes name set) htag hslot rfl fun rest => ?_
    simp [Slot.bytes, readBytes_delimited hlength]

/-- The field of a text; the empty one is not written. -/
theorem fills_text {set : String → μ → μ} {t : String} (htag : Tag tag)
    (hslot : s.slots.lookup tag = some (.text name set)) (hlength : t.utf8ByteSize < UInt64.size)
    (hzero : set "" m = m) (hset : set t m = m') : s.Fills depth (textField tag t) m m' := by
  rw [textField, ← Utf8.encode, bytesField, ← hset]
  split_ifs with hempty
  · have hsize : t.utf8ByteSize = 0 := by
      rw [← Utf8.length_encode, List.isEmpty_iff.1 hempty, List.length_nil]
    rw [String.utf8ByteSize_eq_zero_iff.1 hsize, hzero]
    exact .nil m
  · refine fills_field (.text name set) htag hslot rfl fun rest => ?_
    simp [Slot.text, readText_delimited hlength]

/-- The field of a nested message, which is always written. -/
theorem fills_message {inner : Schema κ} {zero k : κ} {add : κ → μ → μ} (htag : Tag tag)
    (hslot : s.slots.lookup tag = some (.message name inner zero add))
    (hinner : inner.Fills depth bs zero k) (hlength : bs.length < UInt64.size)
    (hadd : add k m = m') : s.Fills (depth + 1) (messageField tag bs) m m' := by
  rw [messageField, ← hadd]
  refine fills_field (.message name inner zero add) htag hslot rfl fun rest => ?_
  simp [Slot.message, hinner.readNested hlength]

end Schema

end BeaconReplay.Wire
