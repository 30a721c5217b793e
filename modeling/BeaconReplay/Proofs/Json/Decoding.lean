import BeaconReplay.Client.Duty
import BeaconReplay.Proofs.Codec.Records
import BeaconReplay.Proofs.Json.Members
import BeaconReplay.Proofs.Json.Reading
import BeaconReplay.Proofs.Text.Encoding

/-!
# Decoding values from their texts

A reader takes a value for something if it gives it wherever the value stands in a text. The
readers of texts, flags, words and roots take the values that are written for them, and those of
lists and records what is put together from these. The bytes of a compact text are read as the
value itself.
-/
namespace BeaconReplay.Json

open Document (ofValue)

/-! ## Bodies -/

/-- Characters are read as they are, escaped or not. -/
theorem bodyCharsFrom_some (escaped : Bool) (cs : List Char) :
    bodyCharsFrom escaped (cs.map some) = cs := by
  induction cs generalizing escaped with
  | nil => rfl
  | cons c cs ih => rw [List.map_cons, bodyCharsFrom, ih]

/-- The characters of a body that is a text. -/
theorem bodyChars_encode (s : String) : bodyChars (Utf8.encode s) = s.toList := by
  rw [bodyChars, Utf8.chars_encode, bodyCharsFrom_some]

/-- A string that has lost its value does not get one. -/
theorem readString_none {fuel : ℕ} {cs rest : List Char} {s : Option (List Char)}
    (h : Document.readString fuel none cs = some (s, rest)) : s = none := by
  induction fuel generalizing cs with
  | zero => cases h
  | succ fuel ih =>
    cases cs with
    | nil => cases h
    | cons c cs =>
      rw [Document.readString.eq_def] at h
      dsimp only at h
      split_ifs at h with hquote
      · cases h
        rfl
      · repeat' split at h
        all_goals first
          | cases h
          | exact ih h
      · exact ih h

/-- A string with a byte in it that is no character has no value, whatever stands around it. -/
theorem readString_mistake {fuel : ℕ} {acc s : Option (List Char)} {rest : List (Option Char)}
    {tail : List Char}
    (h : Document.readString fuel acc (bodyCharsFrom false (none :: rest)) = some (s, tail)) :
    s = none := by
  cases fuel with
  | zero => cases h
  | succ fuel =>
    have hrest : Document.readString fuel none ('x' :: bodyCharsFrom false rest) =
        some (s, tail) := h
    exact readString_none hrest

/-- Behind a backslash such a byte breaks the string off. -/
theorem readString_escaped_mistake (fuel : ℕ) (acc : Option (List Char))
    (rest : List (Option Char)) :
    Document.readString fuel acc (bodyCharsFrom false (some '\\' :: none :: rest)) = none := by
  cases fuel <;> rfl

example : decodeBody source.text [0x22, 0x5C, 0xFF, 0x22] = .error .malformed ∧
    decodeBody source.text ([0x22, 0xFF] ++ Utf8.encode "\\udc00\"") = .error .malformed := by
  decide +kernel

/-- **A body that is the compact text of a value is decoded as that value.** -/
theorem decodeBody_text {α : Type} {v : Json} (hv : v.wordsOnly = true) (read : Node → Decoded α) :
    decodeBody read (Utf8.encode v.text) = read (.ofText (ofValue v)) := by
  rw [decodeBody, bodyChars_encode, text, String.toList_ofList, Document.ofChars_chars hv,
    decodeReading]
  cases read (.ofText (ofValue v)) <;> rfl

/-! ## Readers -/

section Reads

variable {α : Type} {read : Node → Decoded α} {n : Node}

/-- A reader takes a value for something if it gives it wherever the value stands. -/
def Reads (read : Node → Decoded α) (v : Json) (a : α) : Prop :=
  ∀ n : Node, n.document = ofValue v → read n = .ok a

theorem Reads.below {v : Json} {a : α} (h : Reads read v a) (n : Node) :
    read (n.below (ofValue v)) = .ok a :=
  h _ rfl

theorem reads_text (s : String) : Reads source.text (.string s) s := by
  intro n hn
  change n.text = .ok s
  simp [Node.text, hn, ofValue]

theorem reads_flag (b : Bool) : Reads source.flag (.boolean b) b := by
  intro n hn
  change n.flag = .ok b
  simp [Node.flag, hn, ofValue]

theorem reads_quotedWord (m : UInt64) : Reads source.quotedWord (.quotedWord m) m := by
  intro n hn
  change n.quotedWord = .ok m
  simp [Node.quotedWord, hn, Json.quotedWord, ofValue, Decimal.word_text, Except.mapError]

/-- The text of a byte string is read as a root if the bytes are one. -/
theorem root_eq_ok_iff {bs : List UInt8} {r : Root}
    (hn : n.document = ofValue (.string (Hex.encode bs))) :
    source.root n = .ok r ↔ Root.ofList? bs = some r := by
  rw [Source.root, reads_text _ n hn, Result.ok_bind, Root.parse?_encode]
  cases Root.ofList? bs <;> simp

theorem reads_root (r : Root) : Reads source.root r.json r := by
  intro n hn
  rw [Root.json, r.text_eq_encode] at hn
  exact (root_eq_ok_iff hn).2 r.ofList?_toList

/-- Items that are read one by one are read together. -/
theorem mapM_items {item : α → Json} (h : ∀ a, Reads read (item a) a) (xs : List α) :
    (xs.map fun a => n.below (ofValue (item a))).mapM read = .ok xs := by
  induction xs with
  | nil => rfl
  | cons x xs ih => simp [(h x).below n, ih]

/-- A list is read if each of its items is. -/
theorem reads_list {item : α → Json} (h : ∀ a, Reads read (item a) a) (xs : List α) :
    Reads (source.list read) (.array (xs.map item)) xs.toArray := by
  intro n hn
  have hsequence : source.sequence n =
      .ok ⟨xs.map fun a => n.below (ofValue (item a)), none⟩ := by
    change n.sequence = _
    simp [Node.sequence, hn, ofValue, Node.ending, Function.comp_def]
  exact Source.list_eq_ok hsequence (mapM_items h xs)

/-- The member of a record with a name. -/
def Node.field (n : Node) (m : String × Json) : String × Node :=
  (m.1, n.below (Document.ofValue m.2))

/-- An object gives its members by name. -/
theorem record_object {ms : List (String × Json)} (name : String)
    (hn : n.document = ofValue (.object ms)) :
    source.record name n = .ok (.named ⟨ms.map n.field, none⟩) := by
  have hnamed : n.named (Document.ofMembers ms) true = ⟨ms.map n.field, none⟩ := by
    clear hn
    induction ms with
    | nil => rfl
    | cons m ms ih => simp [Document.ofMembers, Node.named, ih, Node.field]
  change n.record name = _
  simp [Node.record, hn, ofValue, hnamed]

/-- A member whose value is read is accepted as the field of its name. -/
theorem accepts_field {fields : List (Field Node)} {name : String} {v : Json} {a : α}
    (hfield : Field.find? fields name = some (.of name read)) (h : Reads read v a) :
    Field.Accepts fields (n.field (name, v)) :=
  Field.accepts_of hfield (h.below n)

/-- **A record is read from its members, in whatever order they are listed**: the members are
accepted fields of different names, and what is built looks each of them up by its name. -/
theorem reads_record {v : Json} {ms : List (String × Json)} {fields : List (Field Node)}
    {name : String} {build : Entries Node → Decoded α} {a : α} (hv : v.Lists ms)
    (hnodup : (ms.map Prod.fst).Nodup)
    (hchecks : ∀ n : Node, ∀ m ∈ ms, Field.Accepts fields (n.field m))
    (hbuild : ∀ (n : Node) (e : Entries Node),
      (∀ m ∈ ms, e.values.lookup m.1 = some (n.below (ofValue m.2))) → build e = .ok a) :
    Reads (fun n => source.inside n (source.entries name fields n >>= build)) v a := by
  intro n hn
  obtain ⟨listed, rfl, hperm⟩ := hv
  have hnames : ((listed.map n.field).map Prod.fst).Nodup := by
    rw [List.map_map]
    exact (hperm.map Prod.fst).nodup_iff.2 hnodup
  have haccepts : ∀ m ∈ listed.map n.field, Field.Accepts fields m := by
    intro m hm
    obtain ⟨member, hmember, rfl⟩ := List.mem_map.1 hm
    exact hchecks n member (hperm.mem_iff.1 hmember)
  refine Source.inside_ok ?_
  rw [Source.entries_eq_ok (record_object name hn) hnames haccepts, Result.ok_bind]
  refine hbuild n _ fun m hm => (Names.lookup_eq_some_iff hnames).2 ?_
  exact List.mem_map_of_mem (f := n.field) (hperm.mem_iff.2 hm)

end Reads

end BeaconReplay.Json
