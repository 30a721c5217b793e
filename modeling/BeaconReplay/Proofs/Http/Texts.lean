import BeaconReplay.Http.Charset
import BeaconReplay.Proofs.Text.Encoding

/-!
# Texts of bodies

A body in UTF-8 is read as the text that it encodes. A mark in front of that text is no part of it,
and no other text has a mark. What the content type names counts only where there is no mark.
-/
namespace BeaconReplay

namespace Utf8

theorem decode_encode (s : String) : decode (encode s) = s := by
  rw [decode, chars_encode, List.map_map]
  simp [Function.comp_def]

/-- The bytes of a text are those of its characters. -/
theorem encode_cons (c : Char) (cs : List Char) : encode (String.ofList (c :: cs)) =
    encode (String.singleton c) ++ encode (String.ofList cs) := by
  simp [encode_eq]

end Utf8

namespace Http

namespace Charset

/-- The mark of UTF-8 is a character. -/
theorem encode_mark (cs : List Char) : Utf8.encode (String.ofList ('\ufeff' :: cs)) =
    0xEF :: 0xBB :: 0xBF :: Utf8.encode (String.ofList cs) := by
  have hmark : Utf8.encode (String.singleton '\ufeff') = [0xEF, 0xBB, 0xBF] := by decide +kernel
  rw [Utf8.encode_cons, hmark]
  rfl

/-- Only a text with that character in front has a mark. -/
theorem ofMark?_encode {s : String} (h : s.toList.head? ≠ some '\ufeff') :
    ofMark? (Utf8.encode s) = none := by
  have hchars := Utf8.chars_encode s
  generalize Utf8.encode s = body at hchars
  rw [ofMark?.eq_def]
  split
  · next rest =>
    have hhead : (Utf8.chars (0xEF :: 0xBB :: 0xBF :: rest)).head? = some (some '\ufeff') := rfl
    rw [hchars, List.head?_map, Option.map_eq_some_iff] at hhead
    obtain ⟨c, hc, hmark⟩ := hhead
    cases hmark
    exact absurd hc h
  · next rest =>
    have hhead : (Utf8.chars (0xFF :: 0xFE :: rest)).head? = some none := rfl
    rw [hchars, List.head?_map, Option.map_eq_some_iff] at hhead
    obtain ⟨c, -, hnone⟩ := hhead
    cases hnone
  · next rest =>
    have hhead : (Utf8.chars (0xFE :: 0xFF :: rest)).head? = some none := rfl
    rw [hchars, List.head?_map, Option.map_eq_some_iff] at hhead
    obtain ⟨c, -, hnone⟩ := hhead
    cases hnone
  · rfl

end Charset

variable [Tables] {contentType : Option String} {body : List UInt8} {text : String}

/-- What the text of a body is. A text in UTF-8 is itself, without a mark in front of it; other
bytes are read in the set that a mark shows or else in the one that the content type names, and in
UTF-8 with a replacement for each mistake if there is neither. -/
structure IsText (contentType : Option String) (body : List UInt8) (text : String) : Prop where
  same : ∀ s : String, body = Utf8.encode s → s.toList.head? ≠ some '\ufeff' →
    decoder? contentType = none → text = s
  behindMark : ∀ s : String, body = Utf8.encode (String.ofList ('\ufeff' :: s.toList)) → text = s
  shown : ∀ set rest, Charset.ofMark? body = some (set, rest) → text = set.decode rest
  named : Charset.ofMark? body = none →
    ∀ decode, decoder? contentType = some decode → text = decode body
  unnamed : Charset.ofMark? body = none → decoder? contentType = none →
    text.toList = (Utf8.chars body).map fun c => c.getD '\ufffd'

/-- **Every body has its text.** -/
theorem isText_bodyText (contentType : Option String) (body : List UInt8) :
    IsText contentType body (bodyText contentType body) where
  same s hbody hmark hdecoder := by
    rw [bodyText, hbody, Charset.ofMark?_encode hmark, hdecoder]
    exact Utf8.decode_encode s
  behindMark s hbody := by
    rw [bodyText, hbody, Charset.encode_mark, String.ofList_toList]
    exact Utf8.decode_encode s
  shown set rest hmark := by rw [bodyText, hmark]
  named hmark decode hdecoder := by rw [bodyText, hmark, hdecoder]
  unnamed hmark hdecoder := by
    rw [bodyText, hmark, hdecoder]
    exact String.toList_ofList

/-- A body has one text. -/
theorem IsText.unique {other : String} (h : IsText contentType body text)
    (hother : IsText contentType body other) : text = other := by
  cases hmark : Charset.ofMark? body with
  | some shown =>
    obtain ⟨set, rest⟩ := shown
    rw [h.shown set rest hmark, hother.shown set rest hmark]
  | none =>
    cases hdecoder : decoder? contentType with
    | some decode => rw [h.named hmark decode hdecoder, hother.named hmark decode hdecoder]
    | none =>
      rw [← String.toList_inj, h.unnamed hmark hdecoder, hother.unnamed hmark hdecoder]

end Http

end BeaconReplay
