import BeaconReplay.Proofs.Text.Encoding

/-!
# The order of texts

Texts are compared character by character, and their bytes byte by byte. Both give the same order:
of two characters the greater one has the more bytes, or as many and the greater ones in front.
-/
namespace BeaconReplay.Utf8

variable {xs ys : List UInt8}

theorem ofNat_cons_lt {m n : ℕ} (hn : n < 256) (h : m < n ∨ m = n ∧ xs < ys) :
    UInt8.ofNat m :: xs < UInt8.ofNat n :: ys := by
  rw [List.cons_lt_cons_iff]
  rcases h with hlt | ⟨rfl, hrest⟩
  · left
    rw [UInt8.lt_iff_toNat_lt, toNat_ofNat (by omega), toNat_ofNat hn]
    exact hlt
  · exact .inr ⟨rfl, hrest⟩

/-- A character in front of another one is so byte by byte, whatever follows them. -/
theorem utf8EncodeChar_append_lt {c d : Char} (h : c < d) :
    String.utf8EncodeChar c ++ xs < String.utf8EncodeChar d ++ ys := by
  have hc := toNat_cases c
  have hd := toNat_cases d
  have hlt : c.toNat < d.toNat := h
  have hcval : c.val.toNat = c.toNat := rfl
  have hdval : d.val.toNat = d.toNat := rfl
  unfold String.utf8EncodeChar
  rw [hcval, hdval]
  generalize c.toNat = v at hc hlt
  generalize d.toNat = w at hd hlt
  dsimp only
  split_ifs <;> simp only [List.cons_append, List.nil_append]
  -- a character of one byte, or of fewer bytes than the other, has the smaller first byte
  all_goals try exact ofNat_cons_lt (by omega) (.inl (by omega))
  · by_cases hone : v / 64 = w / 64
    · exact ofNat_cons_lt (by omega) (.inr ⟨by omega, ofNat_cons_lt (by omega) (.inl (by omega))⟩)
    · exact ofNat_cons_lt (by omega) (.inl (by omega))
  · by_cases hone : v / 4096 = w / 4096
    · refine ofNat_cons_lt (by omega) (.inr ⟨by omega, ofNat_cons_lt (by omega) ?_⟩)
      by_cases htwo : v / 64 = w / 64
      · exact .inr ⟨by omega, ofNat_cons_lt (by omega) (.inl (by omega))⟩
      · exact .inl (by omega)
    · exact ofNat_cons_lt (by omega) (.inl (by omega))
  · by_cases hone : v / 262144 = w / 262144
    · refine ofNat_cons_lt (by omega) (.inr ⟨by omega, ofNat_cons_lt (by omega) ?_⟩)
      by_cases htwo : v / 4096 = w / 4096
      · refine .inr ⟨by omega, ofNat_cons_lt (by omega) ?_⟩
        by_cases hthree : v / 64 = w / 64
        · exact .inr ⟨by omega, ofNat_cons_lt (by omega) (.inl (by omega))⟩
        · exact .inl (by omega)
      · exact .inl (by omega)
    · exact ofNat_cons_lt (by omega) (.inl (by omega))

theorem flatMap_lt_of_lt {cs ds : List Char} (h : cs < ds) :
    cs.flatMap String.utf8EncodeChar < ds.flatMap String.utf8EncodeChar := by
  induction h with
  | @nil d ds =>
    obtain ⟨b, bs, hbytes, -⟩ := next_utf8EncodeChar d []
    rw [List.flatMap_nil, List.flatMap_cons, hbytes]
    exact List.nil_lt_cons _ _
  | cons _ ih =>
    rw [List.flatMap_cons, List.flatMap_cons]
    exact List.append_left_lt ih
  | rel h =>
    rw [List.flatMap_cons, List.flatMap_cons]
    exact utf8EncodeChar_append_lt h

/-- **The order of texts is the order of their bytes.** -/
theorem encode_lt_encode_iff {s t : String} : encode s < encode t ↔ s < t := by
  have hmono : ∀ {s t : String}, s < t → encode s < encode t := by
    intro s t h
    rw [encode_eq, encode_eq]
    exact flatMap_lt_of_lt (String.lt_iff_toList_lt.1 h)
  refine ⟨fun h => ?_, hmono⟩
  rcases lt_trichotomy s t with hlt | rfl | hgt
  · exact hlt
  · exact absurd h (List.lt_irrefl _)
  · exact absurd (hmono hgt) (List.lt_asymm h)

end BeaconReplay.Utf8
