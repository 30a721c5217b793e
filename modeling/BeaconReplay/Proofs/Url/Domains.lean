import BeaconReplay.Proofs.Url.Authorities

/-!
# Characters of hosts

A host of a special scheme is a domain, which holds no character with a meaning in a URL, or an
address in brackets, which is spelled by digits, colons and points. So a host ends where its port
begins, and nothing in it could be taken for the end of the host.
-/
namespace BeaconReplay

namespace Host

open Url (endsAuthority splitHost)

variable {x c sep : Char} {cs acc : List Char} {address : Host}

/-! ## Addresses in brackets -/

/-- Whether a character may stand in an address between brackets. -/
def isAddressChar (c : Char) : Bool := (Hex.value? c).isSome || c == ':' || c == '.'

theorem isAddressChar_of_isBlank (hc : isBlank c = true) : isAddressChar c = false := by
  have hall : ∀ n < 0x21, isAddressChar (Char.ofNat n) = false := by decide
  simpa using hall c.toNat (toNat_of_isBlank hc)

/-- Such a character is not blank, does not end a host and could not end credentials. -/
theorem plain_of_isAddressChar (hc : isAddressChar c = true) :
    isBlank c = false ∧ endsAuthority true c = false ∧ c ≠ '@' := by
  refine ⟨?_, ?_, ?_⟩
  · rw [← Bool.not_eq_true]
    intro hblank
    rw [isAddressChar_of_isBlank hblank] at hc
    cases hc
  · rw [← Bool.not_eq_true]
    intro hends
    simp only [endsAuthority, Bool.true_and, Bool.or_eq_true, beq_iff_eq] at hends
    rcases hends with ((rfl | rfl) | rfl) | rfl <;> cases hc
  · rintro rfl
    cases hc

theorem isAddressChar_of_digits? {base n : ℕ} (h : digits? base cs = some n) :
    ∀ c ∈ cs, isAddressChar c = true := by
  intro c hc
  cases hvalue : Hex.value? c with
  | none =>
    rw [Url.digits?_eq_none hvalue hc] at h
    cases h
  | some d => simp [isAddressChar, hvalue]

theorem mem_of_splitAtFrom (hc : c ∈ acc ∨ c ∈ cs) (hne : c ≠ sep) :
    ∃ part ∈ splitAtFrom sep acc cs, c ∈ part := by
  induction cs generalizing acc with
  | nil => exact ⟨acc.reverse, by simp [splitAtFrom], by simpa using hc⟩
  | cons d cs ih =>
    rw [splitAtFrom]
    split_ifs with hd
    · subst hd
      rcases hc with hc | hc
      · exact ⟨acc.reverse, List.mem_cons_self, by simpa using hc⟩
      · have hrest : c ∈ ([] : List Char) ∨ c ∈ cs := .inr ((List.mem_cons.1 hc).resolve_left hne)
        obtain ⟨part, hpart, hmem⟩ := ih hrest
        exact ⟨part, List.mem_cons_of_mem _ hpart, hmem⟩
    · refine ih ?_
      rcases hc with hc | hc
      · exact .inl (List.mem_cons_of_mem _ hc)
      · rcases List.mem_cons.1 hc with rfl | hc
        · exact .inl List.mem_cons_self
        · exact .inr hc

/-- A separator aside, the characters of a text are those of its parts. -/
theorem mem_of_splitAt (hc : c ∈ cs) (hne : c ≠ sep) : ∃ part ∈ splitAt sep cs, c ∈ part :=
  mem_of_splitAtFrom (.inr hc) hne

theorem exists_of_mapM {α β : Type} {f : α → Option β} {xs : List α} {ys : List β}
    (h : xs.mapM f = some ys) : ∀ x ∈ xs, ∃ y, f x = some y := by
  induction xs generalizing ys with
  | nil => exact List.forall_mem_nil _
  | cons x xs ih =>
    rw [List.mapM_cons] at h
    obtain ⟨y, hy, h⟩ := Option.bind_eq_some_iff.1 h
    obtain ⟨zs, hzs, -⟩ := Option.bind_eq_some_iff.1 h
    exact List.forall_mem_cons.2 ⟨⟨y, hy⟩, ih hzs⟩

theorem isAddressChar_of_decimalByte? {n : ℕ} (h : decimalByte? cs = some n) :
    ∀ c ∈ cs, isAddressChar c = true := by
  rw [decimalByte?.eq_def] at h
  split at h
  · cases h
  · exact List.forall_mem_singleton.2 rfl
  · cases h
  · obtain ⟨hdigits, -⟩ := Option.filter_eq_some_iff.1 h
    exact isAddressChar_of_digits? hdigits

theorem isAddressChar_of_dotted? {ps : List ℕ} (h : dotted? cs = some ps) :
    ∀ c ∈ cs, isAddressChar c = true := by
  intro c hc
  by_cases hdot : c = '.'
  · subst hdot
    rfl
  · obtain ⟨part, hpart, hmem⟩ := mem_of_splitAt hc hdot
    rw [dotted?] at h
    split at h
    · next hbytes =>
      obtain ⟨n, hn⟩ := exists_of_mapM hbytes part hpart
      exact isAddressChar_of_decimalByte? hn c hmem
    · cases h

theorem isAddressChar_of_piece? {n : ℕ} (h : piece? cs = some n) :
    ∀ c ∈ cs, isAddressChar c = true := by
  rw [piece?] at h
  split_ifs at h
  exact isAddressChar_of_digits? h

theorem isAddressChar_of_pieces? {groups : List (List Char)} {ps : List ℕ}
    (h : pieces? groups = some ps) : ∀ g ∈ groups, ∀ c ∈ g, isAddressChar c = true := by
  induction groups generalizing ps with
  | nil => exact List.forall_mem_nil _
  | cons group groups ih =>
    cases groups with
    | nil =>
      rw [List.forall_mem_singleton]
      rw [pieces?] at h
      split_ifs at h
      · exact isAddressChar_of_dotted? h
      · obtain ⟨n, hn, -⟩ := Option.map_eq_some_iff.1 h
        exact isAddressChar_of_piece? hn
    | cons next groups =>
      rw [pieces?] at h
      · obtain ⟨n, hn, h⟩ := Option.bind_eq_some_iff.1 h
        obtain ⟨qs, hqs, -⟩ := Option.bind_eq_some_iff.1 h
        exact List.forall_mem_cons.2 ⟨isAddressChar_of_piece? hn, ih hqs⟩
      · simp

theorem isAddressChar_of_side? {ps : List ℕ} (h : side? cs = some ps) :
    ∀ c ∈ cs, isAddressChar c = true := by
  intro c hc
  by_cases hcolon : c = ':'
  · subst hcolon
    rfl
  · obtain ⟨part, hpart, hmem⟩ := mem_of_splitAt hc hcolon
    rw [side?, if_neg (by simpa using List.ne_nil_of_mem hc)] at h
    exact isAddressChar_of_pieces? h part hpart c hmem

theorem eq_of_doubleColon? {before after : List Char} (h : doubleColon? cs = some (before, after)) :
    cs = before ++ ':' :: ':' :: after := by
  fun_induction doubleColon? cs generalizing before with
  | case1 rest =>
    cases h
    rfl
  | case2 c cs hno ih =>
    obtain ⟨⟨first, last⟩, hrest, hparts⟩ := Option.map_eq_some_iff.1 h
    cases hparts
    rw [ih hrest]
    rfl
  | case3 => cases h

/-- An address between brackets is spelled by digits, colons and points. -/
theorem isAddressChar_of_ipv6? {ps : List ℕ} (h : ipv6? cs = some ps) :
    ∀ c ∈ cs, isAddressChar c = true := by
  rw [ipv6?] at h
  split at h
  · exact isAddressChar_of_side? (Option.filter_eq_some_iff.1 h).1
  · next before after hdouble =>
    rw [eq_of_doubleColon? hdouble]
    split_ifs at h
    split at h
    · next hleft hright =>
      refine List.forall_mem_append.2 ⟨isAddressChar_of_side? hleft, ?_⟩
      simp only [List.forall_mem_cons]
      exact ⟨rfl, rfl, isAddressChar_of_side? hright⟩
    · cases h

theorem exists_brackets [Tables] (h : ofSpecial cs = .ok address) (hhead : cs.head? = some '[') :
    ∃ inner, cs = '[' :: (inner ++ [']']) ∧ ∀ c ∈ inner, isAddressChar c = true := by
  rw [ofSpecial, if_pos hhead, ofBrackets] at h
  split at h
  · next pieces hpieces =>
    obtain ⟨inner, hinner, hipv6⟩ := Option.bind_eq_some_iff.1 hpieces
    refine ⟨inner, ?_, isAddressChar_of_ipv6? hipv6⟩
    rw [unbracketed?.eq_def] at hinner
    split at hinner
    · next rest =>
      split at hinner
      · next reversed hreverse =>
        cases hinner
        rw [List.reverse_eq_iff.1 hreverse, List.reverse_cons]
      · cases hinner
    · cases hinner
  · cases h

/-! ## Hosts and what follows them -/

theorem splitHost_of_brackets {inner : List Char} (h : ']' ∉ inner) (ds : List Char) :
    splitHost true (inner ++ ']' :: ':' :: ds) = (inner ++ [']'], ':' :: ds) := by
  induction inner with
  | nil => simp [splitHost]
  | cons c inner ih =>
    obtain ⟨hc, hinner⟩ := not_or.1 (List.mem_cons.not.1 h)
    simp [splitHost, Ne.symm hc, ih hinner]

theorem splitHost_of_domain (hcolon : ':' ∉ cs) (hopen : '[' ∉ cs) (ds : List Char) :
    splitHost false (cs ++ ':' :: ds) = (cs, ':' :: ds) := by
  induction cs with
  | nil => simp [splitHost]
  | cons c cs ih =>
    obtain ⟨hc, hcolon⟩ := not_or.1 (List.mem_cons.not.1 hcolon)
    obtain ⟨hc', hopen⟩ := not_or.1 (List.mem_cons.not.1 hopen)
    simp [splitHost, Ne.symm hc, Ne.symm hc', ih hcolon hopen]

variable [Tables]

/-- A host is not empty. -/
theorem ne_nil_of_ofSpecial (h : ofSpecial cs = .ok address) : cs ≠ [] := by
  rintro rfl
  cases h

/-- Brackets aside, what stands neither in a domain nor in an address stands in no host. -/
theorem not_mem_of_ofSpecial (h : ofSpecial cs = .ok address) (hbarred : isBarred x = true)
    (haddress : isAddressChar x = false) (hopen : x ≠ '[') (hclose : x ≠ ']') : x ∉ cs := by
  by_cases hhead : cs.head? = some '['
  · obtain ⟨inner, rfl, hinner⟩ := exists_brackets h hhead
    intro hmem
    have hmem : x ∈ inner := by simpa [hopen, hclose] using hmem
    rw [hinner x hmem] at haddress
    cases haddress
  · exact not_mem_of_domain h hhead hbarred

/-- No character of a host is blank or ends a host, and none could end credentials. -/
theorem plain_of_ofSpecial (h : ofSpecial cs = .ok address) :
    ∀ c ∈ cs, isBlank c = false ∧ endsAuthority true c = false ∧ c ≠ '@' := by
  intro c hc
  refine ⟨?_, ?_, ?_⟩
  · rw [← Bool.not_eq_true]
    intro hblank
    exact not_mem_of_ofSpecial h (isBarred_of_isBlank hblank) (isAddressChar_of_isBlank hblank)
      (ne_of_isBlank hblank rfl) (ne_of_isBlank hblank rfl) hc
  · rw [← Bool.not_eq_true]
    intro hends
    simp only [endsAuthority, Bool.true_and, Bool.or_eq_true, beq_iff_eq] at hends
    rcases hends with ((rfl | rfl) | rfl) | rfl
    all_goals exact not_mem_of_ofSpecial h rfl rfl (by decide) (by decide) hc
  · rintro rfl
    exact not_mem_of_ofSpecial h rfl rfl (by decide) (by decide) hc

/-- The colon behind a host ends it. -/
theorem splitHost_of_ofSpecial (h : ofSpecial cs = .ok address) (ds : List Char) :
    splitHost false (cs ++ ':' :: ds) = (cs, ':' :: ds) := by
  by_cases hhead : cs.head? = some '['
  · obtain ⟨inner, rfl, hinner⟩ := exists_brackets h hhead
    have hclose : ']' ∉ inner := by
      intro hmem
      cases hinner _ hmem
    have hrest := splitHost_of_brackets hclose ds
    simp [splitHost, hrest]
  · exact splitHost_of_domain (not_mem_of_domain h hhead rfl) (not_mem_of_domain h hhead rfl) ds

end Host

end BeaconReplay
