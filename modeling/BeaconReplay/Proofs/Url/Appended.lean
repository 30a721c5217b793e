import BeaconReplay.Proofs.Url.Hosts
import BeaconReplay.Url.Basic

/-!
# A text behind the text of a URL

Blanks are cut off from both ends of a URL, and tabs and breaks inside it are dropped. So what is
read of a text and another one behind it is the front of the first, which keeps the blanks at its
end, and the second. The scheme is the same as without the second, unless that one could go on
with it.
-/
namespace BeaconReplay.Url

open Host (isBlank ne_of_isBlank)

/-! ## Texts that are cut where a character stops them -/

section

variable {α : Type} {p : α → Bool} {x : α}

/-- What stands behind the first character that fails does not count. -/
theorem takeWhile_append_stop (hx : p x = false) (cs ys : List α) :
    (cs ++ x :: ys).takeWhile p = cs.takeWhile p := by
  induction cs with
  | nil => simp [hx]
  | cons c cs ih => simp only [List.cons_append, List.takeWhile_cons, ih]

theorem dropWhile_append_stop (hx : p x = false) (cs ys : List α) :
    (cs ++ x :: ys).dropWhile p = cs.dropWhile p ++ x :: ys := by
  induction cs with
  | nil => simp [hx]
  | cons c cs ih =>
    simp only [List.cons_append, List.dropWhile_cons, ih]
    split <;> rfl

/-- From behind, what stands in front of it does not count. -/
theorem rtakeWhile_append_stop (hx : p x = false) (cs ys : List α) :
    (cs ++ x :: ys).rtakeWhile p = ys.rtakeWhile p := by
  have hreverse : (cs ++ x :: ys).reverse = ys.reverse ++ x :: cs.reverse := by simp
  rw [List.rtakeWhile, hreverse, takeWhile_append_stop hx, List.rtakeWhile]

theorem rdropWhile_append_stop (hx : p x = false) (cs ys : List α) :
    (cs ++ x :: ys).rdropWhile p = cs ++ x :: ys.rdropWhile p := by
  have hreverse : (cs ++ x :: ys).reverse = ys.reverse ++ x :: cs.reverse := by simp
  rw [List.rdropWhile, hreverse, dropWhile_append_stop hx, List.rdropWhile]
  simp

/-- What passes at the end of a text is dropped with what is dropped in front of it. -/
theorem rdropWhile_append_of_pos {ys : List α} (h : ∀ y ∈ ys, p y = true) (cs : List α) :
    (cs ++ ys).rdropWhile p = cs.rdropWhile p := by
  have hreverse : ∀ y ∈ ys.reverse, p y = true := fun y hy => h y (List.mem_reverse.1 hy)
  rw [List.rdropWhile, List.reverse_append, List.dropWhile_append_of_pos hreverse, List.rdropWhile]

end

/-! ## Blanks and breaks -/

/-- Whether a character is neither a tab nor a break. -/
def isKept (c : Char) : Bool := c != '\t' && c != '\n' && c != '\r'

/-- What is read of a text that others follow. -/
def front (cs : List Char) : List Char := (cs.dropWhile isBlank).filter isKept

theorem cleaned_eq (s : String) :
    cleaned s = ((s.toList.dropWhile isBlank).rdropWhile isBlank).filter isKept := rfl

theorem isKept_of_visible {c : Char} (hc : isBlank c = false) : isKept c = true := by
  simp only [isKept, Bool.and_eq_true, bne_iff_ne]
  refine ⟨⟨?_, ?_⟩, ?_⟩ <;> rintro rfl <;> cases hc

theorem filter_isKept_of_visible {cs : List Char} (h : ∀ c ∈ cs, isBlank c = false) :
    cs.filter isKept = cs :=
  List.filter_eq_self.2 fun c hc => isKept_of_visible (h c hc)

/-- Alone, a text also loses the blanks at its end. -/
theorem front_eq_cleaned_append (s : String) :
    ∃ blanks, front s.toList = cleaned s ++ blanks ∧ ∀ x ∈ blanks, isBlank x = true := by
  refine ⟨((s.toList.dropWhile isBlank).rtakeWhile isBlank).filter isKept, ?_, ?_⟩
  · rw [cleaned_eq, ← List.filter_append, List.rdropWhile_append_rtakeWhile, front]
  · intro x hx
    exact List.mem_rtakeWhile_imp (List.mem_of_mem_filter hx)

theorem front_of_visible {cs : List Char} (h : ∀ c ∈ cs, isBlank c = false) : front cs = cs := by
  have hhead : cs.dropWhile isBlank = cs := by
    cases cs with
    | nil => rfl
    | cons c cs => simp [h c List.mem_cons_self]
  rw [front, hhead, filter_isKept_of_visible h]

/-- What is read of a text does not depend on what follows it. -/
theorem front_append {y : Char} {ys : List Char} (h : ∀ c ∈ y :: ys, isBlank c = false)
    (cs : List Char) : front (cs ++ y :: ys) = front cs ++ y :: ys := by
  have hy : isBlank y = false := h y List.mem_cons_self
  rw [front, dropWhile_append_stop hy, List.filter_append, filter_isKept_of_visible h, front]

/-- A text that ends in a visible character loses nothing at its end. -/
theorem cleaned_append {s : String} {y : Char} {cs ys : List Char} (hs : s.toList = cs ++ y :: ys)
    (h : ∀ c ∈ y :: ys, isBlank c = false) : cleaned s = front cs ++ y :: ys := by
  have hy : isBlank y = false := h y List.mem_cons_self
  have hlast : (cs.dropWhile isBlank ++ y :: ys).rdropWhile isBlank =
      cs.dropWhile isBlank ++ y :: ys := by
    refine List.rdropWhile_eq_self_iff.2 fun hl => ?_
    have hmem := List.getLast_mem (List.cons_ne_nil y ys)
    rw [List.getLast_append_of_ne_nil _ (List.cons_ne_nil y ys), h _ hmem]
    exact Bool.false_ne_true
  rw [cleaned_eq, hs, dropWhile_append_stop hy, hlast, List.filter_append,
    filter_isKept_of_visible h, front]

/-! ## Schemes -/

/-- Whether no character of a scheme and no colon stands at the head of a text. -/
def LeavesScheme (ys : List Char) : Prop := ∀ y ∈ ys.head?, isSchemeChar y = false ∧ y ≠ ':'

/-- A text that could neither go on with a scheme nor end it leaves the scheme alone. -/
theorem scheme?_append {ys : List Char} (h : LeavesScheme ys) (cs : List Char) :
    scheme? (cs ++ ys) = (scheme? cs).map fun found => (found.1, found.2 ++ ys) := by
  cases ys with
  | nil => simp
  | cons y ys =>
    obtain ⟨hy, hcolon⟩ := h y rfl
    cases cs with
    | nil =>
      have hletter : isLetter y = false := by
        simp only [isSchemeChar, Bool.or_eq_false_iff] at hy
        exact hy.1.1.1.1
      simp [scheme?, hletter]
    | cons c cs =>
      have hspan : ((c :: cs) ++ y :: ys).span isSchemeChar =
          ((c :: cs).takeWhile isSchemeChar, (c :: cs).dropWhile isSchemeChar ++ y :: ys) := by
        rw [List.span_eq_takeWhile_dropWhile, takeWhile_append_stop hy, dropWhile_append_stop hy]
      simp only [scheme?, List.cons_append] at hspan ⊢
      rw [hspan, List.span_eq_takeWhile_dropWhile]
      cases isLetter c with
      | false => rfl
      | true =>
        cases hrest : (c :: cs).dropWhile isSchemeChar with
        | nil => simp [hcolon]
        | cons d ds =>
          by_cases hd : d = ':'
          · subst hd
            rfl
          · simp [hd]

theorem scheme?_of_append {cs ys rest : List Char} {scheme : String} (h : LeavesScheme ys)
    (hscheme : scheme? (cs ++ ys) = some (scheme, rest)) :
    ∃ r, scheme? cs = some (scheme, r) ∧ rest = r ++ ys := by
  rw [scheme?_append h, Option.map_eq_some_iff] at hscheme
  obtain ⟨⟨s, r⟩, hcs, heq⟩ := hscheme
  cases heq
  exact ⟨r, hcs, rfl⟩

theorem leavesScheme_slash (ys : List Char) : LeavesScheme ('/' :: ys) := by
  rintro y ⟨⟩
  decide

theorem leavesScheme_blanks {blanks : List Char} (h : ∀ x ∈ blanks, isBlank x = true) :
    LeavesScheme blanks := by
  intro y hy
  have hblank : isBlank y = true := h y (List.mem_of_mem_head? hy)
  have hall : ∀ n < 0x21, isSchemeChar (Char.ofNat n) = false := by decide
  refine ⟨?_, ne_of_isBlank hblank rfl⟩
  simpa using hall y.toNat (Host.toNat_of_isBlank hblank)

end BeaconReplay.Url
