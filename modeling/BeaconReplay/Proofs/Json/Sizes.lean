import BeaconReplay.Json.Document
import Mathlib

/-!
# Sizes of integers

A numeral without a point and without an exponent is an integer only if it fits one of the 64-bit
ranges. So no integer of a document that was read from a text, however deep it stands, is larger
than a word.
-/
namespace BeaconReplay

/-- The integer that a numeral stands for is smaller than `2 ^ 64`. -/
theorem Numeral.lt_of_value? {n : Numeral} {i : ℤ} (h : n.value? = some (.integer i)) :
    i < UInt64.size := by
  unfold Numeral.value? at h
  dsimp only at h
  split_ifs at h with hword hnegative
  · cases h
    simp only [Bool.and_eq_true, decide_eq_true_eq] at hword
    exact_mod_cast hword.2
  · cases h
    have hsize : (0 : ℤ) < UInt64.size := by decide
    omega
  · obtain ⟨x, -, hx⟩ := Option.map_eq_some_iff.1 h
    cases hx

namespace Json.Document

/-- A document no integer of which is larger than a word. -/
inductive Sized : Document → Prop
  | null : Sized .null
  | boolean (b : Bool) : Sized (.boolean b)
  | number {n : Option JsonNumber} (lt : ∀ i, n = some (.integer i) → i < UInt64.size) :
      Sized (.number n)
  | string (s : Option String) : Sized (.string s)
  | array {ds : List Document} {closed : Bool} (items : ∀ d ∈ ds, Sized d) :
      Sized (.array ds closed)
  | object {ms : List (Option String × Document)} {ending : Ending}
      (members : ∀ m ∈ ms, Sized m.2) : Sized (.object ms ending)
  | broken : Sized .broken

variable {fuel : ℕ} {first : Bool} {cs : List Char}

theorem Sized.array_reverse {ds : List Document} (h : ∀ d ∈ ds, d.Sized) (closed : Bool) :
    (Document.array ds.reverse closed).Sized :=
  .array fun d hd => h d (List.mem_reverse.1 hd)

theorem Sized.object_reverse {ms : List (Option String × Document)} (h : ∀ m ∈ ms, m.2.Sized)
    (ending : Ending) : (Document.object ms.reverse ending).Sized :=
  .object fun m hm => h m (List.mem_reverse.1 hm)

/-- What is read with less fuel is sized. -/
structure ReadsSized (fuel : ℕ) : Prop where
  value : ∀ cs, (readValue fuel cs).1.Sized
  items : ∀ first acc cs, (∀ d ∈ acc, d.Sized) → (readItems fuel first acc cs).1.Sized
  members : ∀ first acc cs, (∀ m ∈ acc, m.2.Sized) → (readMembers fuel first acc cs).1.Sized

theorem sized_readValue (h : ReadsSized fuel) (cs : List Char) :
    (readValue (fuel + 1) cs).1.Sized := by
  rw [readValue]
  split
  · exact .broken
  · split_ifs
    · split
      · exact .string _
      · exact .broken
    · exact h.items _ _ _ (List.forall_mem_nil _)
    · exact h.members _ _ _ (List.forall_mem_nil _)
    · split
      · exact .null
      · exact .broken
    · split
      · exact .boolean _
      · exact .broken
    · split
      · exact .boolean _
      · exact .broken
    · split
      · exact .number fun i hi => Numeral.lt_of_value? hi
      · exact .broken
    · exact .broken

/-- One more item is sized, and so are the ones behind it. -/
theorem sized_item (h : ReadsSized fuel) {acc : List Document} (hacc : ∀ d ∈ acc, d.Sized)
    (cs : List Char) : (match readValue fuel cs with
      | (v, some rest) => readItems fuel false (v :: acc) rest
      | (v, none) => (.array (v :: acc).reverse false, none)).1.Sized := by
  have hmore : ∀ d ∈ (readValue fuel cs).1 :: acc, d.Sized :=
    List.forall_mem_cons.2 ⟨h.value cs, hacc⟩
  split
  · next v rest hread =>
    rw [hread] at hmore
    exact h.items _ _ _ hmore
  · next v hread =>
    rw [hread] at hmore
    exact .array_reverse hmore _

theorem sized_readItems (h : ReadsSized fuel) {acc : List Document} (hacc : ∀ d ∈ acc, d.Sized) :
    (readItems (fuel + 1) first acc cs).1.Sized := by
  have hitem := sized_item h hacc
  rw [readItems]
  dsimp only
  split
  · exact .array_reverse hacc _
  · split_ifs
    · exact .array_reverse hacc _
    · exact hitem _
    · split
      · exact .array_reverse hacc _
      · exact .array_reverse hacc _
      · exact hitem _
    · exact .array_reverse hacc _

/-- One more member is sized, and so are the ones behind it. -/
theorem sized_member (h : ReadsSized fuel) {acc : List (Option String × Document)}
    (hacc : ∀ m ∈ acc, m.2.Sized) (cs : List Char) : (match string? cs with
      | none => (object acc.reverse .broken, none)
      | some (k, rest) =>
        match skipBlanks rest with
        | ':' :: rest =>
          match readValue fuel rest with
          | (v, some rest) => readMembers fuel false ((k, v) :: acc) rest
          | (v, none) => (.object ((k, v) :: acc).reverse .broken, none)
        | _ => (.object ((k, broken) :: acc).reverse .broken, none)).1.Sized := by
  have hadd {k : Option String} {d : Document} (hd : d.Sized) : ∀ m ∈ (k, d) :: acc, m.2.Sized :=
    List.forall_mem_cons.2 ⟨hd, hacc⟩
  split
  · exact .object_reverse hacc _
  · next k rest _ =>
    split
    · next rest _ =>
      have hmore := hadd (k := k) (h.value rest)
      split
      · next v rest hread =>
        rw [hread] at hmore
        exact h.members _ _ _ hmore
      · next v hread =>
        rw [hread] at hmore
        exact .object_reverse hmore _
    · exact .object_reverse (hadd .broken) _

theorem sized_readMembers (h : ReadsSized fuel) {acc : List (Option String × Document)}
    (hacc : ∀ m ∈ acc, m.2.Sized) : (readMembers (fuel + 1) first acc cs).1.Sized := by
  have hmember := sized_member h hacc
  rw [readMembers]
  dsimp only
  split
  · exact .object_reverse hacc _
  · split_ifs
    · exact .object_reverse hacc _
    · exact hmember _
    · exact .object_reverse hacc _
    · split
      · exact hmember _
      · exact .object_reverse hacc _
    · exact .object_reverse hacc _

theorem readsSized (fuel : ℕ) : ReadsSized fuel := by
  induction fuel with
  | zero =>
    exact ⟨fun cs => .broken, fun first acc cs hacc => .array_reverse hacc _,
      fun first acc cs hacc => .object_reverse hacc _⟩
  | succ fuel ih =>
    exact ⟨sized_readValue ih, fun first acc cs hacc => sized_readItems ih hacc,
      fun first acc cs hacc => sized_readMembers ih hacc⟩

/-- **Every document of a text is sized.** -/
theorem sized_ofChars (cs : List Char) : (ofChars cs).root.Sized := by
  have hread := (readsSized (2 * cs.length + 2)).value cs
  rw [ofChars]
  split
  · next v rest h =>
    rw [h] at hread
    exact hread
  · next v h =>
    rw [h] at hread
    exact hread

end Json.Document

end BeaconReplay
