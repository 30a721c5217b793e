import BeaconReplay.Proofs.Replay.Positions

/-!
# Paths as addresses

A path spells the steps of a position one behind the other: a member behind a point, which is left
out in front of the first one, and the number of an item in brackets. If no name is empty or has one
of these marks in it, the position is read back from its path. So the paths of differences lead to
their sides, and no two of them are the same.
-/
namespace BeaconReplay

open Json

namespace Json

/-! ## Plain names -/

/-- A name that can be told from the steps around it. -/
structure PlainName (k : String) : Prop where
  nonempty : k ≠ ""
  no_point : '.' ∉ k.toList
  no_bracket : '[' ∉ k.toList

instance (k : String) : Decidable (PlainName k) :=
  decidable_of_iff (k ≠ "" ∧ '.' ∉ k.toList ∧ '[' ∉ k.toList)
    ⟨fun ⟨h, hpoint, hbracket⟩ => ⟨h, hpoint, hbracket⟩,
      fun h => ⟨h.nonempty, h.no_point, h.no_bracket⟩⟩

/-- A value each object of which, at every depth, has plain names only. -/
inductive PlainNames : Json → Prop
  | null : PlainNames .null
  | boolean (b : Bool) : PlainNames (.boolean b)
  | number (n : JsonNumber) : PlainNames (.number n)
  | string (s : String) : PlainNames (.string s)
  | array {vs : List Json} (items : ∀ v ∈ vs, PlainNames v) : PlainNames (.array vs)
  | object {ms : List (String × Json)} (names : ∀ m ∈ ms, PlainName m.1)
      (members : ∀ m ∈ ms, PlainNames m.2) : PlainNames (.object ms)

/-- A step by a plain name, or by a number. -/
def Step.Plain : Step → Prop
  | .member k => PlainName k
  | .item _ => True

theorem PlainNames.child? {v w : Json} {s : Step} (hv : v.PlainNames) (h : v.child? s = some w) :
    s.Plain ∧ w.PlainNames := by
  cases hv with
  | array items =>
    cases s with
    | member k => cases h
    | item i => exact ⟨trivial, items w (List.mem_of_getElem? h)⟩
  | object names members =>
    cases s with
    | member k =>
      have hmem := Names.mem_of_lookup h
      exact ⟨names (k, w) hmem, members (k, w) hmem⟩
    | item i => cases h
  | _ => cases s <;> cases h

/-- Only plain steps lead to a part of a value with plain names. -/
theorem PlainNames.at? {v w : Json} {p : Position} (hv : v.PlainNames) (h : v.at? p = some w) :
    ∀ s ∈ p, s.Plain := by
  induction p generalizing v with
  | nil => exact List.forall_mem_nil _
  | cons s p ih =>
    obtain ⟨u, hu, hw⟩ := Option.bind_eq_some_iff.1 h
    obtain ⟨hs, hplain⟩ := hv.child? hu
    exact List.forall_mem_cons.2 ⟨hs, ih hplain hw⟩

/-! ## Paths -/

/-- A step as it is spelled behind others. -/
def Step.spelled : Step → List Char
  | .member k => '.' :: k.toList
  | .item i => '[' :: (Nat.toDigits 10 i ++ [']'])

/-- Whether a character can belong to a plain name. -/
def isNameChar (c : Char) : Bool := c != '.' && c != '['

namespace Position

/-- The position that is spelled from a mark on. -/
def ofSpelled? : List Char → Option Position
  | [] => some []
  | '.' :: cs => do
    let p ← ofSpelled? (cs.dropWhile isNameChar)
    pure (.member (String.ofList (cs.takeWhile isNameChar)) :: p)
  | '[' :: cs =>
    match _h : cs.dropWhile Char.isDigit with
    | ']' :: rest => do
      let p ← ofSpelled? rest
      pure (.item (Nat.ofDigitChars 10 (cs.takeWhile Char.isDigit) 0) :: p)
    | _ => none
  | _ => none
termination_by cs => cs.length
decreasing_by
  · exact Nat.lt_succ_of_le (List.length_dropWhile_le ..)
  · have hle := List.length_dropWhile_le Char.isDigit cs
    simp only [_h, List.length_cons] at hle ⊢
    omega

/-- The position that a path spells; the point in front of a first member is left out. -/
def ofPath? (path : String) : Option Position :=
  match path.toList with
  | [] => some []
  | '[' :: cs => ofSpelled? ('[' :: cs)
  | cs => ofSpelled? ('.' :: cs)

end Position

theorem Step.spelled_ne_nil (s : Step) : s.spelled ≠ [] := by
  cases s <;> exact List.cons_ne_nil _ _

/-- Behind others, a step is spelled with its mark. -/
theorem Step.toList_extend (s : Step) {path : String} (h : path ≠ "") :
    (s.extend path).toList = path.toList ++ s.spelled := by
  cases s with
  | member k => simp [extend, Diff.member, h, spelled]
  | item i => simp [extend, Diff.item, spelled]

namespace Position

variable {p : Position}

theorem toList_textFrom (p : Position) {path : String} (h : path ≠ "") :
    (p.textFrom path).toList = path.toList ++ p.flatMap Step.spelled := by
  induction p generalizing path with
  | nil => simp [textFrom]
  | cons s p ih =>
    have hextend := s.toList_extend h
    have hne : s.extend path ≠ "" := by
      intro hempty
      rw [hempty] at hextend
      exact s.spelled_ne_nil (List.append_eq_nil_iff.1 hextend.symm).2
    rw [textFrom, List.foldl_cons, ← textFrom, ih hne, hextend, List.flatMap_cons,
      List.append_assoc]

theorem isNameChar_of_plain {k : String} (hk : PlainName k) :
    ∀ c ∈ k.toList, isNameChar c = true := by
  intro c hc
  rw [isNameChar, Bool.and_eq_true, bne_iff_ne, bne_iff_ne]
  exact ⟨fun h => hk.no_point (h ▸ hc), fun h => hk.no_bracket (h ▸ hc)⟩

/-- A name ends where the next step is spelled, or at the end. -/
theorem span_name (p : Position) :
    (p.flatMap Step.spelled).takeWhile isNameChar = [] ∧
      (p.flatMap Step.spelled).dropWhile isNameChar = p.flatMap Step.spelled := by
  match p with
  | [] => exact ⟨rfl, rfl⟩
  | .member k :: p => exact ⟨rfl, rfl⟩
  | .item i :: p => exact ⟨rfl, rfl⟩

/-- Plain steps are read back as they were spelled. -/
theorem ofSpelled?_flatMap (h : ∀ s ∈ p, s.Plain) :
    ofSpelled? (p.flatMap Step.spelled) = some p := by
  induction p with
  | nil => simp [ofSpelled?]
  | cons s p ih =>
    obtain ⟨hs, hp⟩ := List.forall_mem_cons.1 h
    cases s with
    | member k =>
      have hname := isNameChar_of_plain hs
      obtain ⟨htake, hdrop⟩ := span_name p
      rw [List.flatMap_cons, Step.spelled, List.cons_append, ofSpelled?,
        List.takeWhile_append_of_pos hname, List.dropWhile_append_of_pos hname, htake, hdrop, ih hp]
      simp
    | item i =>
      have hdigits : ∀ c ∈ Nat.toDigits 10 i, c.isDigit = true :=
        fun _ => Nat.isDigit_of_mem_toDigits (by omega) (by omega)
      have hdrop : (Nat.toDigits 10 i ++ ']' :: p.flatMap Step.spelled).dropWhile Char.isDigit =
          ']' :: p.flatMap Step.spelled := by
        rw [List.dropWhile_append_of_pos hdigits]
        rfl
      have htake : (Nat.toDigits 10 i ++ ']' :: p.flatMap Step.spelled).takeWhile Char.isDigit =
          Nat.toDigits 10 i := by
        rw [List.takeWhile_append_of_pos hdigits]
        exact List.append_nil _
      rw [List.flatMap_cons, Step.spelled, List.cons_append, List.append_assoc,
        List.singleton_append, ofSpelled?]
      split
      · next rest hrest =>
        cases hdrop.symm.trans hrest
        rw [ih hp, htake, Nat.ofDigitChars_ten_toDigits]
        rfl
      · next hother => exact absurd hdrop (hother _)

/-- **A position of plain steps is read back from its path.** -/
theorem ofPath?_text (h : ∀ s ∈ p, s.Plain) : ofPath? p.text = some p := by
  have hread := ofSpelled?_flatMap h
  match p with
  | [] => rfl
  | .item i :: p =>
    have hmark : Step.extend "" (.item i) ≠ "" := by simp [Step.extend, Diff.item]
    have hchars : (text (.item i :: p)).toList = List.flatMap Step.spelled (.item i :: p) := by
      rw [text, textFrom, List.foldl_cons, ← textFrom, toList_textFrom p hmark]
      simp [Step.extend, Diff.item, Step.spelled]
    rw [ofPath?, hchars]
    exact hread
  | .member k :: p =>
    have hk : PlainName k := h _ (List.mem_cons_self ..)
    have hchars : (text (.member k :: p)).toList = k.toList ++ p.flatMap Step.spelled := by
      rw [text, textFrom, List.foldl_cons, ← textFrom]
      exact toList_textFrom p hk.nonempty
    rw [ofPath?, hchars]
    cases hname : k.toList with
    | nil => exact absurd (String.toList_eq_nil_iff.1 hname) hk.nonempty
    | cons c cs =>
      have hc : c ≠ '[' := by
        rintro rfl
        exact hk.no_bracket (by simp [hname])
      rw [List.flatMap_cons, Step.spelled, hname] at hread
      split
      · next hnil => cases hnil
      · next hbracket => exact absurd (List.cons_eq_cons.1 hbracket).1 hc
      · exact hread

end Position

end Json

/-! ## The paths of differences -/

variable {e a : Json}

/-- Values with plain names differ at positions of plain steps. -/
theorem Sides.DiffersAt.plain {p : Position} (he : e.PlainNames) (ha : a.PlainNames)
    (h : DiffersAt ⟨some e, some a⟩ p) : ∀ s ∈ p, s.Plain := by
  rcases h.here.present with hpresent | hpresent
  · obtain ⟨v, hv⟩ := Option.ne_none_iff_exists'.1 hpresent
    exact he.at? hv
  · obtain ⟨w, hw⟩ := Option.ne_none_iff_exists'.1 hpresent
    exact ha.at? hw

namespace Diff

/-- Positions that differ are told by their paths. -/
theorem exists_addressed (he : e.Ordered) (ha : a.Ordered) (hen : e.PlainNames)
    (han : a.PlainNames) : ∃ ps, Sides.Listed ⟨some e, some a⟩ ps ∧
      (∀ p ∈ ps, Position.ofPath? p.text = some p) ∧ (ps.map Position.text).Nodup := by
  obtain ⟨ps, hps⟩ := Sides.exists_listed he ha
  have hread (p : Position) (hp : p ∈ ps) : Position.ofPath? p.text = some p :=
    Position.ofPath?_text (((hps.mem_iff p).1 hp).plain hen han)
  refine ⟨ps, hps, hread, List.Nodup.map_on (fun p hp q hq h => ?_) hps.ordered.nodup⟩
  have hpq := hread p hp
  rw [h, hread q hq] at hpq
  exact (Option.some_inj.1 hpq).symm

theorem diff_eq_map {ps : List Position} (h : Sides.Listed ⟨some e, some a⟩ ps) :
    diff e a = ps.map fun p => ⟨p.text, e.at? p, a.at? p⟩ := h.walk_eq ""

/-- **Paths are addresses.** If all names in two values are plain, and their members in order as in
every value that is read or put together, then the path of a difference is read as a position that
leads to the sides of the difference in both values, or to nothing where a side is absent. Only the
difference of the values as a whole, which is then the only one, has an empty path, and no two
differences have the same path. -/
theorem paths_lead_to_sides (he : e.Ordered) (ha : a.Ordered) (hen : e.PlainNames)
    (han : a.PlainNames) :
    (∀ d ∈ diff e a, ∃ p, Position.ofPath? d.path = some p ∧
      e.at? p = d.expected ∧ a.at? p = d.actual) ∧
    (∀ d ∈ diff e a, d.path = "" → diff e a = [⟨"", some e, some a⟩]) ∧
    ((diff e a).map Difference.path).Nodup := by
  obtain ⟨ps, hps, hread, hnodup⟩ := exists_addressed he ha hen han
  have hdiff := diff_eq_map hps
  refine ⟨fun d hd => ?_, fun d hd hpath => ?_, ?_⟩
  · rw [hdiff] at hd
    obtain ⟨p, hp, rfl⟩ := List.mem_map.1 hd
    exact ⟨p, hread p hp, rfl, rfl⟩
  · rw [hdiff] at hd
    obtain ⟨p, hp, rfl⟩ := List.mem_map.1 hd
    have hempty : p = [] := by
      have hp := hread p hp
      rw [show p.text = "" from hpath] at hp
      exact (Option.some_inj.1 hp).symm
    subst hempty
    exact walkSides_of_apart (Sides.differsAt_nil.1 ((hps.mem_iff []).1 hp))
  · rw [hdiff, List.map_map]
    exact hnodup

/-- Two votes, the first one without a root. -/
def votes : Json := .object [("votes", .array [.object [("root", .null)], .nat 1])]

/-- The first vote alone, with another root. -/
def recount : Json := .object [("votes", .array [.object [("root", .boolean true)]])]

theorem plainNames_votes : votes.PlainNames := by
  have hfirst : (object [("root", .null)]).PlainNames := .object (by decide) (by simpa using .null)
  refine .object (by decide) ?_
  simpa using .array (by simpa using ⟨hfirst, .number _⟩)

theorem plainNames_recount : recount.PlainNames := by
  have hfirst : (object [("root", .boolean true)]).PlainNames :=
    .object (by decide) (by simpa using .boolean true)
  refine .object (by decide) ?_
  simpa using .array (by simpa using hfirst)

theorem ordered_votes : votes.Ordered := by
  have hfirst : (object [("root", .null)]).Ordered := .object (by simp) (by simpa using .null)
  refine .object (by simp) ?_
  simpa using .array (by simpa using ⟨hfirst, .number _⟩)

theorem ordered_recount : recount.Ordered := by
  have hfirst : (object [("root", .boolean true)]).Ordered :=
    .object (by simp) (by simpa using .boolean true)
  refine .object (by simp) ?_
  simpa using .array (by simpa using hfirst)

/-- A member of an item, and an item that only one side has. -/
theorem paths_of_recount :
    (diff votes recount).map Difference.path = ["votes[0].root", "votes[1]"] ∧
    votes.Ordered ∧ recount.Ordered ∧ votes.PlainNames ∧ recount.PlainNames ∧
    (∀ d ∈ diff votes recount, ∃ p, Position.ofPath? d.path = some p ∧
      votes.at? p = d.expected ∧ recount.at? p = d.actual) ∧
    (∀ d ∈ diff votes recount, d.path = "" →
      diff votes recount = [⟨"", some votes, some recount⟩]) ∧
    ((diff votes recount).map Difference.path).Nodup :=
  ⟨by decide +kernel, ordered_votes, ordered_recount, plainNames_votes, plainNames_recount,
    paths_lead_to_sides ordered_votes ordered_recount plainNames_votes plainNames_recount⟩

end Diff

end BeaconReplay
