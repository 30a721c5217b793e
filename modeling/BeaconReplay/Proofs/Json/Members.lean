import BeaconReplay.Json.Document
import BeaconReplay.Proofs.Names

/-!
# Members of an object

A record may list its members in any order. Put into their places one by one, members of different
names are the same members in the order of their names. So the objects of every value that is made
from members, as those of a text are, have their members in ascending order.
-/
namespace BeaconReplay.Json

variable {k : String} {v : Json} {ms acc : List (String × Json)}

/-- A member of a new name is added to the others. -/
theorem insertMember_perm (h : k ∉ ms.map Prod.fst) :
    (insertMember k v ms).Perm ((k, v) :: ms) := by
  induction ms with
  | nil => exact .refl _
  | cons m ms ih =>
    obtain ⟨l, w⟩ := m
    rw [List.map_cons, List.mem_cons, not_or] at h
    obtain ⟨hne, hnew⟩ := h
    rw [insertMember, if_neg hne]
    split_ifs
    · exact .refl _
    · exact ((ih hnew).cons _).trans (.swap _ _ _)

/-- Members of different names are added to those that are there. -/
theorem foldl_insertMember_perm (h : ((acc ++ ms).map Prod.fst).Nodup) :
    (ms.foldl (fun acc m => insertMember m.1 m.2 acc) acc).Perm (acc ++ ms) := by
  induction ms generalizing acc with
  | nil => simp
  | cons m ms ih =>
    have hmiddle : (acc ++ m :: ms).Perm ((m :: acc) ++ ms) := List.perm_middle
    have hnodup : (((m :: acc) ++ ms).map Prod.fst).Nodup := (hmiddle.map Prod.fst).nodup_iff.1 h
    have hnew : m.1 ∉ acc.map Prod.fst := by
      rw [List.cons_append, List.map_cons, List.nodup_cons, List.map_append, List.mem_append,
        not_or] at hnodup
      exact hnodup.1.1
    have hinsert : (insertMember m.1 m.2 acc ++ ms).Perm ((m :: acc) ++ ms) :=
      (insertMember_perm hnew).append_right ms
    have hrest := ih ((hinsert.map Prod.fst).nodup_iff.2 hnodup)
    exact hrest.trans (hinsert.trans hmiddle.symm)

/-- A value is an object of the given members, in some order. -/
def Lists (v : Json) (ms : List (String × Json)) : Prop :=
  ∃ listed, v = .object listed ∧ listed.Perm ms

theorem lists_object (ms : List (String × Json)) : (object ms).Lists ms := ⟨ms, rfl, .refl ms⟩

theorem lists_ofMembers (h : (ms.map Prod.fst).Nodup) : (ofMembers ms).Lists ms :=
  ⟨_, rfl, foldl_insertMember_perm h⟩

/-! ## Ascending members -/

/-- A value each object of which has its members in ascending order of their names. -/
inductive Ordered : Json → Prop
  | null : Ordered .null
  | boolean (b : Bool) : Ordered (.boolean b)
  | number (n : JsonNumber) : Ordered (.number n)
  | string (s : String) : Ordered (.string s)
  | array {vs : List Json} (items : ∀ v ∈ vs, Ordered v) : Ordered (.array vs)
  | object {ms : List (String × Json)} (names : (ms.map Prod.fst).Pairwise (· < ·))
      (members : ∀ m ∈ ms, Ordered m.2) : Ordered (.object ms)

theorem mem_names_insertMember {l : String} :
    l ∈ (insertMember k v ms).map Prod.fst ↔ l = k ∨ l ∈ ms.map Prod.fst := by
  induction ms with
  | nil => simp [insertMember]
  | cons m ms ih =>
    obtain ⟨j, w⟩ := m
    rw [insertMember]
    split_ifs with hlt heq
    · simp
    · simp [heq]
    · rw [List.map_cons, List.mem_cons, ih, List.map_cons, List.mem_cons]
      tauto

/-- A member that is put into its place keeps the order. -/
theorem ascending_insertMember (h : (ms.map Prod.fst).Pairwise (· < ·)) :
    ((insertMember k v ms).map Prod.fst).Pairwise (· < ·) := by
  induction ms with
  | nil => simp [insertMember]
  | cons m ms ih =>
    obtain ⟨l, w⟩ := m
    rw [List.map_cons, List.pairwise_cons] at h
    obtain ⟨hfirst, hrest⟩ := h
    rw [insertMember]
    split_ifs with hlt heq
    · rw [List.map_cons, List.map_cons, List.pairwise_cons, List.pairwise_cons]
      refine ⟨fun j hj => ?_, hfirst, hrest⟩
      rcases List.mem_cons.1 hj with rfl | hj
      · exact hlt
      · exact hlt.trans (hfirst j hj)
    · rw [List.map_cons, List.pairwise_cons]
      exact ⟨heq ▸ hfirst, hrest⟩
    · rw [List.map_cons, List.pairwise_cons]
      refine ⟨fun j hj => ?_, ih hrest⟩
      rcases mem_names_insertMember.1 hj with rfl | hj
      · exact lt_of_le_of_ne (not_lt.1 hlt) (Ne.symm heq)
      · exact hfirst j hj

/-- What is put into its place is the new member or one that was there. -/
theorem mem_insertMember {m : String × Json} (h : m ∈ insertMember k v ms) :
    m = (k, v) ∨ m ∈ ms := by
  induction ms with
  | nil => simpa [insertMember] using h
  | cons n ms ih =>
    obtain ⟨l, w⟩ := n
    rw [insertMember] at h
    split_ifs at h
    · simpa using h
    · rcases List.mem_cons.1 h with rfl | h
      · exact .inl rfl
      · exact .inr (List.mem_cons_of_mem _ h)
    · rcases List.mem_cons.1 h with rfl | h
      · exact .inr (List.mem_cons_self ..)
      · exact (ih h).imp_right (List.mem_cons_of_mem _)

theorem ordered_foldl_insertMember (hacc : (object acc).Ordered) (h : ∀ m ∈ ms, m.2.Ordered) :
    (object (ms.foldl (fun acc m => insertMember m.1 m.2 acc) acc)).Ordered := by
  induction ms generalizing acc with
  | nil => exact hacc
  | cons m ms ih =>
    obtain ⟨hm, hms⟩ := List.forall_mem_cons.1 h
    cases hacc with
    | object names members =>
      refine ih (.object (ascending_insertMember names) fun n hn => ?_) hms
      rcases mem_insertMember hn with rfl | hn
      · exact hm
      · exact members n hn

theorem ordered_ofMembers (h : ∀ m ∈ ms, m.2.Ordered) : (ofMembers ms).Ordered :=
  ordered_foldl_insertMember (.object .nil (List.forall_mem_nil _)) h

mutual

/-- Every value of a document is ordered. -/
theorem ordered_of_value? : ∀ (depth : ℕ) (d : Document) {v : Json}, d.value? depth = some v →
    v.Ordered
  | depth, .null, _, h => by
    cases depth <;> cases h <;> exact .null
  | depth, .boolean b, _, h => by
    cases depth <;> cases h <;> exact .boolean b
  | depth, .number n, v, h => by
    have h : n.map Json.number = some v := by cases depth <;> exact h
    obtain ⟨n, -, rfl⟩ := Option.map_eq_some_iff.1 h
    exact .number n
  | depth, .string s, v, h => by
    have h : s.map Json.string = some v := by cases depth <;> exact h
    obtain ⟨s, -, rfl⟩ := Option.map_eq_some_iff.1 h
    exact .string s
  | 0, .array _ _, _, h => by cases h
  | depth + 1, .array items closed, _, h => by
    rw [Document.value?] at h
    split at h
    · obtain ⟨vs, hvs, rfl⟩ := Option.map_eq_some_iff.1 h
      exact .array (ordered_of_values? depth items hvs)
    · cases h
  | 0, .object _ _, _, h => by cases h
  | depth + 1, .object members .closed, _, h => by
    obtain ⟨ms, hms, rfl⟩ := Option.map_eq_some_iff.1 h
    exact ordered_ofMembers (ordered_of_memberValues? depth members hms)
  | depth + 1, .object _ (.strayName _), _, h => by cases h
  | depth + 1, .object _ .broken, _, h => by cases h
  | 0, .broken, _, h => by cases h
  | depth + 1, .broken, _, h => by cases h

theorem ordered_of_values? : ∀ (depth : ℕ) (ds : List Document) {vs : List Json},
    Document.values? depth ds = some vs → ∀ v ∈ vs, v.Ordered
  | depth, [], _, h => by
    cases h
    exact List.forall_mem_nil _
  | depth, d :: ds, _, h => by
    obtain ⟨v, hv, h⟩ := Option.bind_eq_some_iff.1 h
    obtain ⟨vs, hvs, h⟩ := Option.bind_eq_some_iff.1 h
    cases h
    exact List.forall_mem_cons.2 ⟨ordered_of_value? depth d hv, ordered_of_values? depth ds hvs⟩

theorem ordered_of_memberValues? : ∀ (depth : ℕ) (ds : List (Option String × Document))
    {ms : List (String × Json)}, Document.memberValues? depth ds = some ms → ∀ m ∈ ms, m.2.Ordered
  | depth, [], _, h => by
    cases h
    exact List.forall_mem_nil _
  | depth, (k, d) :: ds, _, h => by
    obtain ⟨k, -, h⟩ := Option.bind_eq_some_iff.1 h
    obtain ⟨v, hv, h⟩ := Option.bind_eq_some_iff.1 h
    obtain ⟨ms, hms, h⟩ := Option.bind_eq_some_iff.1 h
    cases h
    exact List.forall_mem_cons.2
      ⟨ordered_of_value? depth d hv, ordered_of_memberValues? depth ds hms⟩

end

/-- **Every value that is read from a text is ordered.** -/
theorem ordered_of_ofText? {s : String} (h : ofText? s = some v) : v.Ordered := by
  rw [ofText?] at h
  split_ifs at h
  exact ordered_of_value? _ _ h

end BeaconReplay.Json
