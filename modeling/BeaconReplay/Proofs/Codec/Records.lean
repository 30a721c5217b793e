import BeaconReplay.Codec.Chain
import BeaconReplay.Proofs.Names
import BeaconReplay.Proofs.Result

/-!
# Records and their members

A decoder visits the members of a record before it takes their values. Nothing stands in its way if
each member that is a field decodes, no field is given twice and all other members can be passed
over, in whatever order they come; the first field that is given again is its fault. The values are
then looked up by name.
-/
namespace BeaconReplay

namespace Field

variable {ν α : Type} {read : ν → Decoded α} {fields : List (Field ν)} {field : Field ν}
  {name : String} {v : ν} {a : α}

@[simp] theorem name_of (name : String) (read : ν → Decoded α) :
    (Field.of name read).name = name :=
  rfl

theorem check_of_eq_ok_iff : (Field.of name read).check v = .ok () ↔ ∃ a, read v = .ok a := by
  simp [Field.of, Result.map_eq_ok_iff]

theorem find?_eq_none_iff : Field.find? fields name = none ↔ name ∉ fields.map Field.name := by
  rw [Field.find?, List.find?_eq_none, List.mem_map]
  simp

theorem mem_of_find? (h : Field.find? fields name = some field) :
    field ∈ fields ∧ field.name = name :=
  ⟨List.mem_of_find?_eq_some h, by simpa using List.find?_some h⟩

/-- A member is a field that is known, and its value decodes. -/
def Accepts (fields : List (Field ν)) (m : String × ν) : Prop :=
  ∃ field, Field.find? fields m.1 = some field ∧ field.check m.2 = .ok ()

theorem accepts_of (hfield : Field.find? fields name = some (.of name read))
    (h : read v = .ok a) : Accepts fields (name, v) := by
  refine ⟨_, hfield, ?_⟩
  simp [Field.of, h]

end Field

namespace Source

variable {ν α : Type} {src : Source ν} {fields : List (Field ν)} {seen : List String}
  {members before behind : List (String × ν)} {e : Entries ν} {name k : String} {v : ν}

theorem inside_ok {x : Decoded α} {a : α} (h : x = .ok a) : src.inside v x = .ok a := by
  rw [h]
  rfl

theorem inside_eq_ok_iff {x : Decoded α} {a : α} : src.inside v x = .ok a ↔ x = .ok a := by
  cases x <;> simp [inside, Except.mapError]

/-- A sequence whose items decode is decoded to the array of their values. -/
theorem list_eq_ok {read : ν → Decoded α} {parts : List ν} {xs : List α}
    (hsequence : src.sequence v = .ok ⟨parts, none⟩) (hparts : parts.mapM read = .ok xs) :
    src.list read v = .ok xs.toArray := by
  refine inside_ok ?_
  rw [hsequence, Result.ok_bind, hparts]
  rfl

/-! ## Visits -/

/-- A member does not stand in the way: the value of a known one decodes, and that of an unknown one
is passed over. -/
def Passes (src : Source ν) (fields : List (Field ν)) (m : String × ν) : Prop :=
  match Field.find? fields m.1 with
  | none => src.skip m.2 = .ok ()
  | some field => field.check m.2 = .ok ()

/-- The names of fields among those of members. -/
def known (fields : List (Field ν)) (members : List (String × ν)) : List String :=
  (members.map Prod.fst).filter (· ∈ fields.map Field.name)

theorem known_cons_of_mem {m : String × ν} (h : m.1 ∈ fields.map Field.name) :
    known fields (m :: members) = m.1 :: known fields members := by
  rw [known, List.map_cons, List.filter_cons_of_pos (by simpa using h)]
  rfl

theorem known_cons_of_not_mem {m : String × ν} (h : m.1 ∉ fields.map Field.name) :
    known fields (m :: members) = known fields members := by
  rw [known, List.map_cons, List.filter_cons_of_neg (by simpa using h)]
  rfl

/-- Members are visited in one go or one run after the other. -/
theorem visitNamed_append : src.visitNamed fields seen (before ++ behind) =
    (src.visitNamed fields seen before >>= fun _ =>
      src.visitNamed fields ((known fields before).reverse ++ seen) behind) := by
  induction before generalizing seen with
  | nil => rfl
  | cons m before ih =>
    rw [List.cons_append, visitNamed, visitNamed]
    cases hfield : Field.find? fields m.1 with
    | none =>
      rw [known_cons_of_not_mem (Field.find?_eq_none_iff.1 hfield)]
      dsimp only
      cases src.skip m.2 with
      | error e => rfl
      | ok u => exact ih
    | some field =>
      have hknown : m.1 ∈ fields.map Field.name := by
        rw [← (Field.mem_of_find? hfield).2]
        exact List.mem_map_of_mem (Field.mem_of_find? hfield).1
      rw [known_cons_of_mem hknown]
      dsimp only
      split
      · rfl
      · cases field.check m.2 with
        | error e => rfl
        | ok u => simpa using ih

/-- **The members of a record are visited without a fault if none stands in the way and no field is
given twice.** -/
theorem visitNamed_eq_ok_iff : src.visitNamed fields seen members = .ok () ↔
    (∀ m ∈ members, src.Passes fields m) ∧ (known fields members).Nodup ∧
      ∀ k ∈ known fields members, k ∉ seen := by
  induction members generalizing seen with
  | nil => simp [visitNamed, known]
  | cons m members ih =>
    rw [visitNamed, List.forall_mem_cons, Passes]
    cases hfield : Field.find? fields m.1 with
    | none =>
      rw [known_cons_of_not_mem (Field.find?_eq_none_iff.1 hfield)]
      dsimp only
      rw [Result.check_bind_eq_ok_iff, ih, and_assoc]
    | some field =>
      have hknown : m.1 ∈ fields.map Field.name := by
        rw [← (Field.mem_of_find? hfield).2]
        exact List.mem_map_of_mem (Field.mem_of_find? hfield).1
      rw [known_cons_of_mem hknown, List.nodup_cons, List.forall_mem_cons]
      dsimp only
      split
      · next hseen => simp [hseen]
      · next hnew =>
        rw [Result.check_bind_eq_ok_iff, ih]
        simp only [List.mem_cons, not_or]
        constructor
        · rintro ⟨hcheck, hrest, hnodup, hother⟩
          exact ⟨⟨hcheck, hrest⟩, ⟨fun hmem => (hother _ hmem).1 rfl, hnodup⟩, hnew,
            fun k hk => (hother k hk).2⟩
        · rintro ⟨⟨hcheck, hrest⟩, ⟨hfresh, hnodup⟩, -, hother⟩
          exact ⟨hcheck, hrest, hnodup, fun k hk => ⟨fun hsame => hfresh (hsame ▸ hk), hother k hk⟩⟩

/-- The first field that is given again is the fault, whatever it is given and whatever follows. -/
theorem visitNamed_repeated (hbefore : src.visitNamed fields [] before = .ok ())
    (hknown : k ∈ known fields before) :
    src.visitNamed fields [] (before ++ (k, v) :: behind) =
      .error (.ofCause (.duplicateField k)) := by
  have hfound : ∃ field, Field.find? fields k = some field := by
    refine Option.ne_none_iff_exists'.1 fun hnone => Field.find?_eq_none_iff.1 hnone ?_
    simpa using (List.mem_filter.1 hknown).2
  obtain ⟨field, hfield⟩ := hfound
  rw [visitNamed_append, hbefore, Result.ok_bind, visitNamed, hfield]
  dsimp only
  rw [if_pos (by simpa using hknown)]
  rfl

/-- Members that are fields of different names are visited without a fault if their values
decode. -/
theorem visitNamed_eq_ok (hnodup : (members.map Prod.fst).Nodup)
    (hchecks : ∀ m ∈ members, Field.Accepts fields m) :
    src.visitNamed fields [] members = .ok () := by
  refine visitNamed_eq_ok_iff.2 ⟨fun m hm => ?_, hnodup.filter _, fun _ _ => List.not_mem_nil⟩
  obtain ⟨field, hfield, hcheck⟩ := hchecks m hm
  rw [Passes, hfield]
  exact hcheck

/-- Parts are visited without a fault if there are no more of them than fields and each is decoded
as the field in its place. -/
theorem visitPositional_eq_ok_iff {total : ℕ} {ending : Option Fault} {excess : ℕ → Fault}
    {vs : List ν} : visitPositional total ending excess fields vs = .ok () ↔
      vs.length ≤ fields.length ∧ ending = none ∧
        ∀ p ∈ fields.zip vs, p.1.check p.2 = .ok () := by
  induction fields generalizing vs with
  | nil =>
    cases vs with
    | nil => cases ending <;> simp [visitPositional]
    | cons w vs => simp [visitPositional]
  | cons field fields ih =>
    cases vs with
    | nil => cases ending <;> simp [visitPositional]
    | cons w vs =>
      rw [visitPositional, Result.check_bind_eq_ok_iff, ih, List.zip_cons_cons,
        List.forall_mem_cons, List.length_cons, List.length_cons, Nat.add_le_add_iff_right]
      tauto

/-! ## Entries -/

/-- A record that is given by names is taken as it stands if its members can be visited. -/
theorem entries_eq_ok_iff_of_named {run : Run (String × ν)}
    (hrecord : src.record name v = .ok (.named run)) : src.entries name fields v = .ok e ↔
      src.visitNamed fields [] run.parts = .ok () ∧ run.ending = none ∧
        e = ⟨run.parts, fun _ field => .ofCause (.missingField field)⟩ := by
  rw [entries, hrecord, Result.ok_bind]
  dsimp only
  rw [Result.check_bind_eq_ok_iff]
  cases run.ending <;> simp [eq_comm]

theorem entries_eq_error_of_named {run : Run (String × ν)} {fault : Fault}
    (hrecord : src.record name v = .ok (.named run))
    (hvisit : src.visitNamed fields [] run.parts = .error fault) :
    src.entries name fields v = .error fault := by
  rw [entries, hrecord, Result.ok_bind]
  dsimp only
  rw [hvisit, Result.error_bind]

/-- A record that is given by positions is taken as it stands if its parts can be visited. -/
theorem entries_eq_ok_iff_of_positional {run : Run ν} {excess : ℕ → Fault}
    (hrecord : src.record name v = .ok (.positional run excess)) :
    src.entries name fields v = .ok e ↔
      visitPositional run.parts.length run.ending excess fields run.parts = .ok () ∧
        e = ⟨(fields.map (·.name)).zip run.parts,
          fun i _ => .ofCause (.invalidLength i (lengthText name fields.length))⟩ := by
  rw [entries, hrecord, Result.ok_bind]
  dsimp only
  rw [Result.check_bind_eq_ok_iff]
  simp [eq_comm]

/-- **A record of different fields, all of which decode, is taken as it stands.** -/
theorem entries_eq_ok (hrecord : src.record name v = .ok (.named ⟨members, none⟩))
    (hnodup : (members.map Prod.fst).Nodup)
    (hchecks : ∀ m ∈ members, Field.Accepts fields m) :
    src.entries name fields v =
      .ok ⟨members, fun _ field => .ofCause (.missingField field)⟩ :=
  (entries_eq_ok_iff_of_named hrecord).2 ⟨visitNamed_eq_ok hnodup hchecks, rfl, rfl⟩

/-- The entries of a record that is given by names are its members. -/
theorem values_of_entries {run : Run (String × ν)} (hrecord : src.record name v = .ok (.named run))
    (h : src.entries name fields v = .ok e) : e.values = run.parts := by
  obtain ⟨-, -, rfl⟩ := (entries_eq_ok_iff_of_named hrecord).1 h
  rfl

end Source

namespace Entries

variable {ν α β : Type} {read : ν → Decoded α} {e : Entries ν} {i : ℕ} {name : String}
  {a default : α}

theorem required_eq_ok_iff : e.required i name read = .ok a ↔
    ∃ v, e.values.lookup name = some v ∧ read v = .ok a := by
  rw [required]
  cases e.values.lookup name <;> simp

theorem optional_eq_ok_iff : e.optional name default read = .ok a ↔
    (∃ v, e.values.lookup name = some v ∧ read v = .ok a) ∨
      e.values.lookup name = none ∧ default = a := by
  rw [optional]
  cases e.values.lookup name <;> simp

/-! ## Absent fields -/

/-- A result is the fault of the first of some fields that is absent, if one of them is. -/
def BlamesAbsent (e : Entries ν) (fault : String → Fault) (ks : List String) (x : Decoded α) :
    Prop :=
  ∀ k, ks.find? (fun k => (e.values.lookup k).isNone) = some k → x = .error (fault k)

theorem blamesAbsent_nil {fault : String → Fault} (x : Decoded α) :
    e.BlamesAbsent fault [] x := by
  intro k hk
  cases hk

/-- A field that has to be there is blamed if it is absent; otherwise it decodes, and the fields
behind it decide. -/
theorem BlamesAbsent.required {fault : String → Fault} {ks : List String} {f : α → Decoded β}
    (habsent : e.absent i name = fault name)
    (hread : ∀ v, e.values.lookup name = some v → ∃ a, read v = .ok a)
    (h : ∀ a, e.BlamesAbsent fault ks (f a)) :
    e.BlamesAbsent fault (name :: ks) (e.required i name read >>= f) := by
  intro k hk
  rw [List.find?_cons] at hk
  rw [Entries.required]
  cases hfound : e.values.lookup name with
  | none =>
    rw [hfound] at hk
    cases hk
    rw [← habsent]
    rfl
  | some v =>
    rw [hfound] at hk
    obtain ⟨a, ha⟩ := hread v hfound
    dsimp only
    rw [ha]
    exact h a k hk

/-- A field that may be left out is never blamed. -/
theorem BlamesAbsent.optional {fault : String → Fault} {ks : List String} {f : α → Decoded β}
    (hread : ∀ v, e.values.lookup name = some v → ∃ a, read v = .ok a)
    (h : ∀ a, e.BlamesAbsent fault ks (f a)) :
    e.BlamesAbsent fault ks (e.optional name default read >>= f) := by
  have hok : ∃ a, e.optional name default read = .ok a := by
    rw [Entries.optional]
    cases hfound : e.values.lookup name with
    | none => exact ⟨default, rfl⟩
    | some v => exact hread v hfound
  obtain ⟨a, ha⟩ := hok
  rw [ha]
  exact h a

end Entries
end BeaconReplay
