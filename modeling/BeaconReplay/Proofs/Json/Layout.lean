import BeaconReplay.Json.Source
import BeaconReplay.Proofs.Codec.Records
import BeaconReplay.Proofs.Json.Sizes

/-!
# Layouts of records

A record may be written in many ways: as an object that lists its members in any order and others
between them, or as an array of its fields. What it is decoded to depends only on what is given for
each field, so a reader is described by the relation between documents and the values that they
stand for, and the relation of a record is put together from those of its fields.
-/
namespace BeaconReplay.Json

/-- An object that lists the given members. -/
def Document.ofNamed (listed : List (String × Document)) : Document :=
  .object (listed.map fun m => (some m.1, m.2)) .closed

/-- Members give a record with the given names of fields: no field is given twice, and what is
listed under other names is well formed. -/
structure Laid (names : List String) (listed : List (String × Document)) : Prop where
  once : ((listed.map Prod.fst).filter (· ∈ names)).Nodup
  others : ∀ m ∈ listed, m.1 ∉ names → m.2.intact = true

/-- What a document gives for the fields of a record: the members of an object, or the items of an
array in the order of the fields. -/
inductive Document.Gives (names : List String) : Document → List (String × Document) → Prop
  | named {listed : List (String × Document)} (laid : Laid names listed) :
      Gives names (.ofNamed listed) listed
  | positional {items : List Document} (length_le : items.length ≤ names.length) :
      Gives names (.array items true) (names.zip items)

section Given

variable {α : Type} {listed : List (String × Document)} {k : String} {P : Document → α → Prop}
  {a default : α}

/-- What is listed under a name stands for a value. -/
def Given (listed : List (String × Document)) (k : String) (P : Document → α → Prop) (a : α) :
    Prop :=
  ∃ d, (k, d) ∈ listed ∧ P d a

/-- What is listed under a name stands for a value, or nothing is and the value is the default. -/
def GivenOr (listed : List (String × Document)) (k : String) (P : Document → α → Prop)
    (default a : α) : Prop :=
  Given listed k P a ∨ k ∉ listed.map Prod.fst ∧ a = default

theorem Given.mem_names (h : Given listed k P a) : k ∈ listed.map Prod.fst := by
  obtain ⟨d, hd, -⟩ := h
  exact List.mem_map_of_mem hd

end Given

variable {α : Type} {n : Node} {d : Document} {names : List String} {fields : List (Field Node)}
  {listed : List (String × Document)} {e : Entries Node} {name k : String}
  {read : Node → Decoded α} {P : Document → α → Prop} {a default : α}

/-- An object gives its members and nothing else. -/
theorem gives_ofNamed_iff {given : List (String × Document)} :
    (Document.ofNamed listed).Gives names given ↔ given = listed ∧ Laid names listed := by
  constructor
  · intro h
    generalize hd : Document.ofNamed listed = d at h
    cases h with
    | named laid =>
      have hinjective : Function.Injective fun m : String × Document => (some m.1, m.2) := by
        rintro ⟨k, d⟩ ⟨l, e⟩ hsame
        cases hsame
        rfl
      rw [Document.ofNamed, Document.ofNamed, Document.object.injEq] at hd
      obtain rfl := hinjective.list_map hd.1
      exact ⟨rfl, laid⟩
    | positional length_le => cases hd
  · rintro ⟨rfl, hlaid⟩
    exact .named hlaid

/-! ## Nodes and their parts -/

/-- A part of a node, by its name. -/
def Node.part (n : Node) (m : String × Document) : String × Node := (m.1, n.below m.2)

theorem Node.names_part (n : Node) (listed : List (String × Document)) :
    (listed.map n.part).map Prod.fst = listed.map Prod.fst := by
  rw [List.map_map]
  rfl

/-- A node of a text. -/
structure Node.Textual (n : Node) : Prop where
  fromText : n.fromText = true
  sized : n.document.Sized

theorem textual_ofChars (cs : List Char) : (Node.ofText (Document.ofChars cs).root).Textual :=
  ⟨rfl, Document.sized_ofChars cs⟩

/-- What is listed are parts of a node of a text. -/
structure Node.Lists (n : Node) (listed : List (String × Document)) : Prop where
  fromText : n.fromText = true
  sized : ∀ m ∈ listed, m.2.Sized

/-- What is listed are parts of a node of a text, each field once. -/
structure Node.Holds (n : Node) (names : List String) (listed : List (String × Document)) : Prop
    extends n.Lists listed where
  once : ((listed.map Prod.fst).filter (· ∈ names)).Nodup

theorem Node.Textual.lists (hn : n.Textual) (hd : n.document = .ofNamed listed) :
    n.Lists listed := by
  obtain ⟨hfrom, hsized⟩ := hn
  rw [hd] at hsized
  cases hsized with
  | object members =>
    exact ⟨hfrom, fun m hm => members (some m.1, m.2) (List.mem_map_of_mem hm)⟩

theorem Node.Textual.holds (hn : n.Textual) (hnodup : names.Nodup)
    (h : n.document.Gives names listed) : n.Holds names listed := by
  generalize hd : n.document = d at h
  cases h with
  | named laid => exact ⟨hn.lists hd, laid.once⟩
  | @positional items length_le =>
    obtain ⟨hfrom, hsized⟩ := hn
    rw [hd] at hsized
    cases hsized with
    | array sized =>
      refine ⟨⟨hfrom, fun m hm => sized _ (List.of_mem_zip hm).2⟩, ?_⟩
      exact (hnodup.sublist (Names.names_zip_sublist names items)).filter _

theorem Node.Lists.textual (h : n.Lists listed) (hd : (k, d) ∈ listed) :
    (n.below d).Textual :=
  ⟨h.fromText, h.sized _ hd⟩

/-- A field is looked up as what is listed under its name. -/
theorem Node.Holds.lookup_eq_some_iff {v : Node} (h : n.Holds names listed) (hk : k ∈ names) :
    (listed.map n.part).lookup k = some v ↔ ∃ d, (k, d) ∈ listed ∧ n.below d = v := by
  have honce : (((listed.map n.part).map Prod.fst).filter (· ∈ names)).Nodup := by
    rw [n.names_part]
    exact h.once
  rw [Names.lookup_eq_some_iff_of_once honce (by simpa using hk), List.mem_map]
  constructor
  · rintro ⟨⟨l, d⟩, hmem, heq⟩
    cases heq
    exact ⟨d, hmem, rfl⟩
  · rintro ⟨d, hmem, rfl⟩
    exact ⟨(k, d), hmem, rfl⟩

theorem Node.Holds.lookup_eq_none_iff :
    (listed.map n.part).lookup k = none ↔ k ∉ listed.map Prod.fst := by
  rw [Names.lookup_eq_none_iff, n.names_part]

/-! ## Readers and relations -/

/-- A reader decides a relation if a document of a text is decoded to the values that it stands
for, and to no others. -/
def Decides (read : Node → Decoded α) (P : Document → α → Prop) : Prop :=
  ∀ (n : Node) (a : α), n.Textual → (read n = .ok a ↔ P n.document a)

theorem Decides.below (hread : Decides read P) (h : n.Lists listed) (hd : (k, d) ∈ listed) :
    read (n.below d) = .ok a ↔ P d a :=
  hread _ a (h.textual hd)

theorem Decides.required_eq_ok_iff (hread : Decides read P) (h : n.Holds names listed)
    (he : e.values = listed.map n.part) (hk : k ∈ names) {i : ℕ} :
    e.required i k read = .ok a ↔ Given listed k P a := by
  rw [Entries.required_eq_ok_iff, he]
  simp only [h.lookup_eq_some_iff hk]
  constructor
  · rintro ⟨_, ⟨d, hd, rfl⟩, hvalue⟩
    exact ⟨d, hd, (hread.below h.toLists hd).1 hvalue⟩
  · rintro ⟨d, hd, hvalue⟩
    exact ⟨_, ⟨d, hd, rfl⟩, (hread.below h.toLists hd).2 hvalue⟩

theorem Decides.optional_eq_ok_iff (hread : Decides read P) (h : n.Holds names listed)
    (he : e.values = listed.map n.part) (hk : k ∈ names) :
    e.optional k default read = .ok a ↔ GivenOr listed k P default a := by
  rw [GivenOr, ← hread.required_eq_ok_iff (i := 0) h he hk, Entries.required_eq_ok_iff,
    Entries.optional_eq_ok_iff, he, Node.Holds.lookup_eq_none_iff, eq_comm (a := a)]

/-- What is listed under a name is decoded as the field of that name. -/
def Checks (n : Node) (listed : List (String × Document)) (field : Field Node) : Prop :=
  ∀ d, (field.name, d) ∈ listed → field.check (n.below d) = .ok ()

theorem Decides.checks_iff (hread : Decides read P) (h : n.Lists listed) :
    Checks n listed (.of k read) ↔ ∀ d, (k, d) ∈ listed → ∃ a, P d a := by
  refine forall₂_congr fun d hd => ?_
  rw [Field.check_of_eq_ok_iff]
  exact exists_congr fun a => hread.below h hd

/-- If something that is listed under the name of a field stands for a value, all that is listed
under it does. -/
theorem Decides.checks_of_given (hread : Decides read P) (h : n.Holds names listed) (hk : k ∈ names)
    (hgiven : Given listed k P a) : Checks n listed (.of k read) := by
  refine (hread.checks_iff h.toLists).2 fun d hd => ?_
  obtain ⟨d', hd', hvalue⟩ := hgiven
  have hfirst := (h.lookup_eq_some_iff hk).2 ⟨d, hd, rfl⟩
  have hsecond := (h.lookup_eq_some_iff hk).2 ⟨d', hd', rfl⟩
  have hsame : n.below d = n.below d' := Option.some.inj (hfirst.symm.trans hsecond)
  obtain rfl : d = d' := congrArg Node.document hsame
  exact ⟨a, hvalue⟩

theorem Decides.checks_of_givenOr (hread : Decides read P) (h : n.Holds names listed)
    (hk : k ∈ names) (hgiven : GivenOr listed k P default a) : Checks n listed (.of k read) := by
  obtain hgiven | ⟨habsent, -⟩ := hgiven
  · exact hread.checks_of_given h hk hgiven
  · exact fun d hd => absurd (List.mem_map_of_mem hd) habsent

/-! ## Records -/

theorem Node.named_ofNamed (n : Node) (listed : List (String × Document)) :
    n.named (listed.map fun m => (some m.1, m.2)) true = ⟨listed.map n.part, none⟩ := by
  induction listed with
  | nil => rfl
  | cons m listed ih => simp [Node.named, ih, Node.part]

/-- An object lists its members by name. -/
theorem record_ofNamed (name : String) (hn : n.document = .ofNamed listed) :
    source.record name n = .ok (.named ⟨listed.map n.part, none⟩) := by
  change n.record name = _
  simp [Node.record, hn, Document.ofNamed, n.named_ofNamed]

theorem record_array {items : List Document} {closed : Bool} (name : String)
    (hn : n.document = .array items closed) : source.record name n =
      .ok (.positional ⟨items.map n.below, Node.ending closed⟩ n.excess) := by
  change n.record name = _
  simp [Node.record, hn]

/-- Members all of which have names and behind which the object is closed. -/
theorem exists_listed_of_ending {members : List (Option String × Document)} {closed : Bool}
    (h : (n.named members closed).ending = none) :
    closed = true ∧ ∃ listed : List (String × Document),
      members = listed.map fun m => (some m.1, m.2) := by
  induction members with
  | nil =>
    cases closed with
    | true => exact ⟨rfl, [], rfl⟩
    | false => cases h
  | cons m members ih =>
    obtain ⟨k, d⟩ := m
    cases k with
    | none => cases h
    | some k =>
      obtain ⟨hclosed, listed, rfl⟩ := ih h
      exact ⟨hclosed, (k, d) :: listed, rfl⟩

theorem passes_iff (hnodup : (fields.map Field.name).Nodup) {m : String × Document} :
    source.Passes fields (n.part m) ↔
      (m.1 ∉ fields.map Field.name → m.2.intact = true) ∧
        ∀ field ∈ fields, field.name = m.1 → field.check (n.below m.2) = .ok () := by
  rw [Source.Passes]
  cases hfield : Field.find? fields (n.part m).1 with
  | none =>
    have hunknown : m.1 ∉ fields.map Field.name := Field.find?_eq_none_iff.1 hfield
    have hskip : source.skip (n.part m).2 = .ok () ↔ m.2.intact = true := by
      change (n.below m.2).skip = .ok () ↔ _
      rw [Node.skip]
      split <;> simp_all [Node.below]
    rw [hskip]
    refine ⟨fun h => ⟨fun _ => h, fun field hmem hname => ?_⟩, fun h => h.1 hunknown⟩
    exact absurd (hname ▸ List.mem_map_of_mem hmem) hunknown
  | some field =>
    obtain ⟨hmem, hname⟩ := Field.mem_of_find? hfield
    refine ⟨fun h => ⟨fun hunknown => ?_, fun other hother hsame => ?_⟩, fun h => h.2 _ hmem hname⟩
    · exact absurd (hname ▸ List.mem_map_of_mem hmem) hunknown
    · have hboth : other = field :=
        List.inj_on_of_nodup_map hnodup hother hmem (hsame.trans hname.symm)
      rw [hboth]
      exact h

/-- **The members of an object are visited without a fault if they give a record and what is given
for each field is decoded.** -/
theorem visitNamed_eq_ok_iff (hnodup : (fields.map Field.name).Nodup) :
    source.visitNamed fields [] (listed.map n.part) = .ok () ↔
      Laid (fields.map Field.name) listed ∧ ∀ field ∈ fields, Checks n listed field := by
  rw [Source.visitNamed_eq_ok_iff, List.forall_mem_map, Source.known, n.names_part]
  simp only [passes_iff hnodup, List.not_mem_nil, not_false_eq_true, implies_true, and_true]
  constructor
  · rintro ⟨hpasses, honce⟩
    exact ⟨⟨honce, fun m hm => (hpasses m hm).1⟩,
      fun field hmem d hd => (hpasses _ hd).2 field hmem rfl⟩
  · rintro ⟨hlaid, hchecks⟩
    refine ⟨fun m hm => ⟨hlaid.others m hm, fun field hmem hname => ?_⟩, hlaid.once⟩
    obtain ⟨k, d⟩ := m
    obtain rfl : field.name = k := hname
    exact hchecks field hmem d hm

/-- The items of an array are decoded as the fields in their places. -/
theorem forall_mem_zip_iff (hnodup : (fields.map Field.name).Nodup) {items : List Document} :
    (∀ p ∈ fields.zip (items.map n.below), p.1.check p.2 = .ok ()) ↔
      ∀ field ∈ fields, Checks n ((fields.map Field.name).zip items) field := by
  rw [List.zip_map_right, List.forall_mem_map, List.zip_map_left]
  simp only [Checks, List.mem_map, Prod.exists, Prod.map_apply, id_eq, Prod.mk.injEq]
  constructor
  · rintro h field hmem d ⟨other, d', hzip, hname, rfl⟩
    obtain rfl : other = field :=
      List.inj_on_of_nodup_map hnodup (List.of_mem_zip hzip).1 hmem hname
    exact h _ hzip
  · rintro h ⟨field, d⟩ hzip
    exact h field (List.of_mem_zip hzip).1 d ⟨field, d, hzip, rfl, rfl⟩

/-- What is taken from a record is what it gives for its fields. -/
theorem exists_gives_of_entries (hnodup : (fields.map Field.name).Nodup)
    (h : source.entries name fields n = .ok e) :
    ∃ listed, n.document.Gives (fields.map Field.name) listed ∧
      (∀ field ∈ fields, Checks n listed field) ∧ e.values = listed.map n.part := by
  obtain ⟨layout, hrecord, -⟩ := Result.bind_eq_ok_iff.1 h
  have hlayout : n.record name = .ok layout := hrecord
  rw [Node.record] at hlayout
  split at hlayout
  · next members ending hd =>
    cases hlayout
    obtain ⟨hvisit, hend, rfl⟩ := (Source.entries_eq_ok_iff_of_named hrecord).1 h
    obtain ⟨hclosed, listed, rfl⟩ := exists_listed_of_ending hend
    cases ending with
    | closed =>
      change source.visitNamed fields [] (n.named _ true).parts = .ok () at hvisit
      rw [n.named_ofNamed] at hvisit
      obtain ⟨hlaid, hchecks⟩ := (visitNamed_eq_ok_iff hnodup).1 hvisit
      refine ⟨listed, hd ▸ .named hlaid, hchecks, ?_⟩
      exact congrArg Run.parts (n.named_ofNamed listed)
    | strayName d => cases hclosed
    | broken => cases hclosed
  · next items closed hd =>
    obtain ⟨hvisit, rfl⟩ := (Source.entries_eq_ok_iff_of_positional (record_array name hd)).1 h
    obtain ⟨hlength, hend, hparts⟩ := Source.visitPositional_eq_ok_iff.1 hvisit
    rw [List.length_map] at hlength
    cases closed with
    | true =>
      refine ⟨(fields.map Field.name).zip items, hd ▸ .positional (by simpa using hlength),
        (forall_mem_zip_iff hnodup).1 hparts, ?_⟩
      rw [List.zip_map_right]
      rfl
    | false => cases hend
  · cases hlayout

/-- An object that gives a decodable value for each field listed is taken as it stands. -/
theorem entries_ofNamed (hnodup : (fields.map Field.name).Nodup)
    (hn : n.document = .ofNamed listed) (hlaid : Laid (fields.map Field.name) listed)
    (hchecks : ∀ field ∈ fields, Checks n listed field) :
    source.entries name fields n =
      .ok ⟨listed.map n.part, fun _ field => .ofCause (.missingField field)⟩ :=
  (Source.entries_eq_ok_iff_of_named (record_ofNamed name hn)).2
    ⟨(visitNamed_eq_ok_iff hnodup).2 ⟨hlaid, hchecks⟩, rfl, rfl⟩

/-- A record that gives a decodable value for each of its fields is taken as it stands. -/
theorem exists_entries_of_gives (hnodup : (fields.map Field.name).Nodup)
    (h : n.document.Gives (fields.map Field.name) listed)
    (hchecks : ∀ field ∈ fields, Checks n listed field) :
    ∃ e, source.entries name fields n = .ok e ∧ e.values = listed.map n.part := by
  generalize hd : n.document = d at h
  cases h with
  | named laid => exact ⟨_, entries_ofNamed hnodup hd laid hchecks, rfl⟩
  | @positional items length_le =>
    refine ⟨_, (Source.entries_eq_ok_iff_of_positional (record_array name hd)).2
      ⟨Source.visitPositional_eq_ok_iff.2 ⟨by simpa using length_le, rfl,
        (forall_mem_zip_iff hnodup).2 hchecks⟩, rfl⟩, ?_⟩
    rw [List.zip_map_right]
    rfl

/-- **A record stands for what is built from the values that it gives for its fields.** -/
theorem decides_record {build : Entries Node → Decoded α}
    {Q : List (String × Document) → α → Prop} (hnodup : (fields.map Field.name).Nodup)
    (hbuild : ∀ (n : Node) (listed : List (String × Document)) (e : Entries Node) (a : α),
      n.Holds (fields.map Field.name) listed → e.values = listed.map n.part →
        (build e = .ok a ↔ Q listed a))
    (hchecks : ∀ (n : Node) (listed : List (String × Document)) (a : α),
      n.Holds (fields.map Field.name) listed → Q listed a →
        ∀ field ∈ fields, Checks n listed field) :
    Decides (fun n => source.inside n (source.entries name fields n >>= build)) fun d a =>
      ∃ listed, d.Gives (fields.map Field.name) listed ∧ Q listed a := by
  intro n a hn
  rw [Source.inside_eq_ok_iff, Result.bind_eq_ok_iff]
  constructor
  · rintro ⟨e, he, hvalue⟩
    obtain ⟨listed, hgives, -, hvalues⟩ := exists_gives_of_entries hnodup he
    exact ⟨listed, hgives, (hbuild n listed e a (hn.holds hnodup hgives) hvalues).1 hvalue⟩
  · rintro ⟨listed, hgives, hvalue⟩
    have hholds := hn.holds hnodup hgives
    obtain ⟨e, he, hvalues⟩ :=
      exists_entries_of_gives hnodup hgives (hchecks n listed a hholds hvalue)
    exact ⟨e, he, (hbuild n listed e a hholds hvalues).2 hvalue⟩

/-! ## Faults of records -/

/-- A fault has no place in a text, so none is added to it. -/
theorem inside_eq (n : Node) (x : Decoded α) : source.inside n x = x := by
  cases x <;> rfl

/-- **If what is given for each field is decoded but one field is given twice, the first that is
given again is the fault.** -/
theorem exists_repeated (name : String) (hnodup : (fields.map Field.name).Nodup)
    (hn : n.document = .ofNamed listed)
    (hothers : ∀ m ∈ listed, m.1 ∉ fields.map Field.name → m.2.intact = true)
    (hchecks : ∀ field ∈ fields, Checks n listed field)
    (hrepeated : ¬((listed.map Prod.fst).filter (· ∈ fields.map Field.name)).Nodup) :
    ∃ k ∈ fields.map Field.name, 2 ≤ (listed.map Prod.fst).count k ∧
      source.entries name fields n = .error (.ofCause (.duplicateField k)) := by
  obtain ⟨before, k, d, behind, rfl, hk, honce⟩ := Names.exists_first_repeated hrepeated
  obtain ⟨hbefore, hfield⟩ := List.mem_filter.1 hk
  refine ⟨k, by simpa using hfield, ?_, ?_⟩
  · have hcount : 0 < (before.map Prod.fst).count k := List.count_pos_iff.2 hbefore
    rw [List.map_append, List.map_cons, List.count_append, List.count_cons_self]
    omega
  · have hlaid : Laid (fields.map Field.name) before :=
      ⟨honce, fun m hm => hothers m (List.mem_append_left _ hm)⟩
    have hvisit : source.visitNamed fields [] (before.map n.part) = .ok () :=
      (visitNamed_eq_ok_iff hnodup).2 ⟨hlaid, fun field hmem d hd =>
        hchecks field hmem d (List.mem_append_left _ hd)⟩
    refine Source.entries_eq_error_of_named (record_ofNamed name hn) ?_
    rw [List.map_append, List.map_cons]
    refine Source.visitNamed_repeated hvisit ?_
    rw [Source.known, n.names_part]
    exact hk

/-- A value that is looked up is decoded if all that is listed under its name is. -/
theorem Checks.exists_ok (h : Checks n listed (.of k read)) (he : e.values = listed.map n.part)
    {v : Node} (hv : e.values.lookup k = some v) : ∃ a, read v = .ok a := by
  rw [he] at hv
  obtain ⟨⟨l, d⟩, hmem, hsame⟩ := List.mem_map.1 (Names.mem_of_lookup hv)
  cases hsame
  exact Field.check_of_eq_ok_iff.1 (h d hmem)

/-! ## Texts -/

theorem decodeReading_eq_ok_iff (hread : Decides read P) {cs : List Char} :
    decodeReading read (Document.ofChars cs) = .ok a ↔
      ∃ d, Document.ofChars cs = ⟨d, true⟩ ∧ P d a := by
  have hroot := hread _ a (textual_ofChars cs)
  rw [decodeReading, Result.bind_eq_ok_iff]
  generalize Document.ofChars cs = reading at hroot
  obtain ⟨d, complete⟩ := reading
  cases complete <;> simp [hroot]
  rfl

/-- **A text is decoded to the values that its document stands for.** -/
theorem decode_eq_ok_iff (hread : Decides read P) {text : String} : decode read text = .ok a ↔
    ∃ d, Document.ofString text = ⟨d, true⟩ ∧ P d a :=
  decodeReading_eq_ok_iff hread

theorem decode_eq_error {fault : Fault} {text : String}
    (h : read (.ofText (Document.ofString text).root) = .error fault) :
    decode read text = .error fault := by
  rw [decode, decodeReading, h, Result.error_bind]

end BeaconReplay.Json
