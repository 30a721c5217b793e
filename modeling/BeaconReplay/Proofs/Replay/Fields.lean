import BeaconReplay.Proofs.Replay.Addresses

/-!
# Where two states differ

Plain values differ as a whole, records within their parts, and lists within the items that both
have and at each item that only one of them has. The values that they are encoded as differ in the
same places. So the differences of two states are named by the parts that are not equal, down to
roots, words and items of one side.
-/
namespace BeaconReplay

open Json

/-! ## Differing values -/

/-- Where two values of a type differ, and the sides that they have there. -/
abbrev Differing (α : Type) := α → α → Position → Sides → Prop

section

variable {α : Type}

/-- Plain values differ as a whole, unless they are equal. -/
inductive Whole (encode : α → Json) (x y : α) : Position → Sides → Prop
  | unequal (h : x ≠ y) : Whole encode x y [] ⟨some (encode x), some (encode y)⟩

/-- Of a pair either value may be absent. Two values differ as their type says, and a value on one
side as a whole. -/
inductive Paired (encode : α → Json) (differ : Differing α) :
    Option α → Option α → Position → Sides → Prop
  | both {x y : α} {p : Position} {d : Sides} (h : differ x y p d) :
      Paired encode differ (some x) (some y) p d
  | expected (x : α) : Paired encode differ (some x) none [] ⟨some (encode x), none⟩
  | actual (y : α) : Paired encode differ none (some y) [] ⟨none, some (encode y)⟩

/-- Lists differ in their items, paired by their numbers and behind these. -/
inductive Items (encode : α → Json) (differ : Differing α) (xs ys : Array α) :
    Position → Sides → Prop
  | within {i : ℕ} {p : Position} {d : Sides} (h : Paired encode differ xs[i]? ys[i]? p d) :
      Items encode differ xs ys (.item i :: p) d

end

/-- A part of a record: its name, what it is, how it is encoded, and where two of them differ. -/
structure Part (σ : Type) where
  name : String
  {α : Type}
  get : σ → α
  encode : α → Json
  differ : Differing α

namespace Part

variable {σ : Type}

/-- A part as a value. -/
def json (f : Part σ) (s : σ) : Json := f.encode (f.get s)

/-- A part as a member. -/
def member (f : Part σ) (s : σ) : String × Json := (f.name, f.json s)

/-- A list of roots. -/
def roots (name : String) (get : σ → Array Root) : Part σ :=
  ⟨name, get, ofArray Root.json, Items Root.json (Whole Root.json)⟩

end Part

/-- Records differ within their parts, behind the names of these. -/
inductive Parts {σ : Type} (fields : List (Part σ)) (s t : σ) : Position → Sides → Prop
  | within {f : Part σ} {p : Position} {d : Sides} (hf : f ∈ fields)
      (h : f.differ (f.get s) (f.get t) p d) : Parts fields s t (.member f.name :: p) d

/-- The parts of a summary. -/
def HistoricalSummary.parts : List (Part HistoricalSummary) :=
  [⟨"block_summary_root", blockSummaryRoot, Root.json, Whole Root.json⟩,
   ⟨"state_summary_root", stateSummaryRoot, Root.json, Whole Root.json⟩]

/-- The parts of a snapshot. -/
def Eth1Data.parts : List (Part Eth1Data) :=
  [⟨"deposit_root", depositRoot, Root.json, Whole Root.json⟩,
   ⟨"deposit_count", depositCount, Json.word, Whole Json.word⟩,
   ⟨"block_hash", blockHash, Root.json, Whole Root.json⟩]

/-- The parts of a state. -/
def BeaconState.parts : List (Part BeaconState) :=
  [⟨"fork", fork, Fork.json, Whole Fork.json⟩, ⟨"slot", slot, Json.word, Whole Json.word⟩,
   .roots "block_roots" blockRoots, .roots "state_roots" stateRoots,
   .roots "historical_roots" historicalRoots,
   ⟨"historical_summaries", historicalSummaries, ofArray HistoricalSummary.json,
    Items HistoricalSummary.json (Parts HistoricalSummary.parts)⟩,
   ⟨"eth1_data", eth1Data, Eth1Data.json, Parts Eth1Data.parts⟩,
   ⟨"eth1_data_votes", eth1DataVotes, ofArray Eth1Data.json,
    Items Eth1Data.json (Parts Eth1Data.parts)⟩,
   .roots "randao_mixes" randaoMixes,
   ⟨"slashings", slashings, ofArray Json.word, Items Json.word (Whole Json.word)⟩]

/-! ## Encoded values -/

namespace Json

variable {α : Type} {encode : α → Json} {ms : List (String × Json)} {k : String} {s : Step}

theorem child?_ofArray (xs : Array α) (i : ℕ) :
    (ofArray encode xs).child? (.item i) = xs[i]?.map encode := by
  simp [ofArray, child?]

/-- A member of an object of distinct names is found by its name. -/
theorem child?_ofMembers (h : (ms.map Prod.fst).Nodup) :
    (ofMembers ms).child? (.member k) = ms.lookup k := by
  obtain ⟨listed, heq, hperm⟩ := lists_ofMembers h
  rw [heq]
  exact (Names.lookup_of_perm h hperm.symm).symm

theorem plainNames_ofMembers (h : (ms.map Prod.fst).Nodup) (hnames : ∀ m ∈ ms, PlainName m.1)
    (hvalues : ∀ m ∈ ms, m.2.PlainNames) : (ofMembers ms).PlainNames := by
  obtain ⟨listed, heq, hperm⟩ := lists_ofMembers h
  rw [heq]
  exact .object (fun m hm => hnames m (hperm.mem_iff.1 hm)) fun m hm =>
    hvalues m (hperm.mem_iff.1 hm)

end Json

namespace Sides

variable {c d : Sides} {v : Json} {s : Step} {p : Position}

/-- The sides differ at a position, and these are the ones that they have there. -/
structure DiffersAs (d : Sides) (p : Position) (c : Sides) : Prop where
  differsAt : d.DiffersAt p
  sides : d.below p = c

theorem differsAs_nil : d.DiffersAs [] c ↔ d.Apart ∧ d = c :=
  ⟨fun h => ⟨differsAt_nil.1 h.differsAt, below_nil.symm.trans h.sides⟩,
    fun h => ⟨differsAt_nil.2 h.1, below_nil.trans h.2⟩⟩

theorem differsAs_cons : d.DiffersAs (s :: p) c ↔ d.Parallel ∧ (d.child s).DiffersAs p c := by
  constructor
  · intro h
    obtain ⟨hpar, hchild⟩ := differsAt_cons.1 h.differsAt
    exact ⟨hpar, hchild, below_cons.symm.trans h.sides⟩
  · rintro ⟨hpar, h⟩
    exact ⟨differsAt_cons.2 ⟨hpar, h.differsAt⟩, below_cons.trans h.sides⟩

/-- Where nothing stands on either side, nothing differs. -/
theorem not_differsAs_none : ¬DiffersAs ⟨none, none⟩ p c :=
  fun h => h.differsAt.present.elim (fun hne => hne rfl) fun hne => hne rfl

/-- What stands on one side only differs as a whole. -/
theorem differsAs_of_absent (hpresent : d.expected ≠ none ∨ d.actual ≠ none)
    (habsent : d.expected = none ∨ d.actual = none) : d.DiffersAs p c ↔ p = [] ∧ d = c := by
  have hpar : ¬d.Parallel := by
    obtain ⟨e, a⟩ := d
    cases e <;> cases a <;> simp_all [Parallel]
  have hsame : ¬d.Same := by
    obtain ⟨e, a⟩ := d
    cases e <;> cases a <;> simp_all [Same]
  cases p with
  | nil => simpa [differsAs_nil] using fun _ => Apart.mk hpresent hsame hpar
  | cons s p => simp [differsAs_cons, hpar]

end Sides

/-- Two values differ where the values do that they are encoded as. -/
structure Located {α : Type} (encode : α → Json) (differ : Differing α) : Prop where
  faithful : Faithful encode
  ordered : ∀ x, (encode x).Ordered
  plainNames : ∀ x, (encode x).PlainNames
  differ_iff : ∀ x y p d, differ x y p d ↔ Sides.DiffersAs ⟨some (encode x), some (encode y)⟩ p d

namespace Located

variable {α : Type} {encode : α → Json} {differ : Differing α} {x y : α}

/-- Encoded as values without parts, plain values differ as a whole. -/
theorem whole (faithful : Faithful encode) (ordered : ∀ x, (encode x).Ordered)
    (plainNames : ∀ x, (encode x).PlainNames)
    (hpar : ∀ x y, (encode x).parallel (encode y) = false) : Located encode (Whole encode) where
  faithful := faithful
  ordered := ordered
  plainNames := plainNames
  differ_iff x y p d := by
    have hwhole : ¬Sides.Parallel ⟨some (encode x), some (encode y)⟩ :=
      Bool.eq_false_iff.1 (hpar x y)
    constructor
    · rintro ⟨hne⟩
      exact Sides.differsAs_nil.2
        ⟨⟨.inl (Option.some_ne_none _), mt (faithful x y).1 hne, hwhole⟩, rfl⟩
    · intro h
      cases p with
      | nil =>
        obtain ⟨happ, rfl⟩ := Sides.differsAs_nil.1 h
        exact .unequal (mt (faithful x y).2 happ.unequal)
      | cons s p => exact absurd (Sides.differsAs_cons.1 h).1 hwhole

theorem paired_iff (h : Located encode differ) (x y : Option α) (p : Position) (d : Sides) :
    Paired encode differ x y p d ↔ Sides.DiffersAs ⟨x.map encode, y.map encode⟩ p d := by
  cases x with
  | some x =>
    cases y with
    | some y => exact ⟨fun | .both hd => (h.differ_iff x y p d).1 hd,
        fun hd => .both ((h.differ_iff x y p d).2 hd)⟩
    | none =>
      rw [Sides.differsAs_of_absent (.inl (Option.some_ne_none _)) (.inr rfl)]
      constructor
      · rintro ⟨⟩
        exact ⟨rfl, rfl⟩
      · rintro ⟨rfl, rfl⟩
        exact .expected x
  | none =>
    cases y with
    | some y =>
      rw [Sides.differsAs_of_absent (.inr (Option.some_ne_none _)) (.inl rfl)]
      constructor
      · rintro ⟨⟩
        exact ⟨rfl, rfl⟩
      · rintro ⟨rfl, rfl⟩
        exact .actual y
    | none => exact ⟨nofun, fun hd => absurd hd Sides.not_differsAs_none⟩

/-- Lists of encoded values differ in their items. -/
theorem items (h : Located encode differ) : Located (ofArray encode) (Items encode differ) where
  faithful := faithful_ofArray h.faithful
  ordered xs := .array (List.forall_mem_map.2 fun x _ => h.ordered x)
  plainNames xs := .array (List.forall_mem_map.2 fun x _ => h.plainNames x)
  differ_iff xs ys p d := by
    have hpar : Sides.Parallel ⟨some (ofArray encode xs), some (ofArray encode ys)⟩ := rfl
    match p with
    | [] =>
      rw [Sides.differsAs_nil]
      exact ⟨nofun, fun happ => absurd hpar happ.1.whole⟩
    | .member k :: p =>
      rw [Sides.differsAs_cons]
      exact ⟨nofun, fun hchild => absurd hchild.2 Sides.not_differsAs_none⟩
    | .item i :: p =>
      rw [Sides.differsAs_cons, and_iff_right hpar, Sides.child_some, child?_ofArray,
        child?_ofArray, ← h.paired_iff]
      exact ⟨fun | .within hd => hd, .within⟩

end Located

/-! ## Records -/

/-- The parts that a record is encoded by, as members of distinct plain names. -/
structure MadeOf {σ : Type} (record : σ → Json) (fields : List (Part σ)) : Prop where
  json_eq : ∀ s, record s = ofMembers (fields.map (·.member s))
  nodup : (fields.map Part.name).Nodup
  names : ∀ f ∈ fields, PlainName f.name

namespace MadeOf

variable {σ : Type} {record : σ → Json} {fields : List (Part σ)} {f g : Part σ} {s t : σ}
  {p : Position} {d : Sides}

theorem nodup_members (h : MadeOf record fields) (s : σ) :
    ((fields.map (·.member s)).map Prod.fst).Nodup := by
  rw [List.map_map]
  exact h.nodup

/-- A part stands behind its name. -/
theorem child?_name (h : MadeOf record fields) (hf : f ∈ fields) (s : σ) :
    (record s).child? (.member f.name) = some (f.json s) := by
  rw [h.json_eq, child?_ofMembers (h.nodup_members s),
    Names.lookup_eq_some_iff (h.nodup_members s)]
  exact List.mem_map_of_mem hf

/-- Nothing stands behind other names, nor behind numbers. -/
theorem child?_eq_none (h : MadeOf record fields) {a : Step}
    (ha : ∀ f ∈ fields, a ≠ .member f.name) (s : σ) : (record s).child? a = none := by
  rw [h.json_eq]
  cases a with
  | member k =>
    rw [child?_ofMembers (h.nodup_members s), Names.lookup_eq_none_iff, List.map_map]
    intro hk
    obtain ⟨f, hf, rfl⟩ := List.mem_map.1 hk
    exact ha f hf rfl
  | item i => rfl

theorem parallel (h : MadeOf record fields) (s t : σ) :
    Sides.Parallel ⟨some (record s), some (record t)⟩ := by
  rw [h.json_eq, h.json_eq]
  rfl

/-- Behind the name of a part, records differ where that part does. -/
theorem within_iff (h : MadeOf record fields) (hf : f ∈ fields) :
    Parts fields s t (.member f.name :: p) d ↔ f.differ (f.get s) (f.get t) p d := by
  constructor
  · generalize hk : Step.member f.name = a
    rintro ⟨hg, hd⟩
    cases List.inj_on_of_nodup_map h.nodup hf hg (Step.member.inj hk)
    exact hd
  · exact .within hf

/-- Records differ where the objects do that they are encoded as. -/
theorem located (h : MadeOf record fields) (faithful : Faithful record)
    (hparts : ∀ f ∈ fields, Located f.encode f.differ) : Located record (Parts fields) where
  faithful := faithful
  ordered s := by
    rw [h.json_eq]
    exact ordered_ofMembers (List.forall_mem_map.2 fun f hf => (hparts f hf).ordered _)
  plainNames s := by
    rw [h.json_eq]
    exact plainNames_ofMembers (h.nodup_members s) (List.forall_mem_map.2 h.names)
      (List.forall_mem_map.2 fun f hf => (hparts f hf).plainNames _)
  differ_iff s t p d := by
    cases p with
    | nil =>
      rw [Sides.differsAs_nil]
      exact ⟨nofun, fun happ => absurd (h.parallel s t) happ.1.whole⟩
    | cons a p =>
      rw [Sides.differsAs_cons, and_iff_right (h.parallel s t), Sides.child_some]
      by_cases ha : ∃ f ∈ fields, a = .member f.name
      · obtain ⟨f, hf, rfl⟩ := ha
        rw [h.child?_name hf, h.child?_name hf, h.within_iff hf, (hparts f hf).differ_iff]
        rfl
      · have hother (f : Part σ) (hf : f ∈ fields) : a ≠ .member f.name :=
          fun heq => ha ⟨f, hf, heq⟩
        rw [h.child?_eq_none hother, h.child?_eq_none hother]
        refine iff_of_false ?_ Sides.not_differsAs_none
        rintro ⟨hf, -⟩
        exact hother _ hf rfl

end MadeOf

/-! ## Chain data -/

theorem Root.located : Located Root.json (Whole Root.json) :=
  .whole Root.faithful_json (fun _ => .string _) (fun _ => .string _) fun _ _ => rfl

theorem Fork.located : Located Fork.json (Whole Fork.json) :=
  .whole Fork.faithful_json (fun _ => .string _) (fun _ => .string _) fun _ _ => rfl

theorem Json.located_word : Located Json.word (Whole Json.word) :=
  .whole faithful_word (fun _ => .number _) (fun _ => .number _) fun _ _ => rfl

theorem HistoricalSummary.madeOf_parts : MadeOf json parts :=
  ⟨fun _ => rfl, by decide, by decide⟩

theorem Eth1Data.madeOf_parts : MadeOf json parts := ⟨fun _ => rfl, by decide, by decide⟩

theorem BeaconState.madeOf_parts : MadeOf json parts := ⟨fun _ => rfl, by decide, by decide⟩

theorem HistoricalSummary.located : Located json (Parts parts) :=
  madeOf_parts.located faithful_json (by simp [parts, Root.located])

theorem Eth1Data.located : Located json (Parts parts) :=
  madeOf_parts.located faithful_json (by simp [parts, Root.located, located_word])

theorem BeaconState.located_part : ∀ f ∈ parts, Located f.encode f.differ := by
  simp [parts, Part.roots, Root.located, Fork.located, located_word, Located.items,
    HistoricalSummary.located, Eth1Data.located]

theorem BeaconState.located : Located json (Parts parts) :=
  madeOf_parts.located faithful_json located_part

/-! ## The differences of values -/

/-- A difference at a position or below it. -/
def Difference.Under (d : Difference) (p : Position) : Prop :=
  ∃ q, Position.ofPath? d.path = some (p ++ q)

namespace Located

variable {α : Type} {encode : α → Json} {differ : Differing α} {d : Difference} {p : Position}

/-- The differences of encoded values are named by the paths to where they differ. -/
theorem mem_diff_iff (h : Located encode differ) (x y : α) : d ∈ diff (encode x) (encode y) ↔
    ∃ p, p.text = d.path ∧ differ x y p ⟨d.expected, d.actual⟩ := by
  obtain ⟨ps, hps⟩ := Sides.exists_listed (h.ordered x) (h.ordered y)
  rw [Diff.diff_eq_map hps, List.mem_map]
  refine exists_congr fun p => ?_
  rw [hps.mem_iff, h.differ_iff]
  constructor
  · rintro ⟨hp, rfl⟩
    exact ⟨rfl, hp, rfl⟩
  · rintro ⟨hpath, hp, hsides⟩
    obtain ⟨path, expected, actual⟩ := d
    obtain ⟨rfl, rfl⟩ := Sides.mk.inj hsides
    exact ⟨hp, hpath ▸ rfl⟩

theorem ofPath?_text (h : Located encode differ) {x y : α} {c : Sides} (hp : differ x y p c) :
    Position.ofPath? p.text = some p :=
  Position.ofPath?_text
    (((h.differ_iff x y p c).1 hp).differsAt.plain (h.plainNames x) (h.plainNames y))

theorem mem_under_iff (h : Located encode differ) (x y : α) :
    d ∈ diff (encode x) (encode y) ∧ d.Under p ↔
      ∃ q, Position.text (p ++ q) = d.path ∧ differ x y (p ++ q) ⟨d.expected, d.actual⟩ := by
  rw [h.mem_diff_iff]
  constructor
  · rintro ⟨⟨r, hpath, hr⟩, q, hq⟩
    rw [← hpath, h.ofPath?_text hr] at hq
    cases hq
    exact ⟨q, hpath, hr⟩
  · rintro ⟨q, hpath, hq⟩
    exact ⟨⟨p ++ q, hpath, hq⟩, q, hpath ▸ h.ofPath?_text hq⟩

/-- Values differ somewhere exactly if they are not equal. -/
theorem exists_differ_iff (h : Located encode differ) (x y : α) :
    (∃ p c, differ x y p c) ↔ x ≠ y := by
  obtain ⟨ps, hps⟩ := Sides.exists_listed (h.ordered x) (h.ordered y)
  rw [ne_eq, ← h.faithful x y, ← diff_eq_nil_iff, Diff.diff_eq_map hps, List.map_eq_nil_iff,
    List.eq_nil_iff_forall_not_mem, not_forall_not]
  refine exists_congr fun p => ?_
  rw [hps.mem_iff]
  constructor
  · rintro ⟨c, hp⟩
    exact ((h.differ_iff x y p c).1 hp).differsAt
  · intro hp
    exact ⟨_, (h.differ_iff x y p _).2 ⟨hp, rfl⟩⟩

end Located

namespace BeaconState

variable {e a : BeaconState} {f : Part BeaconState} {d : Difference}

/-- A part is named in front of some path exactly if it is not equal. -/
theorem exists_under_part_iff (hf : f ∈ parts) :
    (∃ d ∈ e.diff a, d.Under [.member f.name]) ↔ f.get e ≠ f.get a := by
  rw [← (located_part f hf).exists_differ_iff]
  constructor
  · rintro ⟨d, hd⟩
    obtain ⟨p, -, hp⟩ := (located.mem_under_iff e a).1 hd
    exact ⟨p, _, (madeOf_parts.within_iff hf).1 hp⟩
  · rintro ⟨p, c, hp⟩
    exact ⟨c.difference (Position.text (.member f.name :: p)),
      (located.mem_under_iff e a).2 ⟨p, rfl, .within hf hp⟩⟩

/-- Behind the number of an item that only one of two lists has, nothing but that item differs. -/
theorem differ_item_iff (hf : f ∈ parts) {es as : List Json} (he : f.json e = .array es)
    (ha : f.json a = .array as) {i : ℕ}
    (hi : es.length ≤ i ∧ i < as.length ∨ as.length ≤ i ∧ i < es.length)
    {p : Position} {c : Sides} :
    Parts parts e a (.member f.name :: .item i :: p) c ↔ p = [] ∧ ⟨es[i]?, as[i]?⟩ = c := by
  rw [Part.json] at he ha
  have hpar : Sides.Parallel ⟨some (.array es), some (.array as)⟩ := rfl
  rw [madeOf_parts.within_iff hf, (located_part f hf).differ_iff, he, ha, Sides.differsAs_cons,
    and_iff_right hpar, Sides.child_some]
  refine Sides.differsAs_of_absent ?_ ?_
  · exact hi.elim (fun h => .inr (by simpa [child?] using h.2)) fun h =>
      .inl (by simpa [child?] using h.2)
  · exact hi.imp (fun h => List.getElem?_eq_none h.1) fun h => List.getElem?_eq_none h.1

/-- So that item is named once, as a whole. -/
theorem mem_under_item_iff (hf : f ∈ parts) {es as : List Json} (he : f.json e = .array es)
    (ha : f.json a = .array as) {i : ℕ}
    (hi : es.length ≤ i ∧ i < as.length ∨ as.length ≤ i ∧ i < es.length) :
    d ∈ e.diff a ∧ d.Under [.member f.name, .item i] ↔
      d = ⟨Diff.item f.name i, es[i]?, as[i]?⟩ := by
  refine (located.mem_under_iff e a).trans ?_
  constructor
  · rintro ⟨p, hpath, hp⟩
    obtain ⟨path, expected, actual⟩ := d
    obtain ⟨rfl, hsides⟩ := (differ_item_iff hf he ha hi).1 hp
    obtain ⟨rfl, rfl⟩ := Sides.mk.inj hsides
    exact congrArg (Difference.mk · _ _) hpath.symm
  · rintro rfl
    exact ⟨[], rfl, (differ_item_iff hf he ha hi).2 ⟨rfl, rfl⟩⟩

/-- **The differences of two states are named by the parts that are not equal.** There is none
exactly if the states are equal, and some path starts with the name of a part exactly if that part
is not equal. Of two lists of different lengths each item behind the shorter one is named once, with
nothing on that side and nothing below it; all else is named as `Parts` says, where both have it,
down to each root, word or part of an item that is not equal. No path is named twice. -/
theorem diff_names_unequal_parts (e a : BeaconState) :
    (e.diff a = [] ↔ e = a) ∧
    (∀ f ∈ parts, (∃ d ∈ e.diff a, d.Under [.member f.name]) ↔ f.get e ≠ f.get a) ∧
    (∀ f ∈ parts, ∀ es as, f.json e = .array es → f.json a = .array as →
      ∀ i, es.length ≤ i ∧ i < as.length ∨ as.length ≤ i ∧ i < es.length →
        ∀ d, d ∈ e.diff a ∧ d.Under [.member f.name, .item i] ↔
          d = ⟨Diff.item f.name i, es[i]?, as[i]?⟩) ∧
    (∀ d, d ∈ e.diff a ↔ ∃ p, p.text = d.path ∧ Parts parts e a p ⟨d.expected, d.actual⟩) ∧
    ((e.diff a).map Difference.path).Nodup := by
  obtain ⟨ps, hps, -, hnodup⟩ := Diff.exists_addressed (located.ordered e) (located.ordered a)
    (located.plainNames e) (located.plainNames a)
  refine ⟨diff_eq_nil_iff e a, fun f hf => exists_under_part_iff hf,
    fun f hf es as he ha i hi d => mem_under_item_iff hf he ha hi,
    fun d => located.mem_diff_iff e a, ?_⟩
  rw [diff, Diff.diff_eq_map hps, List.map_map]
  exact hnodup

/-- The empty state of a later slot, with a root. -/
def batched : BeaconState :=
  { new .minimal .capella with slot := 64, historicalRoots := #[Root.zero] }

/-- A word that is not equal, a part that is, and a root of one side. -/
theorem diff_names_of_batched :
    (new .minimal .capella).diff batched ≠ [] ∧
    (∃ d ∈ (new .minimal .capella).diff batched, d.Under [.member "slot"]) ∧
    (¬∃ d ∈ (new .minimal .capella).diff batched, d.Under [.member "fork"]) ∧
    ∀ d, d ∈ (new .minimal .capella).diff batched ∧
        d.Under [.member "historical_roots", .item 0] ↔
      d = ⟨"historical_roots[0]", none, some Root.zero.json⟩ := by
  obtain ⟨hequal, hparts, hitems, -, -⟩ :=
    diff_names_unequal_parts (new .minimal .capella) batched
  refine ⟨?_, ?_, ?_, ?_⟩
  · exact fun h => absurd (congrArg slot (hequal.1 h)) (by decide)
  · exact (hparts _ (List.mem_of_getElem? (show parts[1]? = some _ from rfl))).2 (by decide)
  · exact fun h => (hparts _ (List.mem_of_getElem? (show parts[0]? = some _ from rfl))).1 h rfl
  · exact hitems _ (List.mem_of_getElem? (show parts[4]? = some _ from rfl)) [] [Root.zero.json]
      rfl rfl 0 (.inl ⟨by decide, by decide⟩)

end BeaconState

end BeaconReplay
