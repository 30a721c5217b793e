import BeaconReplay.Json.Encode
import BeaconReplay.Proofs.Text.Numerals

/-!
# Encodings that keep values apart

An encoding is faithful if its values are the same only where they stand for the same thing. Chain
data are made up of strings, words, lists and records, and each of these is encoded faithfully; no
part of them is a double, for which being the same is not being equal.
-/
namespace BeaconReplay

attribute [local simp] Json.same Json.sameItems Json.sameMembers

namespace Json

mutual

/-- A value is the same as itself. -/
theorem same_refl : ∀ v : Json, v.same v = true
  | .null => rfl
  | .boolean b => by simp
  | .number (.integer i) => by simp [JsonNumber.same]
  | .number (.real x) => by simp [JsonNumber.same, Binary64.same]
  | .string s => by simp
  | .array vs => by rw [same, sameItems_refl vs]
  | .object ms => by rw [same, sameMembers_refl ms]

theorem sameItems_refl : ∀ vs : List Json, sameItems vs vs = true
  | [] => rfl
  | v :: vs => by rw [sameItems, same_refl v, sameItems_refl vs, Bool.true_and]

theorem sameMembers_refl : ∀ ms : List (String × Json), sameMembers ms ms = true
  | [] => rfl
  | (k, v) :: ms => by
    rw [sameMembers, same_refl v, sameMembers_refl ms, beq_self_eq_true, Bool.true_and,
      Bool.true_and]

end

mutual

/-- It does not matter which of two values is compared with which. -/
theorem same_comm : ∀ v w : Json, v.same w = w.same v
  | .array vs, w => by
    cases w with
    | array ws => rw [same, same, sameItems_comm vs ws]
    | _ => rfl
  | .object ms, w => by
    cases w with
    | object ns => rw [same, same, sameMembers_comm ms ns]
    | _ => rfl
  | .number m, w => by
    cases w with
    | number n =>
      cases m <;> cases n <;>
        simp [JsonNumber.same, Binary64.same, Bool.beq_comm, Bool.and_comm]
    | _ => rfl
  | .null, w => by cases w <;> rfl
  | .boolean b, w => by cases w <;> simp [Bool.beq_comm]
  | .string s, w => by cases w <;> simp [Bool.beq_comm]

theorem sameItems_comm : ∀ vs ws : List Json, sameItems vs ws = sameItems ws vs
  | [], ws => by cases ws <;> rfl
  | v :: vs, [] => rfl
  | v :: vs, w :: ws => by rw [sameItems, sameItems, same_comm v w, sameItems_comm vs ws]

theorem sameMembers_comm : ∀ ms ns : List (String × Json), sameMembers ms ns = sameMembers ns ms
  | [], ns => by cases ns <;> rfl
  | (k, v) :: ms, [] => rfl
  | (k, v) :: ms, (l, w) :: ns => by
    rw [sameMembers, sameMembers, same_comm v w, sameMembers_comm ms ns, Bool.beq_comm]

end

variable {α : Type} {encode : α → Json}

/-- Values are the same only if they stand for the same thing. -/
def Faithful (encode : α → Json) : Prop := ∀ a b, (encode a).same (encode b) = true ↔ a = b

theorem same_string (s t : String) : (Json.string s).same (.string t) = true ↔ s = t := by
  simp

theorem faithful_word : Faithful word := by
  intro m n
  simp [word, JsonNumber.same, UInt64.toNat_inj]

theorem sameItems_map (h : Faithful encode) (xs ys : List α) :
    sameItems (xs.map encode) (ys.map encode) = true ↔ xs = ys := by
  induction xs generalizing ys with
  | nil => cases ys <;> simp
  | cons x xs ih =>
    cases ys with
    | nil => simp
    | cons y ys => simp [h x y, ih ys]

/-- Lists of faithfully encoded elements are encoded faithfully. -/
theorem faithful_ofArray (h : Faithful encode) : Faithful (ofArray encode) := by
  intro xs ys
  rw [ofArray, ofArray, same, sameItems_map h, Array.toList_inj]

end Json

namespace Root

theorem faithful_json : Json.Faithful json := by
  intro r s
  rw [json, json, Json.same_string, text_inj]

end Root

namespace Fork

theorem label_inj {a b : Fork} : a.label = b.label ↔ a = b := by
  cases a <;> cases b <;> simp [label]

theorem faithful_json : Json.Faithful json := by
  intro a b
  rw [json, json, Json.same_string, label_inj]

end Fork

namespace HistoricalSummary

/-- The members of a summary in the order of their names. -/
theorem json_eq (s : HistoricalSummary) : s.json = .object
    [("block_summary_root", s.blockSummaryRoot.json),
     ("state_summary_root", s.stateSummaryRoot.json)] := by
  simp [json, members, Json.ofMembers, Json.insertMember, -String.lt_iff_ltb]

theorem faithful_json : Json.Faithful json := by
  intro s t
  obtain ⟨block, state⟩ := s
  obtain ⟨block', state'⟩ := t
  simp [json_eq, Root.faithful_json _ _]

end HistoricalSummary

namespace Eth1Data

/-- The members of a snapshot in the order of their names. -/
theorem json_eq (d : Eth1Data) : d.json = .object
    [("block_hash", d.blockHash.json), ("deposit_count", .word d.depositCount),
     ("deposit_root", d.depositRoot.json)] := by
  simp [json, members, Json.ofMembers, Json.insertMember, -String.lt_iff_ltb]

theorem faithful_json : Json.Faithful json := by
  intro d e
  obtain ⟨root, count, hash⟩ := d
  obtain ⟨root', count', hash'⟩ := e
  simp [json_eq, Root.faithful_json _ _, Json.faithful_word _ _]
  tauto

end Eth1Data

namespace BeaconState

/-- The members of a state in the order of their names. -/
theorem json_eq (s : BeaconState) : s.json = .object
    [("block_roots", .ofArray Root.json s.blockRoots), ("eth1_data", s.eth1Data.json),
     ("eth1_data_votes", .ofArray Eth1Data.json s.eth1DataVotes), ("fork", s.fork.json),
     ("historical_roots", .ofArray Root.json s.historicalRoots),
     ("historical_summaries", .ofArray HistoricalSummary.json s.historicalSummaries),
     ("randao_mixes", .ofArray Root.json s.randaoMixes),
     ("slashings", .ofArray Json.word s.slashings), ("slot", .word s.slot),
     ("state_roots", .ofArray Root.json s.stateRoots)] := by
  simp [json, members, Json.ofMembers, Json.insertMember, -String.lt_iff_ltb]

/-- **States that are the same as values are equal.** -/
theorem faithful_json : Json.Faithful json := by
  intro s t
  simp only [json_eq, Json.same, Json.sameMembers, Fork.faithful_json _ _,
    Json.faithful_word _ _, Eth1Data.faithful_json _ _,
    Json.faithful_ofArray Root.faithful_json _ _,
    Json.faithful_ofArray HistoricalSummary.faithful_json _ _,
    Json.faithful_ofArray Eth1Data.faithful_json _ _,
    Json.faithful_ofArray Json.faithful_word _ _, Bool.and_eq_true, beq_self_eq_true, true_and,
    and_true]
  constructor
  · rintro ⟨hblock, heth1, hvotes, hfork, hroots, hsummaries, hmixes, hslashings, hslot, hstate⟩
    cases s
    cases t
    simp only [mk.injEq]
    exact ⟨hfork, hslot, hblock, hstate, hroots, hsummaries, heth1, hvotes, hmixes, hslashings⟩
  · rintro rfl
    simp

end BeaconState

end BeaconReplay
