import BeaconReplay.Proofs.Json.Faithful
import BeaconReplay.Replay.Diff

/-!
# Where no difference is found

The walk over two values finds nothing exactly where they are the same, whatever the order of
their members. As the values of states are the same only if the states are equal, the differences
of two states and their equality never contradict each other.
-/
namespace BeaconReplay

namespace Diff

section Members

variable {path k l : String} {e a : Json} {es as : List (String × Json)}

/-- A member in front of the expected one stands on the actual side only. -/
theorem walkMembers_before (h : l < k) : walkMembers path ((k, e) :: es) ((l, a) :: as) =
    onlyActual path (l, a) :: walkMembers path ((k, e) :: es) as := by
  simp [walkMembers, h, -String.lt_iff_ltb]

/-- Members of one name are compared. -/
theorem walkMembers_here : walkMembers path ((k, e) :: es) ((k, a) :: as) =
    walk (member path k) e a ++ walkMembers path es as := by
  simp [walkMembers, -String.lt_iff_ltb]

/-- A member behind the expected one leaves that one alone. -/
theorem walkMembers_behind (h : k < l) : walkMembers path ((k, e) :: es) ((l, a) :: as) =
    ⟨member path k, some e, none⟩ :: walkMembers path es ((l, a) :: as) := by
  simp [walkMembers, h.ne', h.not_gt, -String.lt_iff_ltb]

end Members

mutual

/-- The walk finds nothing exactly where two values are the same. -/
theorem walk_eq_nil_iff (path : String) : ∀ e a : Json, walk path e a = [] ↔ e.same a = true
  | .object es, a => by
    cases a with
    | object as => rw [walk, Json.same, walkMembers_eq_nil_iff path es as]
    | _ => simp [walk]
  | .array es, a => by
    cases a with
    | array as => rw [walk, Json.same, walkItems_eq_nil_iff path 0 es as]
    | _ => simp [walk]
  | .null, a => by cases a <;> simp [walk]
  | .boolean b, a => by cases a <;> simp [walk]
  | .number n, a => by cases a <;> simp [walk]
  | .string s, a => by cases a <;> simp [walk]

theorem walkItems_eq_nil_iff (path : String) (i : ℕ) :
    ∀ es as : List Json, walkItems path i es as = [] ↔ Json.sameItems es as = true
  | [], as => by cases as <;> simp [walkItems, onlyActualItems, Json.sameItems]
  | e :: es, [] => by simp [walkItems, onlyExpectedItems, Json.sameItems]
  | e :: es, a :: as => by
    rw [walkItems, List.append_eq_nil_iff, walk_eq_nil_iff (item path i) e a,
      walkItems_eq_nil_iff path (i + 1) es as, Json.sameItems, Bool.and_eq_true]

theorem walkMembers_eq_nil_iff (path : String) : ∀ es as : List (String × Json),
    walkMembers path es as = [] ↔ Json.sameMembers es as = true
  | [], as => by cases as <;> simp [walkMembers, Json.sameMembers]
  | (k, e) :: es, [] => by simp [walkMembers, Json.sameMembers]
  | (k, e) :: es, (l, a) :: as => by
    have hvalue := walk_eq_nil_iff (member path k) e a
    have hrest := walkMembers_eq_nil_iff path es as
    rcases lt_trichotomy l k with hlt | rfl | hgt
    · have hne : k ≠ l := hlt.ne'
      simp [walkMembers_before hlt, Json.sameMembers, hne]
    · rw [walkMembers_here, List.append_eq_nil_iff, hvalue, hrest, Json.sameMembers,
        beq_self_eq_true, Bool.true_and, Bool.and_eq_true]
    · have hne : k ≠ l := hgt.ne
      simp [walkMembers_behind hgt, Json.sameMembers, hne]

end

end Diff

/-- **Two values differ nowhere exactly if they are the same.** -/
theorem diff_eq_nil_iff (e a : Json) : diff e a = [] ↔ e.same a = true :=
  Diff.walk_eq_nil_iff "" e a

/-- **Two states differ nowhere exactly if they are equal.** -/
theorem BeaconState.diff_eq_nil_iff (e a : BeaconState) : e.diff a = [] ↔ e = a := by
  rw [BeaconState.diff, BeaconReplay.diff_eq_nil_iff, BeaconState.faithful_json]

end BeaconReplay
