import BeaconReplay.Client.Features
import BeaconReplay.Proofs.Result

/-!
# Flags that never change

The flags of a process are initialised and read, and backends are selected by them, in any order and
as often as one likes. The first of these calls pins the flags for all others: an initialisation
pins the flags that it is given, and any other call the defaults. From then on every call is
answered by the pinned flags, and an initialisation is refused.
-/
namespace BeaconReplay.Pin

variable {κ : Type}

/-- A call on the flags of a process. -/
inductive Call (κ : Type) where
  | init (flags : Flags)
  | get
  /-- Select the backend of a connection. -/
  | select (c : Connection κ)

/-- What a call gives back. -/
inductive Result (κ : Type) where
  | init (outcome : Except Flags Unit)
  | flags (flags : Flags)
  | client (client : Client κ)

/-- Make a call. -/
def step (p : Pin) : Call κ → Result κ × Pin
  | .init flags => (.init (p.init flags).1, (p.init flags).2)
  | .get => (.flags p.get.1, p.get.2)
  | .select c => (.client (p.select c).1, (p.select c).2)

/-- Make calls one after the other. -/
def run : Pin → List (Call κ) → List (Result κ) × Pin
  | p, [] => ([], p)
  | p, c :: cs =>
    let (r, p) := p.step c
    let (rs, p) := run p cs
    (r :: rs, p)

/-- What the calls of a process give back, from its start on. -/
def results (calls : List (Call κ)) : List (Result κ) := (run empty calls).1

/-- The flags that are pinned behind the calls of a process. -/
def after (calls : List (Call κ)) : Pin := (run empty calls).2

/-! ## One call -/

/-- The answer of pinned flags to a call. -/
def answer (flags : Flags) : Call κ → Result κ
  | .init given => .init (.error given)
  | .get => .flags flags
  | .select c => .client (Client.select flags c).1

/-- The flags that a call pins if none are pinned yet. -/
def Call.pins : Call κ → Flags
  | .init flags => flags
  | .get => Flags.default
  | .select _ => Flags.default

/-- The answer to a call that pins the flags. -/
def opening : Call κ → Result κ
  | .init _ => .init (.ok ())
  | c => answer c.pins c

/-- Pinned flags answer and stay pinned. -/
theorem step_some (flags : Flags) (c : Call κ) :
    step (some flags) c = (answer flags c, some flags) := by
  cases c <;> rfl

/-- The first call pins the flags. -/
theorem step_empty (c : Call κ) : step empty c = (opening c, some c.pins) := by
  cases c <;> rfl

/-! ## All calls -/

theorem run_append (p : Pin) (before behind : List (Call κ)) : run p (before ++ behind) =
    ((run p before).1 ++ (run (run p before).2 behind).1, (run (run p before).2 behind).2) := by
  induction before generalizing p with
  | nil => rfl
  | cons c cs ih => simp only [List.cons_append, run, ih]

/-- Pinned flags answer every call. -/
theorem run_some (flags : Flags) (calls : List (Call κ)) :
    run (some flags) calls = (calls.map (answer flags), some flags) := by
  induction calls with
  | nil => rfl
  | cons c cs ih => simp only [run, step_some, ih, List.map_cons]

/-- The first call pins the flags that answer all others. -/
theorem run_cons (c : Call κ) (cs : List (Call κ)) :
    run empty (c :: cs) = (opening c :: cs.map (answer c.pins), some c.pins) := by
  simp only [run, step_empty, run_some]

/-- The flags that are pinned as soon as there is a call. -/
def chosen : List (Call κ) → Flags
  | [] => Flags.default
  | c :: _ => c.pins

/-- The first call is answered as the one that pins, and the others by what it pins. -/
theorem results_getElem? (calls : List (Call κ)) (k : ℕ) : (results calls)[k]? =
    calls[k]?.map fun c => if k = 0 then opening c else answer (chosen calls) c := by
  cases calls with
  | nil => rfl
  | cons c cs => cases k <;> simp [results, run_cons, chosen]

theorem after_of_ne_nil {calls : List (Call κ)} (h : calls ≠ []) :
    after calls = some (chosen calls) := by
  obtain ⟨c, cs, rfl⟩ := List.exists_cons_of_ne_nil h
  rw [after, run_cons, chosen]

/-- Whether a call is an initialisation. -/
def Call.isInit : Call κ → Bool
  | .init _ => true
  | _ => false

/-- A use is answered by the pinned flags, also where it pins them. -/
theorem results_of_use {calls : List (Call κ)} {k : ℕ} {c : Call κ} (hk : calls[k]? = some c)
    (huse : c.isInit = false) : (results calls)[k]? = some (answer (chosen calls) c) := by
  rw [results_getElem?, hk]
  cases k with
  | succ k => rfl
  | zero =>
    have hchosen : chosen calls = c.pins := by
      cases calls with
      | nil => cases hk
      | cons d cs =>
        cases hk
        rfl
    have hopening : opening c = answer c.pins c := by
      cases c with
      | init flags => cases huse
      | get => rfl
      | select c => rfl
    simp [hchosen, hopening]

/-- The initialisation in front of all others, if it also stands in front of every call that uses
the flags. -/
structure Leads (calls : List (Call κ)) (k : ℕ) (given : Flags) : Prop where
  here : calls[k]? = some (.init given)
  first : ∀ (j : ℕ) c, calls[j]? = some c → c.isInit = true → k ≤ j
  unused : ∀ (j : ℕ) c, calls[j]? = some c → c.isInit = false → k < j

/-- Every call is an initialisation or uses the flags, so only the first one leads. -/
theorem leads_iff {calls : List (Call κ)} {k : ℕ} {given : Flags} :
    Leads calls k given ↔ k = 0 ∧ calls[0]? = some (.init given) := by
  constructor
  · intro h
    have hzero : k = 0 := by
      cases calls with
      | nil => cases h.here
      | cons c cs =>
        cases hinit : c.isInit with
        | true => exact Nat.le_zero.1 (h.first 0 c rfl hinit)
        | false => exact absurd (h.unused 0 c rfl hinit) (Nat.not_lt_zero k)
    exact ⟨hzero, hzero ▸ h.here⟩
  · rintro ⟨rfl, hhead⟩
    refine ⟨hhead, fun j _ _ _ => Nat.zero_le j, fun j c hc hinit => ?_⟩
    refine Nat.pos_of_ne_zero ?_
    rintro rfl
    rw [hhead, Option.some.injEq] at hc
    subst hc
    cases hinit

/-- How flags answer the calls of a process. -/
structure PinnedBy (calls : List (Call κ)) (flags : Flags) : Prop where
  gets : ∀ k : ℕ, calls[k]? = some .get → (results calls)[k]? = some (.flags flags)
  selects : ∀ (k : ℕ) c, calls[k]? = some (.select c) →
    (results calls)[k]? = some (.client (Client.select flags c).1)
  /-- The flags tell the backend and what it is built from. -/
  backends : ∀ (k : ℕ) c, calls[k]? = some (.select c) → (results calls)[k]? =
    some (.client (if flags.enableBeaconRestApi then .rest c.url c.timeout else .rpc c.channel))
  ofInit : ∀ k given, Leads calls k given → flags = given
  ofDefault : (¬ ∃ k given, Leads calls k given) → flags = Flags.default
  inits : ∀ (k : ℕ) given, calls[k]? = some (.init given) →
    (results calls)[k]? = some (.init (if k = 0 then .ok () else .error given))
  /-- A later initialisation leaves the pinned flags and all other results as they are. -/
  refused : ∀ before given behind, calls = before ++ .init given :: behind → before ≠ [] →
    after (before ++ [.init given]) = after before ∧
      ∃ rest, results calls = results before ++ .init (.error given) :: rest ∧
        results (before ++ behind) = results before ++ rest

theorem chosen_of_leads {calls : List (Call κ)} {k : ℕ} {given : Flags}
    (h : Leads calls k given) : chosen calls = given := by
  obtain ⟨-, hhead⟩ := leads_iff.1 h
  cases calls with
  | nil => cases hhead
  | cons c cs =>
    cases hhead
    rfl

theorem chosen_of_not_leads {calls : List (Call κ)} (h : ¬ ∃ k given, Leads calls k given) :
    chosen calls = Flags.default := by
  cases calls with
  | nil => rfl
  | cons c cs =>
    cases c with
    | init given => exact absurd ⟨0, given, leads_iff.2 ⟨rfl, rfl⟩⟩ h
    | get => rfl
    | select c => rfl

/-- The backend that flags select. -/
theorem select_fst (flags : Flags) (c : Connection κ) : (Client.select flags c).1 =
    if flags.enableBeaconRestApi then .rest c.url c.timeout else .rpc c.channel := by
  rw [Client.select]
  split_ifs <;> rfl

/-- A later initialisation might as well not have been there. -/
theorem run_refused {before : List (Call κ)} (h : before ≠ []) (given : Flags)
    (behind : List (Call κ)) : run empty (before ++ .init given :: behind) =
      (results before ++ .init (.error given) :: behind.map (answer (chosen before)),
        after before) := by
  have hafter := after_of_ne_nil h
  rw [run_append]
  change ((results before ++ (run (after before) _).1), (run (after before) _).2) = _
  rw [hafter, run_some]
  rfl

/-- **The flags of a process are pinned once.** Whatever calls are made in whatever order, all of
them are answered by the same flags: those of the first initialisation if it precedes every use, and
the defaults otherwise. An initialisation succeeds exactly if it is the first call of all; any other
one gives back its own flags and changes nothing. -/
theorem run_pins_once (calls : List (Call κ)) : ∃ flags, PinnedBy calls flags := by
  refine ⟨chosen calls, ?gets, ?selects, ?backends, ?ofInit, ?ofDefault, ?inits, ?refused⟩
  case gets => exact fun k hk => results_of_use hk rfl
  case selects => exact fun k c hk => results_of_use hk rfl
  case backends =>
    intro k c hk
    rw [results_of_use hk rfl, answer, select_fst]
  case ofInit => exact fun k given h => chosen_of_leads h
  case ofDefault => exact chosen_of_not_leads
  case inits =>
    intro k given hk
    rw [results_getElem?, hk]
    cases k <;> rfl
  case refused =>
    rintro before given behind rfl hbefore
    have hafter := after_of_ne_nil hbefore
    refine ⟨?_, behind.map (answer (chosen before)), ?_, ?_⟩
    · rw [after, run_refused hbefore]
    · rw [results, run_refused hbefore]
    · rw [results, run_append]
      change results before ++ (run (after before) behind).1 = _
      rw [hafter, run_some]

/-- Where the first call pins the REST flag, a REST client is selected. -/
example (c : Connection κ) :
    results [.init ⟨true⟩, .select c, .init ⟨false⟩, .get] =
      [.init (.ok ()), .client (.rest c.url c.timeout), .init (.error ⟨false⟩), .flags ⟨true⟩] :=
  rfl

/-- A use in front of all initialisations pins the defaults. -/
example (c : Connection κ) :
    results [.get, .init ⟨true⟩, .select c] =
      [.flags ⟨false⟩, .init (.error ⟨true⟩), .client (.rpc c.channel)] := rfl

end BeaconReplay.Pin
