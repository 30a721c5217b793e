import BeaconReplay.Http.Exchange
import BeaconReplay.Proofs.Result

/-!
# Requests that are redirected

A request that arrives takes one answer of the server, and an answer that redirects has another
request sent, until one does not or too many have. So all requests but the first are asked for by
the answers themselves, and a server whose answers do not redirect sees one request at most.
-/
namespace BeaconReplay.Http

/-- What comes of a request that meets an answer of the server, or none. -/
def outcome : Option Answer → Except Fault Response
  | none => .error .connect
  | some (.respond response) => .ok response
  | some .close => .error .request
  | some .hang => .error .timeout

namespace Server

variable {s : Server} {r : Request} {limit : ℕ}

theorem send_of_origin (h : r.origin = s.origin) : s.send r =
    (outcome s.answers.head?, s.answers.head?.isSome, ⟨s.origin, s.answers.tail⟩) := by
  obtain ⟨origin, answers⟩ := s
  rw [send, if_neg (not_not.2 h)]
  cases answers with
  | nil => rfl
  | cons answer rest => cases answer <;> rfl

theorem get_of_other_origin (h : r.origin ≠ s.origin) (limit : ℕ) :
    s.get limit r = (.error .connect, [], s) := by
  rw [get.eq_def, send, if_pos h]
  rfl

/-- What arrives of one request. -/
def arrived (s : Server) (r : Request) : List Request := if (s.send r).2.1 then [r] else []

theorem length_arrived_le (s : Server) (r : Request) : (s.arrived r).length ≤ 1 := by
  rw [arrived]
  split <;> simp

theorem arrived_succ (s : Server) (r : Request) (k : ℕ) : (s.arrived r)[k + 1]? = none :=
  List.getElem?_eq_none ((s.length_arrived_le r).trans (Nat.le_add_left 1 k))

/-- A request is the last one, or its answer redirects and the next one is sent. -/
theorem get_cases (limit : ℕ) (s : Server) (r : Request) :
    (s.get limit r).2 = (s.arrived r, (s.send r).2.2) ∨
      ∃ n response url next rest, limit = n + 1 ∧ s.answers = .respond response :: rest ∧
        response.redirect? = some url ∧ Request.ofUrl? url = some next ∧
          (s.get limit r).2 = (r :: (get n ⟨s.origin, rest⟩ next).2.1,
            (get n ⟨s.origin, rest⟩ next).2.2) := by
  rw [arrived]
  by_cases h : r.origin = s.origin
  · rw [get.eq_def, send_of_origin h]
    obtain ⟨origin, answers⟩ := s
    cases answers with
    | nil => exact .inl rfl
    | cons answer rest =>
      cases answer with
      | respond response =>
        cases hredirect : response.redirect? with
        | none =>
          left
          simp [outcome, hredirect]
        | some url =>
          cases limit with
          | zero =>
            left
            simp [outcome, hredirect]
          | succ n =>
            cases hnext : Request.ofUrl? url with
            | none =>
              left
              simp [outcome, hredirect, hnext]
            | some next =>
              right
              refine ⟨n, response, url, next, rest, rfl, rfl, hredirect, hnext, ?_⟩
              simp [outcome, hredirect, hnext]
      | close => exact .inl rfl
      | hang => exact .inl rfl
  · left
    rw [get_of_other_origin h, send, if_pos h]
    rfl

/-- Induction on the redirections that are followed. -/
@[elab_as_elim]
theorem get_induction {motive : ℕ → Server → Request → Prop}
    (last : ∀ limit s r, (s.get limit r).2 = (s.arrived r, (s.send r).2.2) → motive limit s r)
    (more : ∀ n s r response url next rest, s.answers = .respond response :: rest →
      response.redirect? = some url → Request.ofUrl? url = some next →
        (s.get (n + 1) r).2 = (r :: (get n ⟨s.origin, rest⟩ next).2.1,
          (get n ⟨s.origin, rest⟩ next).2.2) →
            motive n ⟨s.origin, rest⟩ next → motive (n + 1) s r)
    (limit : ℕ) (s : Server) (r : Request) : motive limit s r := by
  induction limit generalizing s r with
  | zero =>
    obtain hlast | ⟨n, -, -, -, -, hlimit, -⟩ := get_cases 0 s r
    · exact last 0 s r hlast
    · cases hlimit
  | succ limit ih =>
    obtain hlast | ⟨n, response, url, next, rest, hlimit, hanswers, hredirect, hnext, hmore⟩ :=
      get_cases (limit + 1) s r
    · exact last _ s r hlast
    · cases hlimit
      exact more limit s r response url next rest hanswers hredirect hnext hmore (ih _ next)

/-- A server behind a number of answers. -/
def after (s : Server) (n : ℕ) : Server := ⟨s.origin, s.answers.drop n⟩

@[simp] theorem after_origin (s : Server) (n : ℕ) : (s.after n).origin = s.origin := rfl

@[simp] theorem after_answers (s : Server) (n : ℕ) : (s.after n).answers = s.answers.drop n := rfl

@[simp] theorem after_zero (s : Server) : s.after 0 = s := rfl

@[simp] theorem after_after (s : Server) (m n : ℕ) : (s.after m).after n = s.after (m + n) := by
  simp [after, List.drop_drop]

theorem send_server (s : Server) (r : Request) :
    (s.send r).2.2 = s.after (s.arrived r).length := by
  rw [arrived]
  obtain ⟨origin, answers⟩ := s
  by_cases h : r.origin = origin
  · rw [send_of_origin h]
    cases answers <;> rfl
  · rw [send, if_pos h]
    rfl

/-- **A request that arrives takes one answer.** -/
theorem get_server (limit : ℕ) (s : Server) (r : Request) :
    (s.get limit r).2.2 = s.after (s.get limit r).2.1.length := by
  induction limit, s, r using get_induction with
  | last limit s r hlast => rw [hlast, send_server]
  | more n s r response url next rest hanswers _ _ hmore ih =>
    rw [hmore, ih, after, after, hanswers]
    rfl

/-- The requests behind the first one are as many as redirections are followed. -/
theorem length_get_le (limit : ℕ) (s : Server) (r : Request) :
    (s.get limit r).2.1.length ≤ limit + 1 := by
  induction limit, s, r using get_induction with
  | last limit s r hlast =>
    rw [hlast]
    exact (s.length_arrived_le r).trans (Nat.le_add_left 1 limit)
  | more n s r response url next rest _ _ _ hmore ih =>
    rw [hmore]
    exact Nat.succ_le_succ ih

/-- The first request is the one that is made. -/
theorem get_first (limit : ℕ) (s : Server) (r : Request) :
    ∀ first ∈ (s.get limit r).2.1.head?, first = r := by
  obtain hlast | ⟨n, response, url, next, rest, -, -, -, -, hmore⟩ := get_cases limit s r
  · rw [hlast, arrived]
    split <;> simp
  · rw [hmore]
    simp

/-- **Every further request is asked for by the answer to the one before.** -/
theorem get_next {limit : ℕ} {s : Server} {r : Request} {k : ℕ} {later : Request}
    (h : (s.get limit r).2.1[k + 1]? = some later) :
    ∃ response url, s.answers[k]? = some (.respond response) ∧ response.redirect? = some url ∧
      Request.ofUrl? url = some later := by
  induction limit, s, r using get_induction generalizing k with
  | last limit s r hlast =>
    rw [hlast, arrived_succ] at h
    cases h
  | more n s r response url next rest hanswers hredirect hnext hmore ih =>
    rw [hmore, List.getElem?_cons_succ] at h
    rw [hanswers]
    cases k with
    | zero =>
      rw [← List.head?_eq_getElem?] at h
      have hlater := get_first n ⟨s.origin, rest⟩ next later h
      exact ⟨response, url, rfl, hredirect, hlater ▸ hnext⟩
    | succ k => exact ih h

/-- An answer that points to another place has that place asked. -/
example :
    let there : Url := ⟨"http", some (.domain "node"), some 80, "/there", none⟩
    let s : Server :=
      ⟨⟨"http", .domain "node", 80⟩, [.respond ⟨302, [], none, none, some there⟩, .close]⟩
    (s.get 10 ⟨s.origin, "/here"⟩).2.1 = [⟨s.origin, "/here"⟩, ⟨s.origin, "/there"⟩] := by
  decide +kernel

/-- Whether two servers at one place do the same with a number of requests to come. -/
def Alike (n : ℕ) (s t : Server) : Prop :=
  s.origin = t.origin ∧ s.answers.take n = t.answers.take n

theorem Alike.send {n : ℕ} {s t s' : Server} {answer : Except Fault Response} {seen : Bool}
    (h : Alike (n + 1) s t) (hsend : s.send r = (answer, seen, s')) :
    ∃ t', t.send r = (answer, seen, t') ∧ Alike n s' t' := by
  obtain ⟨origin, answers⟩ := s
  obtain ⟨_, others⟩ := t
  obtain ⟨rfl, htake⟩ := h
  dsimp only at htake
  by_cases horigin : r.origin = origin
  · rw [send_of_origin horigin] at hsend ⊢
    have hhead : others.head? = answers.head? := by
      simpa [List.head?_take] using congrArg List.head? htake.symm
    have htail : answers.tail.take n = others.tail.take n := by
      cases answers <;> cases others <;> simp_all
    cases hsend
    rw [hhead]
    exact ⟨_, rfl, rfl, htail⟩
  · rw [Server.send, if_pos horigin] at hsend ⊢
    cases hsend
    refine ⟨_, rfl, rfl, ?_⟩
    have hless := congrArg (List.take n) htake
    simpa [List.take_take] using hless

/-- **A request is told by the answers that it may take.** -/
theorem get_congr {t : Server} (h : Alike (limit + 1) s t) :
    (t.get limit r).1 = (s.get limit r).1 ∧ (t.get limit r).2.1 = (s.get limit r).2.1 := by
  induction limit, s, r using get.induct generalizing t with
  | case1 limit s r seen s' fault hsend =>
    obtain ⟨t', ht, -⟩ := h.send hsend
    simp [get.eq_def limit, ht, hsend]
  | case2 limit s r seen s' response hnone hsend =>
    obtain ⟨t', ht, -⟩ := h.send hsend
    simp [get.eq_def limit, ht, hsend, hnone]
  | case3 s r seen s' response url hurl hsend =>
    obtain ⟨t', ht, -⟩ := h.send hsend
    simp [get.eq_def 0, ht, hsend, hurl]
  | case4 s r seen s' response url limit hurl hnext hsend =>
    obtain ⟨t', ht, -⟩ := h.send hsend
    simp [get.eq_def (limit + 1), ht, hsend, hurl, hnext]
  | case5 s r seen s' response url limit hurl next hnext answer more last hget hsend ih =>
    obtain ⟨t', ht, halike⟩ := h.send hsend
    have hmore := ih halike
    simp [get.eq_def (limit + 1), ht, hsend, hurl, hnext, hmore]

/-! ## Servers that do not redirect -/

/-- No answer of a server redirects. -/
def Direct (s : Server) : Prop :=
  ∀ response, .respond response ∈ s.answers → response.redirect? = none

theorem Direct.after (h : s.Direct) (n : ℕ) : (s.after n).Direct :=
  fun response hmem => h response (List.mem_of_mem_drop hmem)

/-- A request is told by the next answer if that one does not redirect. -/
theorem get_of_final (h : r.origin = s.origin)
    (hfinal : ∀ response, s.answers.head? = some (.respond response) → response.redirect? = none)
    (limit : ℕ) : s.get limit r =
      (outcome s.answers.head?, (s.answers.head?.map fun _ => r).toList,
        ⟨s.origin, s.answers.tail⟩) := by
  rw [get.eq_def, send_of_origin h]
  obtain ⟨origin, answers⟩ := s
  cases answers with
  | nil => rfl
  | cons answer rest =>
    cases answer with
    | respond response =>
      have hnone : response.redirect? = none := hfinal response rfl
      simp [outcome, hnone]
    | close => rfl
    | hang => rfl

/-- **A request to a server that does not redirect is told by the next answer.** -/
theorem get_of_direct (hs : s.Direct) (h : r.origin = s.origin) (limit : ℕ) : s.get limit r =
    (outcome s.answers.head?, (s.answers.head?.map fun _ => r).toList,
      ⟨s.origin, s.answers.tail⟩) :=
  get_of_final h (fun response hhead => hs response (List.mem_of_mem_head? hhead)) limit

end Server

end BeaconReplay.Http
