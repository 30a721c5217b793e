import BeaconReplay.Client.Selection
import BeaconReplay.Http.Builtin
import BeaconReplay.Proofs.Client.Origins
import BeaconReplay.Proofs.Wire.Messages

/-!
# The selected backend alone

A run of duties is a list of exchanges with the side that the flags select, one for each duty. Over
RPC every duty takes one answer of the channel, and its exchange is told by the duty and that
answer. Over REST a duty takes an answer for each request that arrives. Where no answer redirects,
either all duties of a base reach the server and take one answer each, or none does, and the
exchange is told by the duty, the base and the answer at its place. Where answers redirect, a duty
also takes those that it is redirected to, and is told by the answers that are left for it.
-/
namespace BeaconReplay

/-- What holds of each entry and its image holds of a list and its images. -/
theorem forall₂_mapIdx {α β : Type} {R : α → β → Prop} {f : ℕ → α → β} (h : ∀ k a, R a (f k a))
    (l : List α) : List.Forall₂ R l (l.mapIdx f) :=
  List.forall₂_iff_get.2 ⟨by simp, fun k _ _ => by simpa using h k _⟩

/-- How many calls or requests have been sent in exchanges. -/
def sentIn (es : List Exchange) : ℕ := (es.flatMap Exchange.sent).length

theorem sentIn_cons (e : Exchange) (es : List Exchange) :
    sentIn (e :: es) = e.sent.length + sentIn es := by
  simp [sentIn]

/-! ## Over RPC -/

namespace Rpc

/-- What a duty makes of an answer of the channel, or of none. -/
def replyTo (d : Duty) : Option (Except ClientError (List UInt8)) → Except ClientError Reply
  | none => .error (.rpc (method d ++ ": unavailable"))
  | some (.ok bs) => Reply.ofMessage d bs
  | some (.error e) => .error e

/-- The exchange of a duty with a channel that gives an answer or none. -/
def exchange (d : Duty) (answer : Option (Except ClientError (List UInt8))) : Exchange :=
  ⟨replyTo d answer, [.unary (method d) (request d)]⟩

theorem call_eq (d : Duty) (c : Channel) : call d c = (exchange d c.head?, c.tail) := by
  cases c with
  | nil => rfl
  | cons answer rest => cases answer <;> rfl

/-- One exchange for each duty, with the answer at its place. -/
def exchanges (ds : List Duty) (answers : Channel) : List Exchange :=
  ds.mapIdx fun k d => exchange d answers[k]?

theorem exchanges_cons (d : Duty) (ds : List Duty) (answers : Channel) :
    exchanges (d :: ds) answers = exchange d answers.head? :: exchanges ds answers.tail := by
  simp [exchanges, List.mapIdx_cons, List.head?_eq_getElem?, List.getElem?_tail]

/-- The duty that a unary call asks for. -/
def asked? (name : String) (bytes : List UInt8) : Option Duty :=
  if name = method (.proposerDuties 0) then
    (Wire.ProposerDutiesRequest.decode bytes).toOption.map fun r => .proposerDuties r.epoch
  else
    (Wire.Empty.decode bytes).toOption.bind fun _ =>
      [.genesis, .nodeVersion, .syncing].find? fun d => method d = name

/-- **A duty is read back from the call that asks for it.** -/
theorem asked?_request (d : Duty) : asked? (method d) (request d) = some d := by
  cases d with
  | proposerDuties epoch =>
    have hmethod : method (.proposerDuties epoch) = method (.proposerDuties 0) := rfl
    have hepoch := Wire.ProposerDutiesRequest.decode_encode ⟨epoch⟩
    rw [asked?, if_pos hmethod, request, hepoch]
    rfl
  | genesis => decide +kernel
  | nodeVersion => decide +kernel
  | syncing => decide +kernel

/-- Only the request for the duties of the first epoch has a message and no bytes. -/
theorem request_eq_nil_iff (d : Duty) :
    request d = [] ↔ ∀ epoch, d = .proposerDuties epoch → epoch = 0 := by
  cases d with
  | proposerDuties epoch =>
    rw [request, Wire.ProposerDutiesRequest.encode_eq_nil_iff]
    simp
  | genesis => exact iff_of_true rfl (by simp)
  | nodeVersion => exact iff_of_true rfl (by simp)
  | syncing => exact iff_of_true rfl (by simp)

/-- What a channel sees of a duty: one call, which is of its method and whose request says what the
duty is. The request has no bytes if there is no epoch in it or the first one. -/
def Asks (d : Duty) (e : Exchange) : Prop :=
  ∃ bytes, e.sent = [.unary (method d) bytes] ∧ asked? (method d) bytes = some d ∧
    (bytes = [] ↔ ∀ epoch, d = .proposerDuties epoch → epoch = 0)

theorem asks_exchange (d : Duty) (answer : Option (Except ClientError (List UInt8))) :
    Asks d (exchange d answer) :=
  ⟨request d, rfl, asked?_request d, request_eq_nil_iff d⟩

end Rpc

section

variable [Tables]

/-- Over RPC every duty takes one answer of the channel. -/
theorem Client.calls_rpc {κ : Type} (handle : κ) (ds : List Duty) (p : Peers) :
    (Client.rpc handle).calls ds p =
      (Rpc.exchanges ds p.channel, { p with channel := p.channel.drop ds.length }) := by
  induction ds generalizing p with
  | nil => rfl
  | cons d ds ih =>
    rw [calls, call, Rpc.call_eq]
    dsimp only
    rw [ih, Rpc.exchanges_cons, List.drop_tail, List.length_cons]

/-! ## Over REST -/

namespace Rest

variable {base : String} {origin : Http.Origin} {s : Http.Server}

/-- What a server sees of a duty: nothing, or its request, and behind it those that redirections
ask for. -/
structure Asks (base : String) (d : Duty) (e : Exchange) : Prop where
  first : ∀ sent ∈ e.sent.head?, ∃ r, sent = .get r ∧ request base d = .ok r
  gets : ∀ sent ∈ e.sent, ∃ r, sent = .get r
  bounded : e.sent.length ≤ Http.Server.redirectLimit + 1

theorem asks_call (base : String) (d : Duty) (s : Http.Server) :
    Asks base d (call base d s).1 := by
  refine ⟨fun sent hsent => request_of_sent hsent, fun sent hsent => ?_, ?_⟩
  · cases hrequest : request base d with
    | error e => simp [call_of_request_error hrequest] at hsent
    | ok r =>
      rw [call_of_request hrequest] at hsent
      obtain ⟨r, -, rfl⟩ := List.mem_map.1 hsent
      exact ⟨r, rfl⟩
  · cases hrequest : request base d with
    | error e => simp [call_of_request_error hrequest]
    | ok r =>
      rw [call_of_request hrequest, List.length_map]
      exact Http.Server.length_get_le ..

/-- Every request that arrives takes one answer. -/
theorem call_server (base : String) (d : Duty) (s : Http.Server) :
    (call base d s).2 = s.after (call base d s).1.sent.length := by
  cases hrequest : request base d with
  | error e => rw [call_of_request_error hrequest]; rfl
  | ok r =>
    rw [call_of_request hrequest, List.length_map]
    exact Http.Server.get_server ..

/-- A duty is told by the answers that it may take. -/
theorem call_congr {t : Http.Server} (h : Http.Server.Alike (Http.Server.redirectLimit + 1) s t)
    (base : String) (d : Duty) : (call base d t).1 = (call base d s).1 := by
  cases hrequest : request base d with
  | error e => rw [call_of_request_error hrequest, call_of_request_error hrequest]
  | ok r =>
    obtain ⟨hanswer, hsent⟩ := Http.Server.get_congr (r := r) h
    rw [call_of_request hrequest, call_of_request hrequest, hanswer, hsent]

/-- Every further request is asked for by the answer to the one before. -/
theorem call_next {d : Duty} {j : ℕ} {later : Sent}
    (h : (call base d s).1.sent[j + 1]? = some later) :
    ∃ response url r, s.answers[j]? = some (.respond response) ∧ response.redirect? = some url ∧
      Http.Request.ofUrl? url = some r ∧ later = .get r := by
  cases hrequest : request base d with
  | error e =>
    rw [call_of_request_error hrequest] at h
    cases h
  | ok first =>
    rw [call_of_request hrequest, List.getElem?_map, Option.map_eq_some_iff] at h
    obtain ⟨r, hr, rfl⟩ := h
    obtain ⟨response, url, hanswer, hredirect, hnext⟩ := Http.Server.get_next hr
    exact ⟨response, url, r, hanswer, hredirect, hnext, rfl⟩

/-- What a duty makes of what its request comes to, where one can be made. -/
def settle (base : String) (d : Duty)
    (outcome : Http.Request → Except Http.Fault Http.Response) : Except ClientError Reply :=
  match request base d with
  | .error e => .error e
  | .ok r => replyOf d (outcome r)

/-- A duty is told by what its request comes to, behind redirections if there are any. -/
theorem call_reply (base : String) (d : Duty) (s : Http.Server) : (call base d s).1.reply =
    settle base d fun r => (s.get Http.Server.redirectLimit r).1 := by
  cases hrequest : request base d with
  | error e => rw [call_of_request_error hrequest, settle, hrequest]
  | ok r => rw [call_of_request hrequest, settle, hrequest]

/-! ### Servers that do not redirect -/

/-- What a duty makes of an answer of a server, or of none. -/
def replyTo (base : String) (origin : Http.Origin) (d : Duty) (answer : Option Http.Answer) :
    Except ClientError Reply :=
  settle base d fun r => if r.origin = origin then Http.outcome answer else .error .connect

/-- The exchange of a duty with a server that gives an answer or none. -/
def exchange (base : String) (origin : Http.Origin) (d : Duty) (answer : Option Http.Answer) :
    Exchange where
  reply := replyTo base origin d answer
  sent := match request base d with
    | .error _ => []
    | .ok r => if r.origin = origin then (answer.map fun _ => Sent.get r).toList else []

/-- One exchange for each duty, with the answer at its place. -/
def exchanges (base : String) (origin : Http.Origin) (ds : List Duty) (answers : List Http.Answer) :
    List Exchange :=
  ds.mapIdx fun k d => exchange base origin d answers[k]?

theorem exchange_of_origin {d : Duty} {r : Http.Request} (hrequest : request base d = .ok r)
    (h : r.origin = origin) (answer : Option Http.Answer) : exchange base origin d answer =
      ⟨replyOf d (Http.outcome answer), (answer.map fun _ => Sent.get r).toList⟩ := by
  simp [exchange, replyTo, settle, hrequest, h]

/-- Where the duties do not reach a server, its answers do not count. -/
theorem exchange_of_other_origin {d : Duty} {r : Http.Request} (hrequest : request base d = .ok r)
    (h : r.origin ≠ origin) (answer : Option Http.Answer) :
    exchange base origin d answer = ⟨.error (.http .connect), []⟩ := by
  simp [exchange, replyTo, settle, replyOf, hrequest, h]

theorem exchange_of_error {d : Duty} {e : ClientError} (hrequest : request base d = .error e)
    (answer : Option Http.Answer) : exchange base origin d answer = ⟨.error e, []⟩ := by
  simp [exchange, replyTo, settle, hrequest]

theorem exchange_reply (base : String) (origin : Http.Origin) (d : Duty)
    (answer : Option Http.Answer) :
    (exchange base origin d answer).reply = replyTo base origin d answer := by
  rw [exchange]

/-- The next answer tells the exchange. -/
theorem call_of_direct (hs : s.Direct) (base : String) (d : Duty) :
    (call base d s).1 = exchange base s.origin d s.answers.head? := by
  cases hrequest : request base d with
  | error e => rw [call_of_request_error hrequest, exchange_of_error hrequest]
  | ok r =>
    rw [call_of_request hrequest]
    by_cases horigin : r.origin = s.origin
    · rw [Http.Server.get_of_direct hs horigin, exchange_of_origin hrequest horigin]
      cases s.answers.head? <;> rfl
    · rw [Http.Server.get_of_other_origin horigin, exchange_of_other_origin hrequest horigin]
      rfl

/-- All duties of a base go to one origin. -/
theorem origin_of_request {d : Duty} {r : Http.Request} (h : request base d = .ok r)
    (d' : Duty) : ∃ text, request base d' = .ok ⟨r.origin, text⟩ := by
  cases htarget : target base with
  | error fault =>
    rw [request_of_target_error htarget] at h
    cases h
  | ok there =>
    obtain ⟨text, hrequest⟩ := request_of_target htarget d
    obtain ⟨text', hrequest'⟩ := request_of_target htarget d'
    rw [h] at hrequest
    cases horigin : there.origin? with
    | none =>
      rw [horigin] at hrequest
      cases hrequest
    | some origin =>
      rw [horigin] at hrequest hrequest'
      cases hrequest
      exact ⟨text', hrequest'⟩

/-- A duty leaves to the ones behind it the answers at their places, as far as they count. -/
theorem exchange_after (hs : s.Direct) (base : String) (d d' : Duty) (k : ℕ) :
    exchange base s.origin d' (call base d s).2.answers[k]? =
      exchange base s.origin d' s.answers[k + 1]? := by
  cases hrequest : request base d' with
  | error e => rw [exchange_of_error hrequest, exchange_of_error hrequest]
  | ok r =>
    by_cases horigin : r.origin = s.origin
    · obtain ⟨text, hthere⟩ := origin_of_request hrequest d
      have hget := Http.Server.get_of_direct (r := ⟨r.origin, text⟩) hs horigin
        Http.Server.redirectLimit
      rw [call_of_request hthere, hget, List.getElem?_tail]
    · rw [exchange_of_other_origin hrequest horigin, exchange_of_other_origin hrequest horigin]

theorem exchanges_cons (hs : s.Direct) (base : String) (d : Duty) (ds : List Duty) :
    exchanges base s.origin (d :: ds) s.answers =
      (call base d s).1 :: exchanges base s.origin ds (call base d s).2.answers := by
  rw [exchanges, List.mapIdx_cons, ← List.head?_eq_getElem?, ← call_of_direct hs, exchanges]
  simp only [exchange_after hs]

end Rest

-- the redirections of a single duty are not unfolded where duties are put together
attribute [local irreducible] Rest.call

namespace Client

variable {κ : Type} (base : String) (timeout : ℕ)

theorem call_rest (d : Duty) (p : Peers) : (Client.rest base timeout : Client κ).call d p =
    ((Rest.call base d p.server).1, { p with server := (Rest.call base d p.server).2 }) := by
  simp only [call]

theorem calls_rest_cons (d : Duty) (ds : List Duty) (p : Peers) :
    ((Client.rest base timeout : Client κ).calls (d :: ds) p).1 =
      (Rest.call base d p.server).1 :: ((Client.rest base timeout : Client κ).calls ds
        { p with server := (Rest.call base d p.server).2 }).1 := by
  simp only [calls, call_rest]

/-- Over REST the server alone is asked, and every request that arrives takes one answer. -/
theorem calls_rest_peers (ds : List Duty) (p : Peers) :
    ((Client.rest base timeout : Client κ).calls ds p).2 =
      ⟨p.channel,
        p.server.after (sentIn ((Client.rest base timeout : Client κ).calls ds p).1)⟩ := by
  induction ds generalizing p with
  | nil => rfl
  | cons d ds ih =>
    simp only [calls, call_rest]
    rw [ih, Rest.call_server, sentIn_cons, Http.Server.after_after]

/-- Over REST the channel does not count. -/
theorem calls_rest_congr (ds : List Duty) {p p' : Peers} (h : p.server = p'.server) :
    ((Client.rest base timeout : Client κ).calls ds p).1 =
      ((Client.rest base timeout : Client κ).calls ds p').1 := by
  induction ds generalizing p p' with
  | nil => rfl
  | cons d ds ih =>
    rw [calls_rest_cons, calls_rest_cons, h]
    exact congrArg _ (ih rfl)

theorem calls_rest_asks (ds : List Duty) (p : Peers) :
    List.Forall₂ (Rest.Asks base) ds ((Client.rest base timeout : Client κ).calls ds p).1 := by
  induction ds generalizing p with
  | nil => exact .nil
  | cons d ds ih =>
    rw [calls_rest_cons]
    exact .cons (Rest.asks_call base d p.server) (ih _)

/-- There is no exchange without a duty. -/
theorem calls_rest_at_none {ds : List Duty} {k : ℕ} (hd : ds[k]? = none) (p : Peers) :
    ((Client.rest base timeout : Client κ).calls ds p).1[k]? = none := by
  have hlength := (calls_rest_asks (κ := κ) base timeout ds p).length_eq
  rwa [List.getElem?_eq_none_iff, hlength, ← List.getElem?_eq_none_iff] at hd

/-- Each duty is a call to the server with the answers that are left for it. -/
theorem calls_rest_at {ds : List Duty} {k : ℕ} {d : Duty} (hd : ds[k]? = some d) (p : Peers) :
    ((Client.rest base timeout : Client κ).calls ds p).1[k]? =
      some (Rest.call base d (p.server.after
        (sentIn (((Client.rest base timeout : Client κ).calls ds p).1.take k)))).1 := by
  induction ds generalizing p k with
  | nil => cases hd
  | cons d' ds ih =>
    rw [calls_rest_cons]
    cases k with
    | zero =>
      cases hd
      rfl
    | succ k =>
      rw [List.getElem?_cons_succ, ih hd, List.take_succ_cons, sentIn_cons,
        ← Http.Server.after_after, ← Rest.call_server]

/-- Each exchange is the one of a duty. -/
theorem exists_of_calls_rest {ds : List Duty} {p : Peers} {k : ℕ} {e : Exchange}
    (he : ((Client.rest base timeout : Client κ).calls ds p).1[k]? = some e) :
    ∃ d, (Rest.call base d (p.server.after
      (sentIn (((Client.rest base timeout : Client κ).calls ds p).1.take k)))).1 = e := by
  cases hd : ds[k]? with
  | none =>
    rw [calls_rest_at_none _ _ hd] at he
    cases he
  | some d =>
    rw [calls_rest_at _ _ hd] at he
    exact ⟨d, Option.some.inj he⟩

/-- Over REST a server that does not redirect gives each duty the answer at its place. -/
theorem calls_rest_of_direct (ds : List Duty) {p : Peers} (hs : p.server.Direct) :
    ((Client.rest base timeout : Client κ).calls ds p).1 =
      Rest.exchanges base p.server.origin ds p.server.answers := by
  induction ds generalizing p with
  | nil => rfl
  | cons d ds ih =>
    have hafter : (Rest.call base d p.server).2.Direct := by
      rw [Rest.call_server]
      exact hs.after _
    have horigin : (Rest.call base d p.server).2.origin = p.server.origin := by
      rw [Rest.call_server]
      rfl
    rw [calls_rest_cons, ih hafter, Rest.exchanges_cons hs, horigin]

end Client

/-! ## What the flags select -/

namespace Client

variable {κ : Type}

/-- A run over RPC: the channel alone is read and asked, once for each duty, and what a duty comes
to is told by the duty and the answer at its place. -/
structure OnlyRpc (flags : Flags) (c : Connection κ) (ds : List Duty) (p : Peers) : Prop where
  reads : (select flags c).2 = [.channel]
  asks : List.Forall₂ Rpc.Asks ds ((select flags c).1.calls ds p).1
  leaves : ((select flags c).1.calls ds p).2 = { p with channel := p.channel.drop ds.length }
  answers : ∀ k : ℕ, (((select flags c).1.calls ds p).1[k]?).map Exchange.reply =
    ds[k]?.map fun d => Rpc.replyTo d p.channel[k]?
  ignores : ∀ (url : String) (timeout : ℕ) (server : Http.Server),
    ((select flags { c with url := url, timeout := timeout }).1.calls ds
        { p with server := server }).1 = ((select flags c).1.calls ds p).1
  forgets : ∀ (c' : Connection κ) (ds' : List Duty) (p' : Peers) (k : ℕ),
    ds[k]? = ds'[k]? → p.channel[k]? = p'.channel[k]? →
      ((select flags c).1.calls ds p).1[k]? = ((select flags c').1.calls ds' p').1[k]?

/-- A run over REST: the URL and the timeout alone are read, and the server alone is asked. Every
duty has its own request sent or none, and another one only where an answer redirects to it. What a
duty comes to is told by the duty, the URL and what its request comes to, which in turn is told by
the answers that are left for it, and where no answer redirects, by the answer at its place. -/
structure OnlyRest (flags : Flags) (c : Connection κ) (ds : List Duty) (p : Peers) : Prop where
  reads : (select flags c).2 = [.url, .timeout]
  asks : List.Forall₂ (Rest.Asks c.url) ds ((select flags c).1.calls ds p).1
  once : p.server.Direct → ∀ e ∈ ((select flags c).1.calls ds p).1, e.sent.length ≤ 1
  follows : ∀ (k j : ℕ) e later, ((select flags c).1.calls ds p).1[k]? = some e →
    e.sent[j + 1]? = some later → ∃ response url r,
      p.server.answers[sentIn (((select flags c).1.calls ds p).1.take k) + j]? =
          some (.respond response) ∧
        response.redirect? = some url ∧ Http.Request.ofUrl? url = some r ∧ later = .get r
  leaves : ((select flags c).1.calls ds p).2 =
    { p with server := p.server.after (sentIn ((select flags c).1.calls ds p).1) }
  told : ∀ k : ℕ, (((select flags c).1.calls ds p).1[k]?).map Exchange.reply =
    ds[k]?.map fun d => Rest.settle c.url d fun r =>
      ((p.server.after (sentIn (((select flags c).1.calls ds p).1.take k))).get
        Http.Server.redirectLimit r).1
  answers : p.server.Direct → ∀ k : ℕ,
    (((select flags c).1.calls ds p).1[k]?).map Exchange.reply =
      ds[k]?.map fun d => Rest.replyTo c.url p.server.origin d p.server.answers[k]?
  ignores : ∀ (channel : κ) (answers : Rpc.Channel),
    ((select flags { c with channel := channel }).1.calls ds { p with channel := answers }).1 =
      ((select flags c).1.calls ds p).1
  alone : ∀ (k : ℕ) d, ds[k]? = some d → ∀ s : Http.Server,
    Http.Server.Alike (Http.Server.redirectLimit + 1)
        (p.server.after (sentIn (((select flags c).1.calls ds p).1.take k))) s →
      ((select flags c).1.calls ds p).1[k]? = some (Rest.call c.url d s).1
  forgets : ∀ (c' : Connection κ) (ds' : List Duty) (p' : Peers) (k : ℕ),
    p.server.Direct → p'.server.Direct → c.url = c'.url → c.timeout = c'.timeout →
      p.server.origin = p'.server.origin →
        ds[k]? = ds'[k]? → p.server.answers[k]? = p'.server.answers[k]? →
          ((select flags c).1.calls ds p).1[k]? = ((select flags c').1.calls ds' p').1[k]?

theorem onlyRest_of_enabled {flags : Flags} (hrest : flags.enableBeaconRestApi = true)
    (c : Connection κ) (ds : List Duty) (p : Peers) : OnlyRest flags c ds p := by
  have hselect : ∀ c : Connection κ, select flags c = (.rest c.url c.timeout, [.url, .timeout]) :=
    fun c => if_pos hrest
  refine ⟨?reads, ?asks, ?once, ?follows, ?leaves, ?told, ?answers, ?ignores, ?alone,
    ?forgets⟩
  case reads => rw [hselect]
  case asks =>
    rw [hselect]
    exact calls_rest_asks ..
  case once =>
    intro hs e he
    rw [hselect] at he
    obtain ⟨k, hk⟩ := List.mem_iff_getElem?.1 he
    obtain ⟨d, rfl⟩ := exists_of_calls_rest _ _ hk
    exact Rest.length_sent_le (hs.after _) _ d
  case follows =>
    intro k j e later he hlater
    rw [hselect] at he ⊢
    obtain ⟨d, rfl⟩ := exists_of_calls_rest _ _ he
    simpa using Rest.call_next hlater
  case leaves =>
    rw [hselect]
    exact calls_rest_peers ..
  case told =>
    intro k
    rw [hselect]
    cases hd : ds[k]? with
    | none => rw [calls_rest_at_none _ _ hd, Option.map_none, Option.map_none]
    | some d => rw [calls_rest_at _ _ hd, Option.map_some, Option.map_some, Rest.call_reply]
  case answers =>
    intro hs k
    rw [hselect, calls_rest_of_direct _ _ _ hs, Rest.exchanges, List.getElem?_mapIdx,
      Option.map_map]
    simp only [Function.comp_def, Rest.exchange_reply]
  case ignores =>
    intro channel answers
    rw [hselect, hselect]
    exact calls_rest_congr _ _ _ rfl
  case alone =>
    intro k d hd s hs
    rw [hselect] at hs ⊢
    rw [calls_rest_at _ _ hd, Rest.call_congr hs]
  case forgets =>
    intro c' ds' p' k hs hs' hurl _ horigin hduty hanswer
    rw [hselect, hselect, calls_rest_of_direct _ _ _ hs, calls_rest_of_direct _ _ _ hs',
      Rest.exchanges, Rest.exchanges, List.getElem?_mapIdx, List.getElem?_mapIdx, hurl, horigin,
      hduty, hanswer]

theorem onlyRpc_of_disabled {flags : Flags} (hrest : ¬flags.enableBeaconRestApi = true)
    (c : Connection κ) (ds : List Duty) (p : Peers) : OnlyRpc flags c ds p := by
  have hselect : ∀ c : Connection κ, select flags c = (.rpc c.channel, [.channel]) :=
    fun c => if_neg hrest
  refine ⟨?reads, ?asks, ?leaves, ?answers, ?ignores, ?forgets⟩
  case reads => rw [hselect]
  case asks =>
    rw [hselect, calls_rpc]
    exact forall₂_mapIdx (fun _ d => Rpc.asks_exchange d _) ds
  case leaves => rw [hselect, calls_rpc]
  case answers =>
    intro k
    rw [hselect, calls_rpc, Rpc.exchanges, List.getElem?_mapIdx, Option.map_map]
    rfl
  case ignores =>
    intro url timeout server
    rw [hselect, hselect, calls_rpc, calls_rpc]
  case forgets =>
    intro c' ds' p' k hduty hanswer
    rw [hselect, hselect, calls_rpc, calls_rpc, Rpc.exchanges, Rpc.exchanges,
      List.getElem?_mapIdx, List.getElem?_mapIdx, hduty, hanswer]

/-- **The selected backend uses its own inputs only and keeps nothing between duties.** What a duty
comes to is told by the duty, these inputs and what its own call or request comes to, whatever has
been asked and answered before. -/
theorem selected_backend_alone (flags : Flags) (c : Connection κ) (ds : List Duty) (p : Peers) :
    if flags.enableBeaconRestApi then OnlyRest flags c ds p else OnlyRpc flags c ds p := by
  split_ifs with hrest
  · exact onlyRest_of_enabled hrest c ds p
  · exact onlyRpc_of_disabled hrest c ds p

end Client

end

/-! A node that is asked its version and its duties over either backend. -/

namespace Client

/-- The node: over HTTP it is busy and then gone, over RPC it answers once. -/
def busyNode : Peers where
  channel := [.ok (Wire.VersionResponse.encode ⟨"v1"⟩)]
  server := ⟨⟨"http", .domain "node", 5052⟩,
    [.respond ⟨503, Utf8.encode "busy", none, none, none⟩, .close]⟩

/-- Both backends of the node. -/
def busyConnection : Connection Unit := ⟨"http://node:5052", 1000, ()⟩

/-- Each backend is told its own answers. -/
theorem selected_backend_of_busyNode :
    let duties : List Duty := [.nodeVersion, .proposerDuties 18446744073709551615]
    let rest := ((select ⟨true⟩ busyConnection).1.calls duties busyNode).1
    let rpc := ((select ⟨false⟩ busyConnection).1.calls duties busyNode).1
    (rest[0]?.map Exchange.reply = some (.error (.status 503 "busy")) ∧
      rest[1]?.map Exchange.reply = some (.error (.http .request)) ∧
        ∀ e ∈ rest, e.sent.length ≤ 1) ∧
    (rpc[0]?.map Exchange.reply = some (.ok (.version "v1")) ∧
      rpc[1]?.map Exchange.reply = some (.error
        (.rpc "/ethereum.eth.v1alpha1.BeaconNodeValidator/GetProposerDuties: unavailable"))) := by
  intro duties rest rpc
  have hdirect : busyNode.server.Direct := by
    intro response hmem
    obtain rfl : response = ⟨503, Utf8.encode "busy", none, none, none⟩ := by
      simpa [busyNode] using hmem
    rfl
  have hrest : OnlyRest ⟨true⟩ busyConnection duties busyNode :=
    selected_backend_alone ⟨true⟩ busyConnection duties busyNode
  have hrpc : OnlyRpc ⟨false⟩ busyConnection duties busyNode :=
    selected_backend_alone ⟨false⟩ busyConnection duties busyNode
  refine ⟨⟨(hrest.answers hdirect 0).trans ?_, (hrest.answers hdirect 1).trans ?_,
    hrest.once hdirect⟩, (hrpc.answers 0).trans ?_, (hrpc.answers 1).trans ?_⟩
  all_goals decide +kernel

end Client

end BeaconReplay
