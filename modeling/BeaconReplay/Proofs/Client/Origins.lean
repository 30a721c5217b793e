import BeaconReplay.Http.Builtin
import BeaconReplay.Proofs.Client.Targets
import BeaconReplay.Proofs.Http.Redirections

/-!
# No host that the base does not name

A duty fails without a request where its base is no URL, and its request goes to the scheme, the
host and the port of the base, for all bases but those that leave their hosts to what follows them.
Only an answer that redirects has another request sent.
-/
namespace BeaconReplay

namespace Url

/-- The origin of the requests to a place, if its scheme makes requests. -/
def Site.origin? (there : Site) : Option Http.Origin :=
  match there.host, there.port.orElse fun _ => defaultPort? there.scheme with
  | some host, some port =>
    if there.scheme = "http" || there.scheme = "https" then some ⟨there.scheme, host, port⟩
    else none
  | _, _ => none

theorem ofUrl?_eq (u : Url) :
    Http.Request.ofUrl? u = (site u).origin?.map fun origin => ⟨origin, u.target⟩ := by
  rw [Http.Request.ofUrl?, Site.origin?, site, effectivePort?]
  dsimp only
  cases u.host with
  | none => rfl
  | some host =>
    cases u.port.orElse fun _ => defaultPort? u.scheme with
    | none => rfl
    | some port =>
      dsimp only
      split <;> rfl

/-- Only a web scheme makes requests. -/
theorem kind_of_origin? {there : Site} {origin : Http.Origin} (h : there.origin? = some origin) :
    kind there.scheme = .web := by
  unfold Site.origin? at h
  split at h
  · split_ifs at h with hscheme
    rw [Bool.or_eq_true, decide_eq_true_eq, decide_eq_true_eq] at hscheme
    rcases hscheme with hscheme | hscheme <;> rw [hscheme] <;> decide
  · cases h

/-- A request goes to the scheme, the host and the port of its URL. -/
theorem origin?_eq_some {u : Url} {origin : Http.Origin} (h : (site u).origin? = some origin) :
    origin.scheme = u.scheme ∧ u.host = some origin.host ∧ u.effectivePort? = some origin.port := by
  unfold Site.origin? at h
  split at h
  · rename_i host port hhost hport
    split_ifs at h
    cases h
    exact ⟨rfl, hhost, hport⟩
  · cases h

end Url

namespace Rest

section

variable [Tables] {base : String} {d : Duty} {fault : UrlFault} {there : Url.Site}

/-! ## Requests -/

theorem request_of_target_error (h : target base = .error fault) (d : Duty) :
    request base d = .error (.invalidUrl (urlText base d) fault) := by
  have hparse := Url.parse_of_site_error ((parse_urlText_site base d).trans h)
  rw [request, hparse]
  rfl

/-- The requests of all duties share their origin. -/
theorem request_of_target (h : target base = .ok there) (d : Duty) :
    ∃ text, request base d = match there.origin? with
      | some origin => .ok ⟨origin, text⟩
      | none => .error (.http .builder) := by
  obtain ⟨u, hparse, hsite⟩ := Url.parse_of_site_ok ((parse_urlText_site base d).trans h)
  refine ⟨u.target, ?_⟩
  rw [request, hparse]
  dsimp only
  rw [Url.ofUrl?_eq, hsite]
  cases there.origin? <;> rfl

theorem call_of_request_error {e : ClientError} (h : request base d = .error e) (s : Http.Server) :
    call base d s = (⟨.error e, []⟩, s) := by
  rw [call, h]

/-- What a duty makes of what comes of its request. -/
def replyOf (d : Duty) : Except Http.Fault Http.Response → Except ClientError Reply
  | .ok response => reply d response
  | .error fault => .error (.http fault)

theorem call_of_request {r : Http.Request} (h : request base d = .ok r) (s : Http.Server) :
    call base d s =
      (⟨replyOf d (s.get Http.Server.redirectLimit r).1,
        (s.get Http.Server.redirectLimit r).2.1.map .get⟩,
        (s.get Http.Server.redirectLimit r).2.2) := by
  rw [call, h]
  dsimp only
  cases s.get Http.Server.redirectLimit r with
  | mk answer rest => cases answer <;> rfl

/-- The first request that arrives is that of the duty. -/
theorem request_of_sent {s : Http.Server} {sent : Sent}
    (h : sent ∈ (call base d s).1.sent.head?) : ∃ r, sent = .get r ∧ request base d = .ok r := by
  cases hrequest : request base d with
  | error e =>
    rw [call_of_request_error hrequest] at h
    cases h
  | ok r =>
    rw [call_of_request hrequest, List.head?_map, Option.mem_def, Option.map_eq_some_iff] at h
    obtain ⟨first, hfirst, rfl⟩ := h
    exact ⟨r, by rw [Http.Server.get_first _ s r first hfirst], rfl⟩

/-- Nothing but a redirection has a second request sent. -/
theorem length_sent_le {s : Http.Server} (hs : s.Direct) (base : String) (d : Duty) :
    (call base d s).1.sent.length ≤ 1 := by
  cases hrequest : request base d with
  | error e => simp [call_of_request_error hrequest]
  | ok r =>
    rw [call_of_request hrequest]
    by_cases horigin : r.origin = s.origin
    · rw [Http.Server.get_of_direct hs horigin]
      cases s.answers.head? <;> simp
    · simp [Http.Server.get_of_other_origin horigin]

/-! ## The base and its duties -/

/-- Whether a request goes to the scheme, the host and the port of a URL. -/
def GoesTo (u : Url) (r : Http.Request) : Prop :=
  r.origin.scheme = u.scheme ∧ u.host = some r.origin.host ∧ u.effectivePort? = some r.origin.port

/-- Whether a duty asks no host that its base does not name: if the base is no URL, the duty fails
for its URL and sends nothing, and otherwise its request goes where the base points, and no other
one is sent unless an answer redirects. -/
def KeepsToBase (base : String) (d : Duty) : Prop :=
  match Url.parse base with
  | .error _ => ∃ fault, ∀ s,
      call base d s = (⟨.error (.invalidUrl (urlText base d) fault), []⟩, s)
  | .ok u => ∀ s : Http.Server,
      (∀ sent ∈ (call base d s).1.sent.head?, ∃ r, sent = .get r ∧ GoesTo u r) ∧
        (s.Direct → (call base d s).1.sent.length ≤ 1)

theorem keepsToBase_of_error (h : target base = .error fault) (d : Duty) : KeepsToBase base d := by
  have hcall := call_of_request_error (request_of_target_error h d)
  rw [KeepsToBase]
  cases Url.parse base with
  | error _ => exact ⟨fault, hcall⟩
  | ok u =>
    intro s
    rw [hcall]
    exact ⟨by simp, by simp⟩

theorem keepsToBase_of_ok {u : Url} (hbase : Url.parse base = .ok u)
    (h : ∀ there, target base = .ok there → there = Url.site u ∨ Url.kind there.scheme ≠ .web)
    (d : Duty) : KeepsToBase base d := by
  rw [KeepsToBase, hbase]
  refine fun s => ⟨fun sent hsent => ?_, fun hs => length_sent_le hs base d⟩
  obtain ⟨r, rfl, hrequest⟩ := request_of_sent hsent
  refine ⟨r, rfl, ?_⟩
  cases htarget : target base with
  | error fault =>
    rw [request_of_target_error htarget] at hrequest
    cases hrequest
  | ok there =>
    obtain ⟨text, hthere⟩ := request_of_target htarget d
    rw [hrequest] at hthere
    cases horigin : there.origin? with
    | none =>
      rw [horigin] at hthere
      cases hthere
    | some origin =>
      rw [horigin] at hthere
      cases hthere
      rcases h there htarget with rfl | hkind
      · exact Url.origin?_eq_some horigin
      · exact absurd (Url.kind_of_origin? horigin) hkind

theorem not_keepsToBase (hbase : Url.parse base = .error fault) (htarget : target base = .ok there)
    (d : Duty) : ¬ KeepsToBase base d := by
  intro hkeeps
  rw [KeepsToBase, hbase] at hkeeps
  obtain ⟨wrong, hkeeps⟩ := hkeeps
  obtain ⟨text, hrequest⟩ := request_of_target htarget d
  cases horigin : there.origin? with
  | none =>
    rw [horigin] at hrequest
    have hcall := hkeeps ⟨⟨"", .other "", 0⟩, []⟩
    rw [call_of_request_error hrequest] at hcall
    cases hcall
  | some origin =>
    rw [horigin] at hrequest
    have hcall := hkeeps ⟨origin, [.close]⟩
    have hdirect : Http.Server.Direct ⟨origin, [.close]⟩ := by simp [Http.Server.Direct]
    rw [call_of_request hrequest, Http.Server.get_of_direct hdirect rfl] at hcall
    cases hcall

/-- **A duty asks no host that its base does not name, unless the base leaves its host to the path
of the duty.** -/
theorem keepsToBase_iff (base : String) (d : Duty) : KeepsToBase base d ↔ ¬ Unfinished base := by
  constructor
  · intro hkeeps hunfinished
    obtain ⟨hbase, there, htarget⟩ := hunfinished.parse
    exact not_keepsToBase hbase htarget d hkeeps
  · intro hfinished
    cases faithful_of_finished hfinished with
    | nowhere herror => exact keepsToBase_of_error herror d
    | there hsame =>
      cases hbase : Url.parse base with
      | error fault =>
        rw [hbase] at hsame
        exact keepsToBase_of_error hsame d
      | ok u =>
        rw [hbase] at hsame
        refine keepsToBase_of_ok hbase (fun there htarget => .inl ?_) d
        rw [htarget] at hsame
        exact Except.ok.inj hsame
    | silent hbase hmute =>
      exact keepsToBase_of_ok hbase (fun there htarget => .inr (hmute there htarget)) d

end

/-- **A base without a host has its duties ask a host that is named for their paths.** Where the
scheme makes no requests, they fail, but not for their URL. -/
theorem empty_host_asks_eth :
    (Url.parse "http://" = .error .emptyHost ∧
      (call "http://" .genesis ⟨⟨"http", .domain "eth", 80⟩, [.close]⟩).1.sent =
        [.get ⟨⟨"http", .domain "eth", 80⟩, "/v1/beacon/genesis"⟩]) ∧
    (Url.parse "ws://" = .error .emptyHost ∧
      ∀ s, call "ws://" .genesis s = (⟨.error (.http .builder), []⟩, s)) := by
  refine ⟨by decide +kernel, by decide +kernel, fun s => ?_⟩
  exact call_of_request_error (by decide +kernel) s

end Rest

end BeaconReplay
