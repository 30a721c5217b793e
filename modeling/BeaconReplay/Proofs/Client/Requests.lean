import BeaconReplay.Proofs.Client.Agreement
import BeaconReplay.Proofs.Client.Backends
import BeaconReplay.Proofs.Client.Bodies
import BeaconReplay.Proofs.Url.Domains
import BeaconReplay.Proofs.Url.Paths

/-!
# What the duties of a base ask for

A base that names a host, a port and a path of plain segments is extended by the path of a duty
as a text. The URL is read as it is written, so a request asks the host for the path of the base,
without the slashes at its end, followed by the path of the duty. The last segment of that tells
the duty, and the epoch if it has one.
-/
namespace BeaconReplay.Rest

open Host (isBlank)
open Url (IsPlain joined cleaned)

/-! ## Paths of duties -/

/-- The segment of a path that tells the duty. -/
def lastStep : Duty → String
  | .genesis => "genesis"
  | .nodeVersion => "version"
  | .syncing => "syncing"
  | .proposerDuties epoch => Decimal.text epoch

/-- The segments of a path in front of that one. -/
def firstSteps : Duty → List String
  | .genesis => ["eth", "v1", "beacon"]
  | .nodeVersion => ["eth", "v1", "node"]
  | .syncing => ["eth", "v1", "node"]
  | .proposerDuties _ => ["eth", "v1", "validator", "duties", "proposer"]

/-- The segments of the path of a duty. -/
def steps (d : Duty) : List (List Char) := (firstSteps d ++ [lastStep d]).map String.toList

theorem toList_path (d : Duty) : (path d).toList = joined (steps d) := by
  cases d with
  | genesis => decide
  | nodeVersion => decide
  | syncing => decide
  | proposerDuties epoch => simp [path_proposerDuties, steps, firstSteps, lastStep, joined]

theorem isPlain_epoch (epoch : UInt64) : IsPlain (Decimal.text epoch).toList := by
  have hdigit : ∀ c ∈ (Decimal.text epoch).toList, c.isDigit = true := by
    intro c hc
    rw [Decimal.toList_text] at hc
    exact Nat.isDigit_of_mem_toDigits (by omega) (by omega) hc
  have hdot {dots : List Char} (hmem : '.' ∈ dots) : (Decimal.text epoch).toList ≠ dots := by
    rintro rfl
    cases hdigit '.' hmem
  exact ⟨fun c hc => Url.isUnreserved_of_isDigit (hdigit c hc), hdot (by simp), hdot (by simp)⟩

theorem isPlain_of_steps (d : Duty) : ∀ s ∈ steps d, IsPlain s := by
  cases d with
  | genesis => decide
  | nodeVersion => decide
  | syncing => decide
  | proposerDuties epoch =>
    have hfirst : ∀ s ∈ (firstSteps (.proposerDuties 0)).map String.toList, IsPlain s := by decide
    rw [steps, List.map_append]
    exact List.forall_mem_append.2 ⟨hfirst, List.forall_mem_singleton.2 (isPlain_epoch epoch)⟩

/-- The duty with a last segment: a numeral is an epoch, since none of the other names is one. -/
def stepped? (s : String) : Option Duty :=
  match Decimal.word s with
  | .ok epoch => some (.proposerDuties epoch)
  | .error _ => [.genesis, .nodeVersion, .syncing].find? fun d => lastStep d = s

theorem stepped?_lastStep (d : Duty) : stepped? (lastStep d) = some d := by
  cases d with
  | proposerDuties epoch => rw [stepped?, lastStep, Decimal.word_text]
  | _ => decide +kernel

/-- The duty that a request asks for, as its target tells. -/
def asked? (target : String) : Option Duty :=
  stepped? (String.ofList (target.toList.rtakeWhile (· != '/')))

/-- **A duty is read back from a target that ends in its path.** -/
theorem asked?_path (pre : String) (d : Duty) : asked? (pre ++ path d) = some d := by
  have hslash : ∀ c ∈ (lastStep d).toList, (c != '/') = true := by
    intro c hc
    have hplain := isPlain_of_steps d (lastStep d).toList (by simp [steps])
    have hother := hplain.not_isSlash c hc
    rw [bne_iff_ne]
    rintro rfl
    cases hother
  have htext : (pre ++ path d).toList =
      pre.toList ++ joined ((firstSteps d).map String.toList) ++ '/' :: (lastStep d).toList := by
    simp [toList_path, steps, joined]
  have hstop : ('/' != '/') = false := by decide
  rw [asked?, htext, Url.rtakeWhile_append_stop (p := (· != '/')) hstop,
    List.rtakeWhile_eq_self_iff.2 hslash, String.ofList_toList, stepped?_lastStep]

/-! ## Bases -/

section

variable [Tables]

/-- A base that names a host that is accepted, a port, and a path of plain segments. -/
structure Base where
  host : List Char
  port : List Char
  segments : List (List Char)
  address : Host
  number : ℕ
  host_eq : Host.ofSpecial host = .ok address
  port_ne_nil : port ≠ []
  port_eq : Host.digits? 10 port = some number
  number_le : number ≤ 65535
  plain : ∀ s ∈ segments, IsPlain s

namespace Base

variable (b : Base)

/-- The text of a base with some more slashes at its end. -/
def text (slashes : ℕ) : String :=
  "http://" ++ String.ofList (b.host ++ ':' :: b.port ++ joined b.segments ++
    List.replicate slashes '/')

/-- Where the requests of a base go. -/
def origin : Http.Origin := ⟨"http", b.address, b.number⟩

/-- The path of a base without the slashes at its end. -/
def trimmedPath : String := String.ofList ((joined b.segments).rdropWhile (· == '/'))

/-- What a duty asks for: that path, and behind it the path of the duty. -/
def target (d : Duty) : String := b.trimmedPath ++ path d

/-- The segments of a base without the empty ones at the end. -/
def core : List (List Char) := b.segments.rdropWhile List.isEmpty

/-- What stands in front of the host of a base. -/
def lead : List Char := ['h', 't', 't', 'p', ':', '/', '/']

/-- What a base names in front of its path. -/
def authority : List Char := b.host ++ ':' :: b.port

theorem isPlain_of_core : ∀ s ∈ b.core, IsPlain s :=
  fun s hs => b.plain s ((List.rdropWhile_prefix _ _).subset hs)

theorem plain_of_port :
    ∀ c ∈ b.port, isBlank c = false ∧ Url.endsAuthority true c = false ∧ c ≠ '@' :=
  fun c hc => Host.plain_of_isAddressChar (Host.isAddressChar_of_digits? b.port_eq c hc)

theorem plain_of_authority :
    ∀ c ∈ b.authority, isBlank c = false ∧ Url.endsAuthority true c = false ∧ c ≠ '@' :=
  List.forall_mem_append.2 ⟨Host.plain_of_ofSpecial b.host_eq,
    List.forall_mem_cons.2 ⟨by decide, b.plain_of_port⟩⟩

/-- The slashes at the end of a base are dropped, however many there are. -/
theorem trimmed_text (slashes : ℕ) : (trimmed (b.text slashes)).toList =
    lead ++ b.authority ++ joined b.core := by
  -- whatever is dropped behind it, the last digit of the port stays
  obtain ⟨start, last, hport⟩ := (List.eq_nil_or_concat' b.port).resolve_left b.port_ne_nil
  have hlast : (last == '/') = false := by
    have hends := (b.plain_of_port last (by simp [hport])).2.1
    simp only [Url.endsAuthority, Bool.or_eq_false_iff] at hends
    exact hends.1.1.1
  have hslashes : ∀ c ∈ List.replicate slashes '/', (c == '/') = true := by
    intro c hc
    simp [List.eq_of_mem_replicate hc]
  have htext : (b.text slashes).toList = lead ++ b.host ++ ':' :: start ++
      last :: joined b.segments ++ List.replicate slashes '/' := by
    simp [text, lead, hport]
  -- both sides are split at that digit
  have hsame : lead ++ b.authority ++ joined b.core =
      lead ++ b.host ++ ':' :: start ++ last :: joined b.core := by
    simp [authority, hport]
  rw [hsame, core, ← Url.rdropWhile_joined b.plain,
    ← Url.rdropWhile_append_stop (p := (· == '/')) hlast, ← Url.rdropWhile_append_of_pos hslashes,
    ← htext, trimmed, String.toList_ofList, List.rdropWhile]

theorem cleaned_urlText (slashes : ℕ) (d : Duty) : cleaned (urlText (b.text slashes) d) =
    lead ++ (b.authority ++ joined (b.core ++ steps d)) := by
  have hvisible : ∀ c ∈ lead ++ b.authority ++ joined b.core, isBlank c = false := by
    refine List.forall_mem_append.2 ⟨List.forall_mem_append.2 ⟨by simp [lead, isBlank], ?_⟩, ?_⟩
    · exact fun c hc => (b.plain_of_authority c hc).1
    · exact fun c hc => (Url.plain_of_joined b.isPlain_of_core c hc).2
  rw [Rest.cleaned_urlText, stem, trimmed_text, Url.front_of_visible hvisible, toList_path,
    Url.joined_append, List.append_assoc, List.append_assoc]

theorem span_authority (s : List Char) (segments : List (List Char)) :
    (b.authority ++ joined (s :: segments)).span (!Url.endsAuthority true ·) =
      (b.authority, joined (s :: segments)) := by
  have hinside : ∀ c ∈ b.authority, (!Url.endsAuthority true c) = true :=
    fun c hc => by simp [(b.plain_of_authority c hc).2.1]
  have hstop : (!Url.endsAuthority true '/') = false := rfl
  change (b.authority ++ '/' :: (s ++ joined segments)).span _ = _
  rw [List.span_eq_takeWhile_dropWhile,
    Url.takeWhile_append_stop (p := (!Url.endsAuthority true ·)) hstop,
    Url.dropWhile_append_stop (p := (!Url.endsAuthority true ·)) hstop,
    List.takeWhile_eq_self_iff.2 hinside, List.dropWhile_eq_nil_iff.2 hinside]
  rfl

theorem behindCredentials_authority : Url.behindCredentials b.authority = (false, b.authority) := by
  have hat : ∀ c ∈ b.authority, c ≠ '@' := fun c hc => (b.plain_of_authority c hc).2.2
  have hnone : '@' ∉ b.authority := fun hmem => hat '@' hmem rfl
  have hall : ∀ c ∈ b.authority.reverse, (c != '@') = true :=
    fun c hc => bne_iff_ne.2 (hat c (List.mem_reverse.1 hc))
  rw [Url.behindCredentials, List.takeWhile_eq_self_iff.2 hall, List.reverse_reverse]
  simp [hnone]

/-- The port of a base is read as its number, or it is the one that needs no mention. -/
theorem readPort_port : ∃ port, Url.readPort "http" (':' :: b.port) = .ok port ∧
    (port.orElse fun _ => Url.defaultPort? "http") = some b.number := by
  have hsmall : ¬65535 < b.number := by
    have := b.number_le
    omega
  have hne : b.port.isEmpty = false := by simp [b.port_ne_nil]
  rw [Url.readPort, b.port_eq]
  dsimp only
  rw [if_neg hsmall, hne, Bool.false_or]
  split_ifs with hdefault
  · exact ⟨none, rfl, of_decide_eq_true hdefault⟩
  · exact ⟨some b.number, rfl, rfl⟩

/-- Behind its scheme, the URL of a duty names the host, the port and the path as they are. -/
theorem ofAuthority_text {segments : List (List Char)} (hne : segments ≠ [])
    (hplain : ∀ s ∈ segments, IsPlain s) :
    ∃ u, Url.ofAuthority "http" true (b.authority ++ joined segments) = .ok u ∧
      Http.Request.ofUrl? u = some ⟨b.origin, String.ofList (joined segments)⟩ := by
  have hpath := Url.pathAndQuery_joined hne hplain
  obtain ⟨s, rest, rfl⟩ := List.exists_cons_of_ne_nil hne
  obtain ⟨port, hport, hnumber⟩ := b.readPort_port
  have hhost := Host.splitHost_of_ofSpecial b.host_eq b.port
  have hnonempty : b.host.isEmpty = false := by
    simpa using Host.ne_nil_of_ofSpecial b.host_eq
  -- the parts are read in the order of the text: authority, credentials, host, port, path
  refine ⟨⟨"http", some b.address, port, String.ofList (joined (s :: rest)), none⟩, ?_, ?_⟩
  · rw [Url.ofAuthority, b.span_authority]
    dsimp only
    rw [b.behindCredentials_authority, authority]
    dsimp only
    rw [hhost]
    dsimp only
    rw [hnonempty, b.host_eq, hport, hpath]
    rfl
  · rw [Http.Request.ofUrl?, Url.effectivePort?, hnumber]
    rfl

theorem target_eq (d : Duty) : b.target d = String.ofList (joined (b.core ++ steps d)) := by
  rw [target, trimmedPath, Url.rdropWhile_joined b.plain, ← String.toList_inj]
  simp [toList_path, Url.joined_append, core]

/-- The slashes behind a scheme end where the host begins. -/
theorem dropWhile_authority (cs : List Char) :
    ('/' :: '/' :: (b.authority ++ cs)).dropWhile (Url.isSlash true) = b.authority ++ cs := by
  obtain ⟨c, host, hhost⟩ := List.exists_cons_of_ne_nil (Host.ne_nil_of_ofSpecial b.host_eq)
  have hends := (b.plain_of_authority c (by simp [authority, hhost])).2.1
  have hslash : Url.isSlash true c = false := by
    simp only [Url.endsAuthority, Bool.or_eq_false_iff] at hends
    simp only [Url.isSlash, hends, Bool.or_false]
  have hcons : b.authority ++ cs = c :: (host ++ ':' :: b.port ++ cs) := by
    simp [authority, hhost]
  rw [hcons, List.dropWhile_cons_of_pos (by decide), List.dropWhile_cons_of_pos (by decide),
    List.dropWhile_cons_of_neg (by simp [hslash])]

/-- **The request of a duty asks for the path of the base and behind it that of the duty.** -/
theorem request_text (slashes : ℕ) (d : Duty) :
    request (b.text slashes) d = .ok ⟨b.origin, b.target d⟩ := by
  have hscheme (cs : List Char) :
      Url.scheme? (lead ++ cs) = some ("http", '/' :: '/' :: cs) := rfl
  have hsteps : b.core ++ steps d ≠ [] := by simp [steps]
  obtain ⟨u, hauthority, hrequest⟩ := b.ofAuthority_text hsteps
    (List.forall_mem_append.2 ⟨b.isPlain_of_core, isPlain_of_steps d⟩)
  have hparse : Url.parse (urlText (b.text slashes) d) = .ok u := by
    rw [Url.parse, b.cleaned_urlText, hscheme]
    change Url.ofAuthority "http" true _ = _
    rw [b.dropWhile_authority, hauthority]
  rw [request, hparse]
  dsimp only
  rw [hrequest, target_eq]
  rfl

/-! ## Runs -/

/-- The slashes at the end of a base do not count. -/
theorem call_text (slashes more : ℕ) (d : Duty) (s : Http.Server) :
    call (b.text more) d s = call (b.text slashes) d s := by
  rw [call_of_request (b.request_text more d), call_of_request (b.request_text slashes d)]

theorem calls_text {κ : Type} (slashes more timeout : ℕ) (ds : List Duty) (p : Peers) :
    (Client.rest (b.text more) timeout : Client κ).calls ds p =
      (Client.rest (b.text slashes) timeout : Client κ).calls ds p := by
  induction ds generalizing p with
  | nil => rfl
  | cons d ds ih => simp only [Client.calls, Client.call, b.call_text slashes more, ih]

/-- The answers that a server has for a base: none if the base points elsewhere. -/
def answers (s : Http.Server) : List Http.Answer := if s.origin = b.origin then s.answers else []

/-- What comes of a duty that is asked of a server: its request is the first to arrive, unless
there is no answer for it, and the whole response to it, behind redirections if there are any,
settles the duty. -/
structure Meets (d : Duty) (s : Http.Server) (e : Exchange) : Prop where
  first : ∀ sent ∈ e.sent.head?, sent = .get ⟨b.origin, b.target d⟩
  settled : ∀ r body, (s.get Http.Server.redirectLimit ⟨b.origin, b.target d⟩).1 = .ok r →
    r.received = some body → Settled d r body e.reply

theorem meets_call (slashes : ℕ) (d : Duty) (s : Http.Server) :
    b.Meets d s (call (b.text slashes) d s).1 := by
  have hrequest := b.request_text slashes d
  refine ⟨fun sent hsent => ?_, fun r body hr hbody => ?_⟩
  · obtain ⟨r, rfl, hr⟩ := request_of_sent hsent
    rw [hrequest] at hr
    cases hr
    rfl
  · rw [call_of_request hrequest, hr]
    exact settled_reply d hbody

/-- What comes of a duty that meets an answer that does not redirect, or none: its request alone is
sent to the server that answers, and a whole response settles the duty. -/
structure MeetsFinal (d : Duty) (answer : Option Http.Answer) (e : Exchange) : Prop where
  sent : e.sent = (answer.map fun _ => Sent.get ⟨b.origin, b.target d⟩).toList
  settled : ∀ r body, answer = some (.respond r) → r.received = some body → Settled d r body e.reply

theorem meetsFinal_exchange (slashes : ℕ) (s : Http.Server) (d : Duty) (k : ℕ) :
    b.MeetsFinal d (b.answers s)[k]? (exchange (b.text slashes) s.origin d s.answers[k]?) := by
  have hrequest := b.request_text slashes d
  rw [answers]
  by_cases horigin : s.origin = b.origin
  · rw [if_pos horigin, exchange_of_origin hrequest horigin.symm]
    refine ⟨rfl, fun r body hr hbody => ?_⟩
    rw [hr]
    exact settled_reply d hbody
  · rw [if_neg horigin, exchange_of_other_origin hrequest (Ne.symm horigin)]
    exact ⟨rfl, fun r body hr => by cases hr⟩

end Base

variable {κ : Type}

/-- **The requests of a base are faithful.** Every duty asks for the path of the base, without the
slashes at its end, followed by the path of the duty, whose last segment is the plain numeral of the
epoch if it has one; in a run the duty in each place sends that first and is settled by the response
to it, and where no answer redirects, it sends nothing else and is settled by the answer in its
place. The number of slashes at the end of the base changes nothing, and no two duties ask for the
same. -/
theorem calls_ask_for_duties (b : Base) (slashes timeout : ℕ) (ds : List Duty) (p : Peers) :
    (∀ d, request (b.text slashes) d = .ok ⟨b.origin, b.target d⟩) ∧
    (∀ epoch, ∃ digits, Decimal.Spells digits epoch.toNat ∧ Decimal.Plain digits ∧
      b.target (.proposerDuties epoch) =
        b.trimmedPath ++ "/eth/v1/validator/duties/proposer/" ++ digits) ∧
    ((Client.rest (b.text slashes) timeout : Client κ).calls ds p).1.length = ds.length ∧
    (∀ (k : ℕ) d e, ds[k]? = some d →
      ((Client.rest (b.text slashes) timeout : Client κ).calls ds p).1[k]? = some e →
        b.Meets d (p.server.after (sentIn
          (((Client.rest (b.text slashes) timeout : Client κ).calls ds p).1.take k))) e) ∧
    (p.server.Direct → ∀ (k : ℕ) d e, ds[k]? = some d →
      ((Client.rest (b.text slashes) timeout : Client κ).calls ds p).1[k]? = some e →
        b.MeetsFinal d (b.answers p.server)[k]? e) ∧
    (∀ more, (Client.rest (b.text more) timeout : Client κ).calls ds p =
      (Client.rest (b.text slashes) timeout : Client κ).calls ds p) ∧
    ∀ (c : Base) d e, b.target d = c.target e → d = e := by
  refine ⟨b.request_text slashes, fun epoch => ?_, ?_, fun k d e hd he => ?_,
    fun hs k d e hd he => ?_, fun more => b.calls_text slashes more timeout ds p,
    fun c d e h => ?_⟩
  · obtain ⟨hspells, hplain⟩ := Decimal.eq_text_iff.1 (rfl : Decimal.text epoch = _)
    refine ⟨Decimal.text epoch, hspells, hplain, ?_⟩
    rw [Base.target, path_proposerDuties, String.append_assoc]
  · exact (Client.calls_rest_asks (b.text slashes) timeout ds p).length_eq.symm
  · rw [Client.calls_rest_at _ _ hd, Option.some.injEq] at he
    rw [← he]
    exact b.meets_call ..
  · rw [Client.calls_rest_of_direct _ _ _ hs, exchanges, List.getElem?_mapIdx, hd,
      Option.map_some, Option.some.injEq] at he
    rw [← he]
    exact b.meetsFinal_exchange slashes p.server d k
  · have hasked := asked?_path b.trimmedPath d
    rw [← Base.target, h, Base.target, asked?_path] at hasked
    exact (Option.some.inj hasked).symm

end

/-- A base with a path of two segments. -/
def pathBase : Base where
  host := ['n', 'o', 'd', 'e']
  port := ['5', '0', '5', '2']
  segments := [['a'], ['b', '-', '1']]
  address := .domain "node"
  number := 5052
  host_eq := by decide +kernel
  port_ne_nil := by decide
  port_eq := by decide +kernel
  number_le := by decide
  plain := by decide

/-- A node behind that base answers one body twice, the second time with a status that is none of
success. -/
theorem calls_of_pathBase :
    let base := "http://node:5052/a/b-1//"
    let origin : Http.Origin := ⟨"http", .domain "node", 5052⟩
    let text := "\x7b\"data\":\x7b\"version\":\"v1\"\x7d\x7d"
    let p : Peers := ⟨[], ⟨origin, [.respond ⟨200, Utf8.encode text, none, none, none⟩,
      .respond ⟨500, Utf8.encode text, none, none, none⟩]⟩⟩
    ∃ e e', ((Client.rest base 1000 : Client Unit).calls [.nodeVersion, .proposerDuties 7] p).1 =
        [e, e'] ∧
      e.sent = [.get ⟨origin, "/a/b-1/eth/v1/node/version"⟩] ∧
      e'.sent = [.get ⟨origin, "/a/b-1/eth/v1/validator/duties/proposer/7"⟩] ∧
      e.reply = .ok (.version "v1") ∧
      e'.reply = .error (.status 500 "\x7b\"data\":\x7b\"version\":\"v1\"\x7d\x7d") := by
  intro base origin text p
  have hbase : pathBase.text 2 = base := by decide
  have hanswers : pathBase.answers p.server = p.server.answers := if_pos rfl
  have hfirst : pathBase.target .nodeVersion = "/a/b-1/eth/v1/node/version" := by decide +kernel
  have hsecond : pathBase.target (.proposerDuties 7) =
      "/a/b-1/eth/v1/validator/duties/proposer/7" := by decide +kernel
  have hdirect : p.server.Direct := by
    intro response hmem
    obtain rfl | rfl : response = ⟨200, Utf8.encode text, none, none, none⟩ ∨
        response = ⟨500, Utf8.encode text, none, none, none⟩ := by simpa [p] using hmem
    all_goals rfl
  obtain ⟨-, -, hlength, -, hmeets, -, -⟩ :=
    calls_ask_for_duties (κ := Unit) pathBase 2 1000 [.nodeVersion, .proposerDuties 7] p
  rw [hbase] at hlength hmeets
  obtain ⟨e, e', hrun⟩ := List.length_eq_two.1 hlength
  rw [hrun] at hmeets
  have hversion := hmeets hdirect 0 _ e rfl rfl
  have hduties := hmeets hdirect 1 _ e' rfl rfl
  refine ⟨e, e', hrun, hversion.sent.trans ?_, hduties.sent.trans ?_, ?_, ?_⟩
  · rw [hanswers, hfirst]
    rfl
  · rw [hanswers, hsecond]
    rfl
  · have hserved : text = Reply.bodyText (Wire.VersionResponse.payload ⟨"v1"⟩) := by
      decide +kernel
    have hbody := Reply.ofBody_eq_ok_iff.1 (Reply.ofBody_version ⟨"v1"⟩)
    rw [← hserved] at hbody
    have hsettled := hversion.settled ⟨200, Utf8.encode text, none, none, none⟩ _ rfl rfl
    exact (hsettled.ok_iff _).2 ⟨by decide, hbody⟩
  · have hsettled := hduties.settled ⟨500, Utf8.encode text, none, none, none⟩ _ rfl rfl
    obtain ⟨shown, htext, hreply⟩ := hsettled.status (by decide)
    rw [hreply, htext.same text rfl (by decide) rfl]

end BeaconReplay.Rest
