import BeaconReplay.Client.Rest
import BeaconReplay.Proofs.Text.Numerals
import BeaconReplay.Proofs.Url.Continued

/-!
# Where the requests of a base go

All duties of a base share the scheme, the host and the port of their requests. They are those of
the base, which is read on its own for that, or there is no request; and a base that is no URL
gives a URL for no duty. Two kinds of bases are exceptions, since they leave their hosts to what
follows them: a web scheme with nothing but slashes behind it, where the first name of the path of
a duty becomes the host, and credentials of another scheme with control characters behind them.
-/
namespace BeaconReplay.Rest

open Host (isBlank)
open Url (Site Kind cleaned front scheme? site siteOf kind isSlash EndsInUser)

variable {base scheme : String} {d : Duty} {rest : List Char}

/-! ## The text of a duty -/

theorem not_isBlank_of_isDigit {c : Char} (h : c.isDigit = true) : isBlank c = false := by
  simp only [Char.isDigit, Bool.and_eq_true, decide_eq_true_eq, ge_iff_le] at h
  have hlow : 48 ≤ c.toNat := h.1
  exact decide_eq_false (by omega)

theorem path_genesis : path .genesis = "/eth/v1/beacon/genesis" := rfl

theorem path_nodeVersion : path .nodeVersion = "/eth/v1/node/version" := rfl

theorem path_syncing : path .syncing = "/eth/v1/node/syncing" := rfl

theorem path_proposerDuties (epoch : UInt64) : path (.proposerDuties epoch) =
    "/eth/v1/validator/duties/proposer/" ++ Decimal.text epoch := rfl

/-- No path has blanks. -/
theorem not_isBlank_path (d : Duty) : ∀ c ∈ (path d).toList, isBlank c = false := by
  cases d with
  | genesis => simp [path_genesis, isBlank]
  | nodeVersion => simp [path_nodeVersion, isBlank]
  | syncing => simp [path_syncing, isBlank]
  | proposerDuties epoch =>
    rw [path_proposerDuties, String.toList_append, Decimal.toList_text]
    refine List.forall_mem_append.2 ⟨by simp [isBlank], fun c hc => ?_⟩
    exact not_isBlank_of_isDigit (Nat.isDigit_of_mem_toDigits (by omega) (by omega) hc)

/-- All paths share their first name. -/
theorem path_eq (d : Duty) : ∃ ys, (path d).toList = '/' :: 'e' :: 't' :: 'h' :: '/' :: ys := by
  cases d with
  | genesis => simp [path_genesis]
  | nodeVersion => simp [path_nodeVersion]
  | syncing => simp [path_syncing]
  | proposerDuties epoch => simp [path_proposerDuties]

/-- What is read of a base in front of the path of a duty. -/
def stem (base : String) : List Char := front (trimmed base).toList

theorem cleaned_urlText (base : String) (d : Duty) :
    cleaned (urlText base d) = stem base ++ (path d).toList := by
  obtain ⟨ys, hpath⟩ := path_eq d
  have hvisible := not_isBlank_path d
  rw [hpath] at hvisible ⊢
  exact Url.cleaned_append (by rw [urlText, String.toList_append, hpath]) hvisible

/-- A base ends in slashes, which are missing in front of a path, or in blanks, which are not. -/
theorem stem_cases (base : String) :
    (∃ blanks, (∀ x ∈ blanks, isBlank x = true) ∧ stem base = cleaned base ++ blanks ∧
        front base.toList = stem base) ∨
      ∃ slashes, (∀ c ∈ slashes, c = '/') ∧ cleaned base = stem base ++ '/' :: slashes ∧
        front base.toList = cleaned base := by
  have htrimmed : (trimmed base).toList = base.toList.rdropWhile (· == '/') := by
    rw [trimmed, String.toList_ofList, List.rdropWhile]
  have hsplit := List.rdropWhile_append_rtakeWhile (p := (· == '/')) (l := base.toList)
  have hslashes : ∀ c ∈ base.toList.rtakeWhile (· == '/'), c = '/' := by
    intro c hc
    have hslash := List.mem_rtakeWhile_imp hc
    exact eq_of_beq hslash
  rw [← htrimmed] at hsplit
  cases htake : base.toList.rtakeWhile (· == '/') with
  | nil =>
    rw [htake, List.append_nil] at hsplit
    obtain ⟨blanks, hfront, hblanks⟩ := Url.front_eq_cleaned_append base
    rw [← hsplit] at hfront
    exact .inl ⟨blanks, hblanks, hfront, by rw [← hsplit, stem]⟩
  | cons c slashes =>
    rw [htake] at hsplit hslashes
    obtain ⟨hc, htail⟩ := List.forall_mem_cons.1 hslashes
    subst hc
    have hvisible : ∀ x ∈ '/' :: slashes, isBlank x = false := by
      intro x hx
      rw [hslashes x hx]
      rfl
    have hcleaned := Url.cleaned_append hsplit.symm hvisible
    refine .inr ⟨slashes, htail, hcleaned, ?_⟩
    rw [← hsplit, Url.front_append hvisible, hcleaned]

/-- Bases that leave their hosts to what follows them. -/
inductive Unfinished (base : String) : Prop
  /-- Nothing but slashes stand behind a web scheme. -/
  | slashes {scheme : String} {rest : List Char}
      (web : kind scheme = .web) (text : scheme? (front base.toList) = some (scheme, rest))
      (slashes : ∀ c ∈ rest, isSlash true c = true)
  /-- Nothing but control characters, which are cut off where a base stands alone, stand behind the
  credentials of a scheme that takes them for a host. -/
  | controls {scheme : String} {rest blanks : List Char}
      (other : kind scheme = .other) (text : scheme? (cleaned base) = some (scheme, rest))
      (user : EndsInUser rest) (cut : front base.toList = cleaned base ++ blanks)
      (nonempty : blanks ≠ []) (controls : ∀ x ∈ blanks, 0 < x.toNat ∧ x.toNat < 0x20)

/-- Something but slashes stands behind the web scheme of a base that leaves nothing open. -/
theorem exists_host (hfinished : ¬ Unfinished base) (hweb : kind scheme = .web)
    (htext : scheme? (front base.toList) = some (scheme, rest)) :
    ∃ c ∈ rest, isSlash true c = false := by
  by_contra hslashes
  push Not at hslashes
  simp only [ne_eq, Bool.not_eq_false] at hslashes
  exact hfinished (.slashes hweb htext hslashes)

/-! ## Where the duties go -/

variable [Tables]

/-- Where the duties of a base go, as is told by the first name of their paths. -/
def target (base : String) : Except UrlFault Site :=
  match scheme? (stem base) with
  | some (scheme, rest) => siteOf (kind scheme) scheme (rest ++ '/' :: ['e', 't', 'h'])
  | none => throw .relative

theorem target_of_scheme (h : scheme? (stem base) = some (scheme, rest)) :
    target base = siteOf (kind scheme) scheme (rest ++ '/' :: ['e', 't', 'h']) := by
  rw [target, h]

theorem target_of_no_scheme (h : scheme? (stem base) = none) : target base = .error .relative := by
  rw [target, h]
  rfl

theorem siteOf_append_path (k : Kind) (scheme : String) (rest ys : List Char) :
    siteOf k scheme (rest ++ '/' :: 'e' :: 't' :: 'h' :: '/' :: ys) =
      siteOf k scheme (rest ++ '/' :: ['e', 't', 'h']) := by
  have hsplit : rest ++ '/' :: 'e' :: 't' :: 'h' :: '/' :: ys =
      rest ++ '/' :: ['e', 't', 'h'] ++ '/' :: ys := by simp
  rw [hsplit]
  by_cases hk : k = .web
  · subst hk
    exact Url.siteOf_web_append_slash ⟨'e', by simp, rfl⟩ ys
  · exact Url.siteOf_append_slash hk (by simp) scheme ys

/-- **All duties of a base go to one place.** -/
theorem parse_urlText_site (base : String) (d : Duty) :
    (Url.parse (urlText base d)).map site = target base := by
  obtain ⟨ys, hpath⟩ := path_eq d
  rw [Url.parse_site, cleaned_urlText, hpath, Url.scheme?_append (Url.leavesScheme_slash _)]
  cases hscheme : scheme? (stem base) with
  | none => rw [target_of_no_scheme hscheme]; rfl
  | some found => exact (siteOf_append_path ..).trans (target_of_scheme hscheme).symm

theorem parse_of_scheme (h : scheme? (cleaned base) = some (scheme, rest)) :
    (Url.parse base).map site = siteOf (kind scheme) scheme rest := by
  rw [Url.parse_site, h]

/-- Where the duties of a base may go. -/
inductive Faithful (base : String) : Prop
  | nowhere {fault : UrlFault} (none : target base = .error fault)
  | there (same : target base = (Url.parse base).map site)
  /-- A base whose scheme makes no requests. -/
  | silent {u : Url} (accepted : Url.parse base = .ok u)
      (mute : ∀ s, target base = .ok s → kind s.scheme ≠ .web)

theorem kind_of_target {s : Site} (h : scheme? (stem base) = some (scheme, rest))
    (htarget : target base = .ok s) : kind s.scheme = kind scheme := by
  rw [target_of_scheme h] at htarget
  rw [Url.siteOf_scheme htarget]

theorem faithful_of_blanks {blanks : List Char} (hfinished : ¬ Unfinished base)
    (hblanks : ∀ x ∈ blanks, isBlank x = true) (hstem : stem base = cleaned base ++ blanks)
    (hfront : front base.toList = stem base) : Faithful base := by
  have happend := Url.scheme?_append (Url.leavesScheme_blanks hblanks) (cleaned base)
  rw [← hstem] at happend
  cases hscheme : scheme? (cleaned base) with
  | none =>
    rw [hscheme] at happend
    exact .nowhere (target_of_no_scheme happend)
  | some found =>
    obtain ⟨scheme, rest⟩ := found
    rw [hscheme, Option.map_some] at happend
    have hbase := parse_of_scheme hscheme
    have htarget := target_of_scheme happend
    by_cases hweb : kind scheme = .web
    · rw [hweb] at hbase htarget
      by_cases hne : blanks = []
      · -- without blanks the whole base stands in front of the path
        subst hne
        rw [List.append_nil] at happend htarget
        have hhost := exists_host hfinished hweb (hfront ▸ happend)
        exact .there (by rw [htarget, hbase, Url.siteOf_web_append_slash hhost])
      · rcases Url.siteOf_web_append_blanks hne hblanks ['e', 't', 'h'] with hsame | ⟨fault, hfault⟩
        · exact .there (by rw [htarget, hbase, hsame])
        · exact .nowhere (by rw [htarget, hfault])
    · cases hparse : Url.parse base with
      | ok u => exact .silent hparse fun s hs => by rwa [kind_of_target happend hs]
      | error fault =>
        rw [hparse] at hbase
        rcases Url.siteOf_append_blanks hweb hblanks hbase.symm ['e', 't', 'h'] with
          ⟨fault, hfault⟩ | ⟨hother, huser, hne, hcontrols⟩
        · exact .nowhere (by rw [htarget, hfault])
        · exact absurd (.controls hother hscheme huser (hfront.trans hstem) hne hcontrols) hfinished

theorem faithful_of_slashes {slashes : List Char} (hfinished : ¬ Unfinished base)
    (hslashes : ∀ c ∈ slashes, c = '/') (hcleaned : cleaned base = stem base ++ '/' :: slashes)
    (hfront : front base.toList = cleaned base) : Faithful base := by
  have happend := Url.scheme?_append (Url.leavesScheme_slash slashes) (stem base)
  rw [← hcleaned] at happend
  cases hscheme : scheme? (stem base) with
  | none => exact .nowhere (target_of_no_scheme hscheme)
  | some found =>
    obtain ⟨scheme, rest⟩ := found
    rw [hscheme, Option.map_some] at happend
    have hbase := parse_of_scheme happend
    have htarget := target_of_scheme hscheme
    by_cases hweb : kind scheme = .web
    · rw [hweb] at hbase htarget
      have hhost : ∃ c ∈ rest, isSlash true c = false := by
        obtain ⟨c, hc, hother⟩ := exists_host hfinished hweb (hfront ▸ happend)
        have hslash : c ∉ '/' :: slashes := by
          intro hmem
          obtain rfl : c = '/' := by simpa [or_iff_left_of_imp (hslashes c)] using hmem
          cases hother
        exact ⟨c, (List.mem_append.1 hc).resolve_right hslash, hother⟩
      refine .there ?_
      rw [htarget, hbase, Url.siteOf_web_append_slash hhost, Url.siteOf_web_append_slash hhost]
    · cases hparse : Url.parse base with
      | ok u => exact .silent hparse fun s hs => by rwa [kind_of_target hscheme hs]
      | error fault =>
        rw [hparse] at hbase
        have hlong := Url.siteOf_slashes hweb hslashes hbase.symm
        refine .there ?_
        rw [htarget, hparse, hbase, Url.siteOf_append_slash hweb hlong,
          Url.siteOf_append_slash hweb hlong]

/-- **The duties of a base go where it points, unless it leaves its host open.** -/
theorem faithful_of_finished (h : ¬ Unfinished base) : Faithful base := by
  rcases stem_cases base with
    ⟨blanks, hblanks, hstem, hfront⟩ | ⟨slashes, hslashes, hcleaned, hfront⟩
  · exact faithful_of_blanks h hblanks hstem hfront
  · exact faithful_of_slashes h hslashes hcleaned hfront

/-! ## Bases that leave their hosts open -/

/-- The name is read without any table. -/
theorem ofSpecial_eth : Host.ofSpecial ['e', 't', 'h'] = .ok (.domain "eth") := by
  have hname : Utf8.decode? (Percent.decode ['e', 't', 'h']) = some "eth" := by decide +kernel
  have hascii : Host.ascii? "eth".toList = some ['e', 't', 'h'] := by
    rw [Host.ascii?, if_pos (by decide +kernel)]
    decide +kernel
  rw [Host.ofSpecial, if_neg (by decide), hname]
  dsimp only
  rw [if_neg (by decide +kernel), hascii]
  decide +kernel

theorem siteOf_eth (scheme : String) :
    siteOf .web scheme ('/' :: ['e', 't', 'h']) = .ok ⟨scheme, some (.domain "eth"), none⟩ := by
  have hauthority : Url.upToPath true (('/' :: ['e', 't', 'h']).dropWhile (isSlash true)) =
      ['e', 't', 'h'] := by decide
  have hpoint : Url.hostAndPort scheme true ['e', 't', 'h'] =
      (Url.host? true ['e', 't', 'h']).map fun host => (host, none) :=
    Url.hostAndPort_of_no_port rfl
  rw [Url.siteOf_web, hauthority, hpoint, Url.host?, if_neg (by decide), if_pos rfl, ofSpecial_eth]
  rfl

/-- Behind nothing but slashes, the first name of a path is the host. -/
theorem target_of_slashes (hweb : kind scheme = .web)
    (htext : scheme? (front base.toList) = some (scheme, rest))
    (hslashes : ∀ c ∈ rest, isSlash true c = true) :
    target base = .ok ⟨scheme, some (.domain "eth"), none⟩ := by
  have hstem : ∃ r, scheme? (stem base) = some (scheme, r) ∧ ∀ c ∈ r, isSlash true c = true := by
    rcases stem_cases base with ⟨-, -, -, hfront⟩ | ⟨slashes, -, hcleaned, hfront⟩
    · exact ⟨rest, hfront ▸ htext, hslashes⟩
    · rw [hfront, hcleaned] at htext
      obtain ⟨r, hr, rfl⟩ := Url.scheme?_of_append (Url.leavesScheme_slash slashes) htext
      exact ⟨r, hr, fun c hc => hslashes c (List.mem_append_left _ hc)⟩
  obtain ⟨r, hr, hall⟩ := hstem
  rw [target_of_scheme hr, hweb, Url.siteOf_web_slashes_append hall, siteOf_eth]

theorem parse_of_slashes (hweb : kind scheme = .web)
    (htext : scheme? (front base.toList) = some (scheme, rest))
    (hslashes : ∀ c ∈ rest, isSlash true c = true) : Url.parse base = .error .emptyHost := by
  obtain ⟨blanks, hfront, hblanks⟩ := Url.front_eq_cleaned_append base
  rw [hfront] at htext
  obtain ⟨r, hr, rfl⟩ := Url.scheme?_of_append (Url.leavesScheme_blanks hblanks) htext
  refine Url.parse_of_site_error ?_
  rw [parse_of_scheme hr, hweb]
  exact Url.siteOf_web_slashes (fun c hc => hslashes c (List.mem_append_left _ hc)) scheme

/-- A base that leaves its host open is no URL, but the URLs of its duties are. -/
theorem Unfinished.parse (h : Unfinished base) :
    Url.parse base = .error .emptyHost ∧ ∃ s, target base = .ok s := by
  cases h with
  | slashes hweb htext hslashes =>
    exact ⟨parse_of_slashes hweb htext hslashes, _, target_of_slashes hweb htext hslashes⟩
  | @controls scheme rest blanks hother htext huser hcut hne hcontrols =>
    have hbase := parse_of_scheme htext
    rw [hother, Url.siteOf_of_endsInUser huser] at hbase
    have hstem : stem base = cleaned base ++ blanks := by
      rcases stem_cases base with ⟨-, -, -, hfront⟩ | ⟨slashes, -, -, hfront⟩
      · exact hfront.symm.trans hcut
      · rw [hfront, List.self_eq_append_right] at hcut
        exact absurd hcut hne
    have hblanks : ∀ x ∈ blanks, isBlank x = true :=
      fun x hx => decide_eq_true (hcontrols x hx).2.le
    have happend := Url.scheme?_append (Url.leavesScheme_blanks hblanks) (cleaned base)
    rw [← hstem, htext] at happend
    obtain ⟨there, hthere⟩ := Url.siteOf_append_controls huser hne hcontrols scheme ['e', 't', 'h']
    exact ⟨Url.parse_of_site_error hbase, there, by rw [target_of_scheme happend, hother, hthere]⟩

end BeaconReplay.Rest
