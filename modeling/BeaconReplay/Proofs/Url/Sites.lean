import BeaconReplay.Proofs.Result
import BeaconReplay.Url.Basic

/-!
# Where a URL points

A URL points to a host and a port under a scheme. They are told by the text between the slashes
behind the scheme and the path, so nothing that stands behind that text has a say in them.
-/
namespace BeaconReplay.Url

/-- Scheme, host and port of a URL. -/
structure Site where
  scheme : String
  host : Option Host
  port : Option Nat
  deriving DecidableEq

/-- Where a URL points. -/
def site (u : Url) : Site := ⟨u.scheme, u.host, u.port⟩

/-- The text up to the path. -/
def upToPath (special : Bool) (cs : List Char) : List Char :=
  cs.takeWhile fun c => !endsAuthority special c

/-- The text that tells host and port where two slashes announce it. -/
def announced? (special : Bool) : List Char → Option (List Char)
  | a :: b :: rest =>
    if isSlash special a && isSlash special b then some (upToPath special rest) else none
  | _ => none

/-- The text that tells host and port; a web scheme takes any number of slashes. -/
def authority? (k : Kind) (rest : List Char) : Option (List Char) :=
  match k with
  | .web => some (upToPath true (rest.dropWhile (isSlash true)))
  | .file => announced? true rest
  | .other => announced? false rest

theorem eq_file_of_kind {scheme : String} (h : kind scheme = .file) : scheme = "file" := by
  unfold kind at h
  split_ifs at h with hweb hfile
  exact hfile

theorem isSlash_false {c : Char} : isSlash false c = true ↔ c = '/' := by simp [isSlash]

variable [Tables]

/-- The host of a text, if the text is not empty. -/
def host? (special : Bool) (cs : List Char) : Except UrlFault (Option Host) :=
  if cs.isEmpty then pure none
  else if special then (Host.ofSpecial cs).map some
  else (Host.ofOther cs).map some

/-- Host and port of a text with credentials, host and port. -/
def hostAndPort (scheme : String) (special : Bool) (authority : List Char) :
    Except UrlFault (Option Host × Option Nat) :=
  let (credentials, cs) := behindCredentials authority
  let (host, portText) := splitHost false cs
  if host.isEmpty && (special || credentials || !portText.isEmpty) then throw .emptyHost
  else do
    let host ← host? special host
    let port ← readPort scheme portText
    pure (host, port)

/-- Host and port of the text that tells them; a file has no port. -/
def endpoint (k : Kind) (scheme : String) (authority : List Char) :
    Except UrlFault (Option Host × Option Nat) :=
  match k with
  | .web => hostAndPort scheme true authority
  | .file => (host? true authority).map fun host => (host, none)
  | .other => hostAndPort scheme false authority

/-- Where a text behind its scheme points. -/
def siteOf (k : Kind) (scheme : String) (rest : List Char) : Except UrlFault Site :=
  match authority? k rest with
  | some authority => (endpoint k scheme authority).map fun e => ⟨scheme, e.1, e.2⟩
  | none => pure ⟨scheme, none, none⟩

theorem ofAuthority_site (scheme : String) (special : Bool) (cs : List Char) :
    (ofAuthority scheme special cs).map site =
      (hostAndPort scheme special (upToPath special cs)).map fun e => ⟨scheme, e.1, e.2⟩ := by
  rw [ofAuthority, hostAndPort, upToPath, List.span_eq_takeWhile_dropWhile]
  dsimp only
  generalize behindCredentials _ = credentials
  generalize splitHost false credentials.2 = parts
  rw [host?]
  split
  · rfl
  · split
    · cases readPort scheme parts.2 <;> rfl
    · split
      · cases Host.ofSpecial parts.1 <;> cases readPort scheme parts.2 <;> rfl
      · cases Host.ofOther parts.1 <;> cases readPort scheme parts.2 <;> rfl

theorem ofFile_site (cs : List Char) : (ofFile cs).map site = siteOf .file "file" cs := by
  match cs with
  | [] => rfl
  | [a] => rfl
  | a :: b :: rest =>
    simp only [siteOf, authority?, announced?, ofFile, List.span_eq_takeWhile_dropWhile]
    split
    · simp only [endpoint, host?, upToPath]
      split
      · rfl
      · cases Host.ofSpecial (rest.takeWhile fun c => !endsAuthority true c) <;> rfl
    · rfl

theorem ofOther_site (scheme : String) (cs : List Char) :
    (ofOther scheme cs).map site = siteOf .other scheme cs := by
  rw [ofOther.eq_def]
  split
  · exact ofAuthority_site ..
  · rename_i hslashes
    have hnone : announced? false cs = none := by
      rw [announced?.eq_def]
      split
      · rename_i a b rest
        refine if_neg fun hboth => ?_
        rw [Bool.and_eq_true, isSlash_false, isSlash_false] at hboth
        obtain ⟨rfl, rfl⟩ := hboth
        exact hslashes rest rfl
      · rfl
    rw [siteOf, authority?, hnone]
    rfl

/-- **A URL points where the text behind its scheme says.** -/
theorem parse_site (s : String) : (parse s).map site =
    match scheme? (cleaned s) with
    | some (scheme, rest) => siteOf (kind scheme) scheme rest
    | none => throw .relative := by
  rw [parse]
  cases hscheme : scheme? (cleaned s) with
  | none => rfl
  | some found =>
    obtain ⟨scheme, rest⟩ := found
    dsimp only
    cases hkind : kind scheme with
    | web => exact ofAuthority_site ..
    | file =>
      cases eq_file_of_kind hkind
      exact ofFile_site rest
    | other => exact ofOther_site ..

theorem siteOf_scheme {k : Kind} {scheme : String} {rest : List Char} {s : Site}
    (h : siteOf k scheme rest = .ok s) : s.scheme = scheme := by
  rw [siteOf] at h
  cases hauthority : authority? k rest with
  | none =>
    rw [hauthority] at h
    cases h
    rfl
  | some authority =>
    rw [hauthority] at h
    obtain ⟨e, -, rfl⟩ := Result.map_eq_ok_iff.1 h
    rfl

theorem parse_of_site_error {s : String} {fault : UrlFault}
    (h : (parse s).map site = .error fault) : parse s = .error fault := by
  cases hparse : parse s with
  | ok u =>
    rw [hparse] at h
    cases h
  | error _ =>
    rw [hparse] at h
    cases h
    rfl

theorem parse_of_site_ok {s : String} {there : Site} (h : (parse s).map site = .ok there) :
    ∃ u, parse s = .ok u ∧ site u = there :=
  Result.map_eq_ok_iff.1 h

end BeaconReplay.Url
