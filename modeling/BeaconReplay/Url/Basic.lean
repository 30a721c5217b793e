import BeaconReplay.Url.Host

/-!
# Absolute URLs

A URL is read without a base. For the special schemes a backslash counts as a slash, any number of
slashes may stand behind the scheme, and a host is needed. Dot segments of a path are resolved,
and characters that may not stand in a path or a query are escaped.
-/
namespace BeaconReplay

/-- An absolute URL without its credentials and its fragment. -/
structure Url where
  scheme : String
  host : Option Host
  /-- The port, if one is given that is not the default of the scheme. -/
  port : Option Nat
  path : String
  query : Option String
  deriving DecidableEq, Repr

namespace Url

/-- The kinds of schemes. -/
inductive Kind where
  | web
  | file
  | other
  deriving DecidableEq, Repr

/-- The kind of a scheme. -/
def kind (scheme : String) : Kind :=
  if ["http", "https", "ws", "wss", "ftp"].contains scheme then .web
  else if scheme = "file" then .file
  else .other

/-- The port that a scheme uses where none is given. -/
def defaultPort? : String → Option Nat
  | "http" => some 80
  | "ws" => some 80
  | "https" => some 443
  | "wss" => some 443
  | "ftp" => some 21
  | _ => none

/-- Whether a character ends the part of a URL in front of the path. -/
def endsAuthority (special : Bool) (c : Char) : Bool :=
  c == '/' || c == '?' || c == '#' || (special && c == '\\')

/-- Whether a character separates segments of a path. -/
def isSlash (special : Bool) (c : Char) : Bool := c == '/' || (special && c == '\\')

/-- A text without blank and control characters at its ends and without tabs and breaks. -/
def cleaned (s : String) : List Char :=
  let isBlank (c : Char) : Bool := c.toNat ≤ 0x20
  let trimmed := ((s.toList.dropWhile isBlank).reverse.dropWhile isBlank).reverse
  trimmed.filter fun c => c != '\t' && c != '\n' && c != '\r'

/-- Whether a character is an ASCII letter. -/
def isLetter (c : Char) : Bool := ('a' ≤ c && c ≤ 'z') || ('A' ≤ c && c ≤ 'Z')

/-- Whether a character may stand in a scheme. -/
def isSchemeChar (c : Char) : Bool :=
  isLetter c || ('0' ≤ c && c ≤ '9') || c == '+' || c == '-' || c == '.'

/-- The scheme of a text and what follows its colon. -/
def scheme? (cs : List Char) : Option (String × List Char) :=
  match cs with
  | [] => none
  | c :: _ =>
    if isLetter c then
      match cs.span isSchemeChar with
      | (name, ':' :: rest) => some (String.ofList (name.map Char.toLower), rest)
      | _ => none
    else none

/-- What follows the last at sign of a text, and whether there is one. -/
def behindCredentials (cs : List Char) : Bool × List Char :=
  ((cs.contains '@'), (cs.reverse.takeWhile (· != '@')).reverse)

/-- The host in front of a port: a colon inside brackets does not end it. -/
def splitHost : Bool → List Char → List Char × List Char
  | _, [] => ([], [])
  | bracketed, c :: cs =>
    if c = ':' && !bracketed then ([], c :: cs)
    else
      let (host, rest) := splitHost (c = '[' || (bracketed && c ≠ ']')) cs
      (c :: host, rest)

/-- The port behind a host: nothing, or a colon with any number of digits. -/
def readPort (scheme : String) : List Char → Except UrlFault (Option Nat)
  | ':' :: ds =>
    match Host.digits? 10 ds with
    | none => throw .invalidPort
    | some n =>
      if 65535 < n then throw .invalidPort
      else if ds.isEmpty || defaultPort? scheme = some n then pure none
      else pure (some n)
  | _ => pure none

/-- Whether a segment stands for the directory itself. -/
def isSingleDot (cs : List Char) : Bool :=
  cs = ['.'] || cs.map Char.toLower = ['%', '2', 'e']

/-- Whether a segment stands for the parent directory. -/
def isDoubleDot (cs : List Char) : Bool :=
  let low := cs.map Char.toLower
  low = ['.', '.'] || low = ['.', '%', '2', 'e'] || low = ['%', '2', 'e', '.']
    || low = ['%', '2', 'e', '%', '2', 'e']

/-- The segments between slashes; `acc` is the one at hand in reverse. -/
def segmentsFrom (special : Bool) (acc : List Char) : List Char → List (List Char)
  | [] => [acc.reverse]
  | c :: cs =>
    if isSlash special c then acc.reverse :: segmentsFrom special [] cs
    else segmentsFrom special (c :: acc) cs

/-- Segments with the dots resolved; `done` holds the ones before in reverse. -/
def resolve : List (List Char) → List (List Char) → List (List Char)
  | done, [] => done.reverse
  | done, seg :: rest =>
    if isDoubleDot seg then resolve (if rest.isEmpty then [] :: done.drop 1 else done.drop 1) rest
    else if isSingleDot seg then resolve (if rest.isEmpty then [] :: done else done) rest
    else resolve (Percent.encode Percent.inPath seg :: done) rest

/-- The path of a text that is empty or starts with a slash. -/
def readPath (special : Bool) (cs : List Char) : List Char :=
  match cs with
  | [] => if special then ['/'] else []
  | _ :: rest => (resolve [] (segmentsFrom special [] rest)).flatMap ('/' :: ·)

/-- Path and query of what follows the host; a fragment is dropped. -/
def pathAndQuery (special : Bool) (cs : List Char) : String × Option String :=
  let (front, rest) := cs.span fun c => c != '?' && c != '#'
  let query := match rest with
    | '?' :: q =>
      some (String.ofList (Percent.encode Percent.inQuery (q.takeWhile (· != '#'))))
    | _ => none
  let front := match front with
    | [] => []
    | c :: _ => if isSlash special c then front else '/' :: front
  (String.ofList (readPath special front), query)

/-- A URL behind its scheme and the slashes in front of its host. -/
def ofAuthority [Tables] (scheme : String) (special : Bool) (cs : List Char) :
    Except UrlFault Url := do
  let (authority, rest) := cs.span fun c => !endsAuthority special c
  let (credentials, hostAndPort) := behindCredentials authority
  let (host, portText) := splitHost false hostAndPort
  if host.isEmpty && (special || credentials || !portText.isEmpty) then throw .emptyHost
  else
    let host ← if host.isEmpty then pure none
      else if special then (Host.ofSpecial host).map some
      else (Host.ofOther host).map some
    let port ← readPort scheme portText
    let (path, query) := pathAndQuery special rest
    pure ⟨scheme, host, port, path, query⟩

/-- A URL of a file behind its scheme: its host, if there is one, has no port. -/
def ofFile [Tables] (cs : List Char) : Except UrlFault Url := do
  match cs with
  | a :: b :: rest =>
    if isSlash true a && isSlash true b then
      let (host, rest) := rest.span fun c => !endsAuthority true c
      let host ← if host.isEmpty then pure none else (Host.ofSpecial host).map some
      let (path, query) := pathAndQuery true rest
      pure ⟨"file", host, none, path, query⟩
    else
      let (path, query) := pathAndQuery true cs
      pure ⟨"file", none, none, path, query⟩
  | _ =>
    let (path, query) := pathAndQuery true cs
    pure ⟨"file", none, none, path, query⟩

/-- A URL of any other scheme behind that scheme. -/
def ofOther [Tables] (scheme : String) (cs : List Char) : Except UrlFault Url :=
  match cs with
  | '/' :: '/' :: rest => ofAuthority scheme false rest
  | cs =>
    let (path, query) := pathAndQuery false cs
    pure ⟨scheme, none, none, path, query⟩

/-- Read a URL. -/
def parse [Tables] (s : String) : Except UrlFault Url :=
  match scheme? (cleaned s) with
  | none => throw .relative
  | some (scheme, rest) =>
    match kind scheme with
    | .web => ofAuthority scheme true (rest.dropWhile (isSlash true))
    | .file => ofFile rest
    | .other => ofOther scheme rest

/-- The port to connect to. -/
def effectivePort? (u : Url) : Option Nat := u.port.orElse fun _ => defaultPort? u.scheme

/-- What a request asks the host for: path and query. -/
def target (u : Url) : String :=
  match u.query with
  | some q => u.path ++ "?" ++ q
  | none => u.path

end Url

end BeaconReplay
