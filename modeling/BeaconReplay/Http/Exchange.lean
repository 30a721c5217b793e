import BeaconReplay.Http.Charset
import BeaconReplay.Url.Basic

/-!
# Requests and answers

A request goes to an origin and asks for a target. A server answers requests from a list; when
the list is used up, and at every other origin, connections are refused. An answer may redirect to
another URL, which is asked next, up to ten times in a row.
-/
namespace BeaconReplay.Http

/-- Where a request goes. -/
structure Origin where
  scheme : String
  host : Host
  port : Nat
  deriving DecidableEq, Repr

/-- A request for a target. -/
structure Request where
  origin : Origin
  target : String
  deriving DecidableEq, Repr

/-- Why there is no answer, or no whole one. -/
inductive Fault where
  | timeout
  /-- No request can be made of a URL. -/
  | builder
  | connect
  | body
  | request
  /-- One redirection too many. -/
  | redirect
  deriving DecidableEq, Repr

/-- The name of a fault. -/
def Fault.name : Fault → String
  | timeout => "timeout"
  | builder => "builder"
  | connect => "connect"
  | body => "body"
  | request => "request"
  | redirect => "redirect"

/-- An answer as it is sent. -/
structure Response where
  status : Nat
  body : List UInt8
  contentType : Option String
  contentLength : Option Nat
  /-- The URL that the answer points to, seen from the one that was asked for. -/
  location : Option Url

namespace Response

/-- Whether the status says that all went well. -/
def isSuccess (r : Response) : Bool := 200 ≤ r.status && r.status < 300

/-- The body as it arrives; nothing if it ends too early. -/
def received (r : Response) : Option (List UInt8) :=
  if r.status = 204 || r.status = 304 then some []
  else
    match r.contentLength with
    | some n => if r.body.length < n then none else some (r.body.take n)
    | none => some r.body

/-- The statuses that send a client elsewhere. -/
def redirections : List Nat := [301, 302, 303, 307, 308]

/-- The URL to ask instead. -/
def redirect? (r : Response) : Option Url :=
  if redirections.contains r.status then r.location else none

end Response

/-- What a server does with a request. -/
inductive Answer where
  | respond (response : Response)
  /-- Close the connection without a word. -/
  | close
  /-- Never answer. -/
  | hang

/-- A server with what it does with the requests to come. -/
structure Server where
  origin : Origin
  answers : List Answer

/-- The request that a URL makes. -/
def Request.ofUrl? (u : Url) : Option Request :=
  match u.host, u.effectivePort? with
  | some host, some port =>
    if u.scheme = "http" || u.scheme = "https" then some ⟨⟨u.scheme, host, port⟩, u.target⟩
    else none
  | _, _ => none

namespace Server

/-- The response to a request, and the server behind it. The flag says whether the request has
arrived. -/
def send (s : Server) (r : Request) : Except Fault Response × Bool × Server :=
  if r.origin ≠ s.origin then (.error .connect, false, s)
  else
    match s.answers with
    | [] => (.error .connect, false, s)
    | .respond response :: rest => (.ok response, true, { s with answers := rest })
    | .close :: rest => (.error .request, true, { s with answers := rest })
    | .hang :: rest => (.error .timeout, true, { s with answers := rest })

/-- The number of redirections that are followed in a row. -/
def redirectLimit : Nat := 10

/-- The response to a request behind at most `limit` redirections, the requests that have arrived
on the way, and the server behind them. -/
def get (limit : Nat) (s : Server) (r : Request) : Except Fault Response × List Request × Server :=
  let (answer, arrived, s) := s.send r
  let seen := if arrived then [r] else []
  match answer with
  | .error fault => (.error fault, seen, s)
  | .ok response =>
    match response.redirect?, limit with
    | none, _ => (.ok response, seen, s)
    | some _, 0 => (.error .redirect, seen, s)
    | some url, limit + 1 =>
      match Request.ofUrl? url with
      | none => (.error .builder, seen, s)
      | some next =>
        let (answer, more, s) := s.get limit next
        (answer, seen ++ more, s)

end Server

end BeaconReplay.Http
