import BeaconReplay.Client.Duty

/-!
# The REST backend

A duty is one request: the path of the duty behind the base URL, whose trailing slashes are
dropped.
-/
namespace BeaconReplay.Rest

/-- The path of a duty. -/
def path : Duty → String
  | .genesis => "/eth/v1/beacon/genesis"
  | .nodeVersion => "/eth/v1/node/version"
  | .syncing => "/eth/v1/node/syncing"
  | .proposerDuties epoch => "/eth/v1/validator/duties/proposer/" ++ Decimal.text epoch

/-- A base without its trailing slashes. -/
def trimmed (base : String) : String :=
  String.ofList ((base.toList.reverse.dropWhile (· == '/')).reverse)

/-- The text of the URL of a duty. -/
def urlText (base : String) (d : Duty) : String := trimmed base ++ path d

/-- The request of a duty. -/
def request [Tables] (base : String) (d : Duty) : Except ClientError Http.Request :=
  match Url.parse (urlText base d) with
  | .error fault => throw (.invalidUrl (urlText base d) fault)
  | .ok url =>
    match Http.Request.ofUrl? url with
    | some r => pure r
    | none => throw (.http .builder)

/-- The answer in a response. -/
def reply [Tables] (d : Duty) (r : Http.Response) : Except ClientError Reply :=
  if r.isSuccess then
    match r.received with
    | some body => Reply.ofBody d body
    | none => throw (.http .body)
  else
    match r.received with
    | some body => throw (.status r.status (Http.bodyText r.contentType body))
    | none => throw (.status r.status "")

/-- Ask a node at a base URL: the exchange, and the server behind it. -/
def call [Tables] (base : String) (d : Duty) (s : Http.Server) : Exchange × Http.Server :=
  match request base d with
  | .error e => (⟨.error e, []⟩, s)
  | .ok r =>
    match s.get Http.Server.redirectLimit r with
    | (.ok response, seen, s) => (⟨reply d response, seen.map .get⟩, s)
    | (.error fault, seen, s) => (⟨.error (.http fault), seen.map .get⟩, s)

end BeaconReplay.Rest
