import BeaconReplay.Http.Exchange
import BeaconReplay.Json.Source
import BeaconReplay.Wire.Message

/-!
# Duties

What a validator asks its node, what it learns, and how that can fail. The answers are read from
JSON bodies and from RPC messages. An exchange is the answer together with all that has been sent
for it.
-/
namespace BeaconReplay

/-- A question to a node. -/
inductive Duty where
  | genesis
  | nodeVersion
  | syncing
  /-- The proposers of the blocks of an epoch. -/
  | proposerDuties (epoch : UInt64)
  deriving DecidableEq, Repr

/-- The answer to a question. -/
inductive Reply where
  | genesis (genesis : Genesis)
  | version (version : String)
  | syncing (status : SyncStatus)
  | duties (duties : List ProposerDuty)
  deriving DecidableEq

/-- Why a call to a node fails. -/
inductive ClientError where
  | invalidUrl (url : String) (fault : UrlFault)
  | http (fault : Http.Fault)
  | status (code : Nat) (body : String)
  | json (fault : Fault)
  | rpc (reason : String)
  | decode (fault : Wire.WireFault)
  /-- A byte string of the wrong length. -/
  | invalidResponse (field : String) (length : Nat)
  deriving DecidableEq

namespace ClientError

/-- The wording of an error. -/
def message : ClientError → String
  | invalidUrl url fault => "invalid url " ++ url ++ ": " ++ fault.message
  | http fault => "http error: " ++ fault.name
  | status code body => "unexpected status " ++ toString code ++ ": " ++ body
  | json fault => "json error: " ++ fault.message "syntax error"
  | rpc reason => "rpc error: " ++ reason
  | decode fault => "decode error: " ++ fault.message
  | invalidResponse field length =>
    "invalid response: " ++ field ++ " has " ++ toString length ++ " bytes"

end ClientError

/-- What has been sent for a duty. -/
inductive Sent where
  | unary (method : String) (request : List UInt8)
  | get (request : Http.Request)
  deriving DecidableEq

/-- The outcome of a duty: the answer, and what has been sent for it. -/
structure Exchange where
  reply : Except ClientError Reply
  sent : List Sent

/-- The genesis parameters of a message, whose byte strings have to have the right lengths. -/
def Wire.GenesisResponse.genesis (m : Wire.GenesisResponse) : Except ClientError Genesis :=
  match Root.ofList? m.genesisValidatorsRoot, ForkVersion.ofList? m.genesisForkVersion with
  | none, _ =>
    throw (.invalidResponse "genesis_validators_root" m.genesisValidatorsRoot.length)
  | _, none => throw (.invalidResponse "genesis_fork_version" m.genesisForkVersion.length)
  | some root, some version => pure ⟨m.genesisTime, root, version⟩

namespace Json

/-- The characters of a body, of which the mistakes are none: such a byte is read as half a
surrogate pair, which no string may hold, and behind a backslash as a character that makes no
escape. The flag says whether the next character is escaped. -/
def bodyCharsFrom : Bool → List (Option Char) → List Char
  | _, [] => []
  | escaped, some c :: rest => c :: bodyCharsFrom (!escaped && c == '\\') rest
  | false, none :: rest => ['\\', 'u', 'd', '8', '0', '0', 'x'] ++ bodyCharsFrom false rest
  | true, none :: rest => '\x00' :: bodyCharsFrom false rest

/-- The characters that a body is read as. -/
def bodyChars (bs : List UInt8) : List Char := bodyCharsFrom false (Utf8.chars bs)

/-- Decode a body. -/
def decodeBody {α : Type} (read : Node → Decoded α) (bs : List UInt8) : Decoded α :=
  decodeReading read (Document.ofChars (bodyChars bs))

end Json

namespace Reply

/-- The answer in a JSON body. -/
def ofBody (d : Duty) (bs : List UInt8) : Except ClientError Reply :=
  let read {α : Type} (payload : Json.Node → Decoded α) (make : α → Reply) :
      Except ClientError Reply :=
    match Json.decodeBody (Json.source.payload payload) bs with
    | .ok a => pure (make a)
    | .error fault => throw (.json fault)
  match d with
  | .genesis => read Json.source.genesis .genesis
  | .nodeVersion => read Json.source.version .version
  | .syncing => read Json.source.syncStatus .syncing
  | .proposerDuties _ =>
    read (Json.source.list Json.source.proposerDuty) fun ds => .duties ds.toList

/-- The answer in an RPC message. -/
def ofMessage (d : Duty) (bs : List UInt8) : Except ClientError Reply :=
  match d with
  | .genesis => do
    let m ← (Wire.GenesisResponse.decode bs).mapError .decode
    let g ← m.genesis
    pure (.genesis g)
  | .nodeVersion => do
    let m ← (Wire.VersionResponse.decode bs).mapError .decode
    pure (.version m.version)
  | .syncing => do
    let m ← (Wire.SyncStatusResponse.decode bs).mapError .decode
    pure (.syncing m.status)
  | .proposerDuties _ => do
    let m ← (Wire.ProposerDutiesResponse.decode bs).mapError .decode
    pure (.duties (m.duties.map Wire.ProposerDutyMessage.duty))

end Reply

end BeaconReplay
