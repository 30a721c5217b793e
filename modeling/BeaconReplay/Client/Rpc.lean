import BeaconReplay.Client.Duty

/-!
# The RPC backend

A duty is one unary call: a method and the bytes of a request. A channel answers calls from a
list.
-/
namespace BeaconReplay.Rpc

/-- The method of a duty. -/
def method : Duty → String
  | .genesis => "/ethereum.eth.v1alpha1.Node/GetGenesis"
  | .nodeVersion => "/ethereum.eth.v1alpha1.Node/GetVersion"
  | .syncing => "/ethereum.eth.v1alpha1.Node/GetSyncStatus"
  | .proposerDuties _ => "/ethereum.eth.v1alpha1.BeaconNodeValidator/GetProposerDuties"

/-- The request of a duty. -/
def request : Duty → List UInt8
  | .proposerDuties epoch => Wire.ProposerDutiesRequest.encode ⟨epoch⟩
  | _ => Wire.Empty.encode ⟨⟩

/-- What a channel answers to the calls to come: bytes, or an error. -/
abbrev Channel := List (Except ClientError (List UInt8))

/-- Call a method with the bytes of a request: the answer, the call that the channel has seen, and
the channel behind it. -/
def Channel.unary (c : Channel) (method : String) (request : List UInt8) :
    Except ClientError (List UInt8) × Sent × Channel :=
  match c with
  | [] => (.error (.rpc (method ++ ": unavailable")), .unary method request, [])
  | answer :: rest => (answer, .unary method request, rest)

/-- Ask a node over a channel. -/
def call (d : Duty) (c : Channel) : Exchange × Channel :=
  match c.unary (method d) (request d) with
  | (.ok bs, sent, rest) => (⟨Reply.ofMessage d bs, [sent]⟩, rest)
  | (.error e, sent, rest) => (⟨.error e, [sent]⟩, rest)

end BeaconReplay.Rpc
