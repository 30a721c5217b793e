import BeaconReplay.Client.Rest
import BeaconReplay.Client.Rpc

/-!
# The selected backend

A connection offers what either backend may be built from, and the flags select one. Only what
that backend needs is read from the connection.
-/
namespace BeaconReplay

/-- What a backend may be built from; `κ` is a handle on an RPC channel. -/
structure Connection (κ : Type) where
  url : String
  /-- The time that a REST request may take, in milliseconds. -/
  timeout : Nat
  channel : κ

namespace Connection

/-- The time that a REST request may take unless another one is set. -/
def defaultTimeout : Nat := 10000

/-- A connection around a channel, without a REST backend. -/
def new {κ : Type} (channel : κ) : Connection κ := ⟨"", defaultTimeout, channel⟩

/-- A connection with a REST backend. -/
def withRest {κ : Type} (c : Connection κ) (url : String) (timeout : Nat) : Connection κ :=
  { c with url := url, timeout := timeout }

end Connection

/-- A part of a connection that is read. -/
inductive Access where
  | url
  | timeout
  | channel
  deriving DecidableEq, Repr

/-- A selected backend. -/
inductive Client (κ : Type) where
  | rest (base : String) (timeout : Nat)
  | rpc (channel : κ)

namespace Client

variable {κ : Type}

/-- The name of a backend. -/
def backend : Client κ → String
  | rest _ _ => "rest"
  | rpc _ => "rpc"

/-- Select a backend, with what is read from the connection. -/
def select (flags : Flags) (c : Connection κ) : Client κ × List Access :=
  if flags.enableBeaconRestApi then (rest c.url c.timeout, [.url, .timeout])
  else (rpc c.channel, [.channel])

end Client

/-- Both sides that a client may talk to. -/
structure Peers where
  channel : Rpc.Channel
  server : Http.Server

namespace Client

variable {κ : Type}

/-- Ask a node. -/
def call [Tables] (client : Client κ) (d : Duty) (p : Peers) : Exchange × Peers :=
  match client with
  | rest base _ =>
    let (exchange, server) := Rest.call base d p.server
    (exchange, { p with server := server })
  | rpc _ =>
    let (exchange, channel) := Rpc.call d p.channel
    (exchange, { p with channel := channel })

/-- Ask a node several duties, one after the other. -/
def calls [Tables] (client : Client κ) : List Duty → Peers → List Exchange × Peers
  | [], p => ([], p)
  | d :: ds, p =>
    let (e, p) := client.call d p
    let (es, p) := calls client ds p
    (e :: es, p)

end Client

end BeaconReplay
