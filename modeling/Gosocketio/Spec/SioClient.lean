import Gosocketio.Spec.Server

/-! The Socket.IO client (`socketio/client.go`): its namespaces, the calls of
`connectNsp` that wait for a reply, and its Engine.IO client. A definition is one
critical section of `c.mu`, with the sends to channels and the handlers it leads to.
Event handlers, acknowledgements and log lines are left out here. -/

namespace Gosocketio

/-- The identity of an `engineio.Client` that was dialed. -/
abbrev DialId := ℕ

abbrev ChanId := ℕ

structure NsClient where
  connected : Bool := false
  sid : Bytes := []
  auth : Value := .null

/-- What an `engineio.Client` reports when its session ends: nil for a close packet,
a missed ping, or another error. -/
inductive Drop where
  | close
  | heartbeat
  | error
  deriving DecidableEq, Repr

/-- An error that `connectNsp` returns: the text of a CONNECT_ERROR, or one of the
engine. -/
inductive Failure where
  | refused (msg : Bytes)
  | dropped (d : Drop)
  deriving DecidableEq

def Drop.err : Drop → Option Failure
  | .close => none
  | d => some (.dropped d)

def mapClientDisconnectReason : Drop → String
  | .close => "transport close"
  | .heartbeat => "ping timeout"
  | .error => "transport error"

/-- Handlers of the application, which run on goroutines of their own. -/
inductive Handler where
  | connect (nsp : Bytes)
  | connectError (nsp msg : Bytes)
  | disconnect (nsp : Bytes) (reason : String)
  deriving DecidableEq

def Handler.isConnect : Handler → Bool
  | .connect _ => true
  | _ => false

/-- `Client`. `chans` is what has been sent to each channel, and `started` the
handlers called so far, those of a namespace counted once. -/
structure SioClient where
  engine : Option DialId := none
  nsps : AList (fun _ : Bytes => NsClient) := ∅
  connecting : AList (fun _ : Bytes => ChanId) := ∅
  closed : Bool := false
  chans : ChanId → Option (Option Failure) := fun _ => none
  started : List Handler := []

def connectionRejected : Bytes :=
  [115, 111, 99, 107, 101, 116, 105, 111, 58, 32, 99, 111, 110, 110, 101, 99, 116, 105, 111, 110,
    32, 114, 101, 106, 101, 99, 116, 101, 100]

/-- A string under a key of a payload, if the payload is a map with one. -/
def stringField (key : Bytes) : Value → Option Bytes
  | .obj kvs => match Value.lookup kvs key with
    | .str s => some s
    | _ => none
  | _ => none

namespace SioClient

variable (C : SioClient)

def Connected (nsp : Bytes) : Bool := (C.nsps.lookup nsp).any NsClient.connected

def ID (nsp : Bytes) : Bytes := ((C.nsps.lookup nsp).map NsClient.sid).getD []

/-- `nc := c.nsps[nsp]`, changed if it is not nil. -/
def modifyNsp (nsp : Bytes) (f : NsClient → NsClient) : SioClient :=
  match C.nsps.lookup nsp with
  | none => C
  | some nc => { C with nsps := C.nsps.insert nsp (f nc) }

def start (hs : List Handler) : SioClient := { C with started := C.started ++ hs }

/-- The channels hold one value; a call that waits on one receives it once. -/
def send (ch : ChanId) (r : Option Failure) : SioClient :=
  { C with chans := Function.update C.chans ch (some r) }

/-- `connectNsp` before it sends its packet. -/
def await (nsp : Bytes) (data : Value) (ch : ChanId) : SioClient :=
  let nc := (C.nsps.lookup nsp).getD {}
  { C with
    nsps := C.nsps.insert nsp { nc with connected := false, auth := data }
    connecting := C.connecting.insert nsp ch }

def abandon (nsp : Bytes) : SioClient := { C with connecting := C.connecting.erase nsp }

def handleConnect (pkt : Packet) : SioClient :=
  let C' := match C.connecting.lookup pkt.nsp with
    | none => C
    | some ch =>
      let C := C.abandon pkt.nsp
      let C := C.modifyNsp pkt.nsp fun nc =>
        { nc with connected := true, sid := (stringField Server.sidKey pkt.data).getD nc.sid }
      C.send ch none
  -- they are started after the section; `ProcessLoop` takes the two apart
  C'.start [.connect pkt.nsp]

def handleConnectError (pkt : Packet) : SioClient :=
  let msg := (stringField Server.messageKey pkt.data).getD []
  let err := if msg ≠ [] then msg else connectionRejected
  let C' := match C.connecting.lookup pkt.nsp with
    | none => C
    | some ch => (C.abandon pkt.nsp).send ch (some (.refused err))
  (C'.modifyNsp pkt.nsp fun nc => { nc with connected := false }).start [.connectError pkt.nsp err]

/-- `handleDisconnect` and `DisconnectNamespace`: only a connected namespace calls
its handlers. -/
def leave (nsp : Bytes) : SioClient := C.modifyNsp nsp fun nc => { nc with connected := false }

def handleDisconnect (pkt : Packet) : SioClient :=
  (C.leave pkt.nsp).start
    (if C.Connected pkt.nsp then [.disconnect pkt.nsp "io server disconnect"] else [])

def leaveAll : SioClient :=
  { C with nsps := ⟨C.nsps.entries.map fun e => ⟨e.1, { e.2 with connected := false }⟩,
      List.NodupKeys.map₂ (fun _ nc => { nc with connected := false }) _ C.nsps.nodupKeys⟩ }

def connectedNsps : List Bytes :=
  (C.nsps.entries.filter fun e => e.2.connected).map Sigma.fst

/-- `Close` after it has closed `reconnectStop`, unless it has been called before. -/
def close (order : List Bytes) : SioClient :=
  { C.leaveAll with closed := true, engine := none }.start
    (order.map fun nsp => .disconnect nsp "io client disconnect")

/-- `dialEngine` when the Engine.IO client is there. -/
def store (e : DialId) : SioClient := { C with engine := some e }

/-- The deferred section of a `reconnectAttempt` that failed. -/
def dropEngine : SioClient := { C with engine := none }

/-- `onEngineClosed` up to `reconnect`. Every call that waits is told. -/
def onEngineClosed (d : Drop) (order : List Bytes) : SioClient :=
  let C' := C.connecting.entries.foldl (fun C e => C.send e.2 d.err) C
  { C'.leaveAll with connecting := ∅, engine := none }.start
    (order.map fun nsp => .disconnect nsp (mapClientDisconnectReason d))

end SioClient

end Gosocketio
