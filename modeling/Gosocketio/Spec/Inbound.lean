import Gosocketio.Spec.Framing
import Gosocketio.Spec.Requests

/-! The way of a message to the application, on either side: `handleIn` puts the packets
together and `process` gives the events to `handleEvent`. The other packets decide which
namespaces have a socket, which `Requests` has steps of its own for. -/

namespace Gosocketio

variable {side : Side} {T V : Type} [DecidableEq T]

/-- A function of the application that `handleEvent` starts; all hooks of `OnAny` count as
one. -/
inductive Started (side : Side) (T : Type) where
  | onAny (name : Bytes) (args : List Value)
  | handler (h : side.Handler T) (name : Bytes) (args : List Value)

def Started.name : Started side T → Bytes
  | .onAny name _ | .handler _ name _ => name

/-- What was started for an event so far. Only the server has hooks. -/
def Request.started (r : Request side T) : List (Started side T) :=
  (if side = .server then [.onAny r.name r.args] else []) ++
    (r.handlers.take r.goroutines.length).map (.handler · r.name r.args)

structure Inbound (side : Side) (T : Type) where
  recon : Option Reconstructor := none
  events : Requests side T := {}

namespace Inbound

inductive Act (side : Side) (T : Type) where
  | frame (m : InPacket)
  | event (a : Requests.Act side T)

section Step

variable (J : Json) (unmarshal : GoType T → Bytes → Option V) (s : Inbound side T)

def process (recon : Option Reconstructor) : Option Packet → Option (Inbound side T)
  | none => some { s with recon }
  | some pkt =>
    if pkt.type = .event then (s.events.step J unmarshal (.receive pkt)).map ({ recon, events := · })
    else some { s with recon }

/-- One goroutine handles the messages of a connection; it takes the next one when the
packet before it is dispatched. -/
def step : Act side T → Option (Inbound side T)
  | .frame m =>
    if s.events.loop = .idle then
      let (recon, pkt) := handleIn J s.recon m
      s.process J unmarshal recon pkt
    else none
  | .event (.receive _) => none
  | .event a => (s.events.step J unmarshal a).map ({ s with events := · })

end Step

end Inbound

end Gosocketio
