import Gosocketio.Spec.ClientRead
import Gosocketio.Spec.Http
import Gosocketio.Spec.Session

/-! The errors with which sessions are closed (`engineio/errors.go`), and how they come from the
decoder to `onClose`, at the server and at the client. -/

namespace Gosocketio

open Transport

/-- The sentinel errors. `transport.ErrInvalidPacket` and `engineio.ErrInvalidPacket` are two. -/
inductive Sentinel where
  | transportInvalidPacket
  | invalidPacket
  | invalidPayload
  | payloadTooLarge
  | requestOverlap
  | dataRequestActive
  | pollClosed
  | heartbeatTimeout
  deriving DecidableEq, Repr

def Sentinel.chain : Sentinel → List Sentinel
  | .invalidPacket => [.invalidPacket, .transportInvalidPacket]
  | s => [s]

/-- An error value. `wrap w e` is `fmt.Errorf("%w: %v", w, e)`, in which `e` is only printed, and
`note w text` is `fmt.Errorf("%w: text", w)`; `other` is an error of a library. -/
inductive Err where
  | sentinel (s : Sentinel)
  | unknownType (c : UInt8)
  | exceeds (size maxPayload : ℤ)
  | wrap (w : Sentinel) (shown : Err)
  | note (w : Sentinel) (text : String)
  | other
  deriving DecidableEq, Repr

def Err.chain : Err → List Sentinel
  | .sentinel s => s.chain
  | .unknownType _ => Sentinel.transportInvalidPacket.chain
  | .exceeds _ _ => Sentinel.payloadTooLarge.chain
  | .wrap w _ | .note w _ => w.chain
  | .other => []

def Err.is (err : Err) (target : Sentinel) : Bool := target ∈ err.chain

def Transport.PacketError.toErr : PacketError → Err
  | .empty => .sentinel .transportInvalidPacket
  | .corruptBase64 => .wrap .transportInvalidPacket .other
  | .unknownType c => .unknownType c

def Transport.PayloadError.toErr : PayloadError → Err
  | .tooLarge size maxPayload => .exceeds size maxPayload
  | .invalid e => .wrap .invalidPayload e.toErr

def Http.DataError.toErr : DataError → Err
  | .dataRequestActive => .sentinel .dataRequestActive
  | .contentType | .read => .other
  | .payload e => e.toErr

def wrapInvalidPacket (err : Err) : Err :=
  if err.is .transportInvalidPacket then .wrap .invalidPacket err else err

/-- What comes in at a session: a text frame of a websocket, a POST request at the server, the
answer to a poll at the client. -/
inductive Arrival where
  | frame (data : Bytes)
  | post (p : Http.DataPort) (r : Http.Request)
  | payload (body : Bytes)
  | other
  deriving DecidableEq

/-- What the transport gives to `OnError`. -/
def Arrival.error : Arrival → Option Err
  | .frame data =>
    match decodePacket data false with
    | .error e => some e.toErr
    | .ok _ => none
  | .post p r =>
    match Http.onDataRequest p r with
    | .data _ _ e => e.map Http.DataError.toErr
    | _ => none
  | .payload body => (decodePayloadWithLimit body 0).2.map PayloadError.toErr
  | .other => none

/-- An error on its way to `onClose`, where `none` is `nil`, and what it came of. -/
structure Report where
  arrival : Arrival := .other
  err : Option Err := none
  deriving DecidableEq

def Report.is (r : Report) (target : Sentinel) : Bool := r.err.any (·.is target)

def Report.wrapped (r : Report) : Report := { r with err := r.err.map wrapInvalidPacket }

namespace Engine

def Choice.internal : Choice → Bool
  | .receive _ | .garbled => false
  | _ => true

def Event.internal : Event → Bool
  | .post _ | .postError => false
  | _ => true

/-- A session of the server. `pending` is what each goroutine last had to report to `OnError`,
`closed` what `closeWithReason` has for `onClose`. -/
structure Reported where
  state : State
  pending : ℕ → Report := fun _ => {}
  closed : Option Report := none

namespace Reported

inductive Act where
  | frame (i : ℕ) (data : Bytes)
  | binary (i : ℕ) (data : Bytes)
  | post (p : Http.DataPort) (r : Http.Request)
  | go (i : ℕ) (c : Choice)
  | event (e : Event)

variable (R : Reported)

def reads (i : ℕ) : Bool :=
  match Stacks.next? R.state.tasks i with
  | some (.read _) => true
  | _ => false

def failure (i : ℕ) : Option Err :=
  match Stacks.next? R.state.tasks i with
  | some (.frames _ _) => some .other
  | some (.polling (.watch _)) => some (.sentinel .pollClosed)
  | _ => none

/-- What a goroutine calls `closeWithReason` with, if that closes the session. -/
def closing (i : ℕ) : Option Report :=
  match Stacks.next? R.state.tasks i with
  | some (.closeWithReason reason) =>
    if R.state.shared.readyState = .closed then none
    else
      some (match reason with
        | .transportError => (R.pending i).wrapped
        | .pingTimeout => { err := some (.sentinel .heartbeatTimeout) }
        | .invalidHeartbeatDirection | .clientClose | .transportClose => {})
  | _ => none

def act (a : Engine.Act) (i : ℕ) (r : Report) : Option Reported :=
  (R.state.step a).map fun state => { R with state, pending := Function.update R.pending i r }

def step : Act → Option Reported
  | .frame i data =>
    if R.reads i then
      match decodePacket data false with
      | .ok p => (R.state.step (.go i (.receive p))).map fun state => { R with state }
      | .error e => R.act (.go i .garbled) i ⟨.frame data, some e.toErr⟩
    else none
  | .binary i data =>
    if R.reads i then
      (R.state.step (.go i (.receive { type := .message, data, isBinary := true }))).map
        fun state => { R with state }
    else none
  | .post p r =>
    match Http.onDataRequest p r with
    | .data _ _ (some e) => R.act (.event .postError) R.state.tasks.length ⟨.post p r, some e.toErr⟩
    | .data _ pkts none => (R.state.step (.event (.post pkts))).map fun state => { R with state }
    | _ => none
  | .go i c =>
    if c.internal then
      (R.state.step (.go i c)).map fun state =>
        { state
          pending := (R.failure i).elim R.pending fun e => Function.update R.pending i { err := some e }
          closed := (R.closing i).or R.closed }
    else none
  | .event e =>
    if e.internal then
      if e = .poll then
        R.act (.event .poll) R.state.tasks.length { err := some (.sentinel .requestOverlap) }
      else (R.state.step (.event e)).map fun state => { R with state }
    else none

def created (direct : Bool) (data : Bytes) : Reported := { state := State.created direct data }

end Reported

end Engine

namespace ClientRead

def Act.internal : Act → Bool
  | .read .. | .decodeFails => false
  | _ => true

/-- A client. `closed` is what `onClose` was called with. -/
structure Reported where
  reader : Reader
  closed : Option Report := none

namespace Reported

inductive Act where
  | frame (data : Bytes)
  | binary (data : Bytes)
  | payload (body : Bytes)
  | other (a : ClientRead.Act)

variable (R : Reported)

/-- The error of a step that closes the client for another cause. -/
def failure : ClientRead.Act → Option Err
  | .turn t _ =>
    match R.reader.stage t with
    | .received p _ _ => if p.type = .open_ then some .other else none
    | _ => none
  | .readFails _ => some .other
  | .timeout => some (.note .heartbeatTimeout "ping timeout")
  | _ => none

def act (a : ClientRead.Act) (r : Report) : Option Reported :=
  (R.reader.step a).map fun reader =>
    { reader, closed := if R.reader.reports < reader.reports then some r else R.closed }

def step : Act → Option Reported
  | .frame data =>
    match decodePacket data false with
    | .ok p => R.act (.read .websocket [p]) {}
    | .error e => R.act .decodeFails (Report.wrapped ⟨.frame data, some e.toErr⟩)
  | .binary data => R.act (.read .websocket [{ type := .message, data, isBinary := true }]) {}
  | .payload body =>
    match decodePayloadWithLimit body 0 with
    | (pkts, none) => R.act (.read .polling pkts) {}
    | (_, some e) => R.act (.readFails .polling) (Report.wrapped ⟨.payload body, some e.toErr⟩)
  | .other a => if a.internal then R.act a { err := R.failure a } else none

def dialed (t : Client.TransportName) : Reported := { reader := initial t }

end Reported

end ClientRead

end Gosocketio
