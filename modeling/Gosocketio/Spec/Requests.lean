import Gosocketio.Spec.Emitter

/-! `handleEvent` of `socketio/server.go` and of `socketio/client.go`: the events of one
connection, the goroutines that run their handlers, and those that send the
acknowledgements. A step is one operation on what the goroutines of an event share, the
slice of results under its mutex and the `WaitGroup`. -/

namespace Gosocketio

inductive Side where
  | server
  | client
  deriving DecidableEq, Repr

def Side.Handler (T : Type) : Side → Type
  | .server => List (GoType T)
  | .client => ClientHandler T

def Side.invoke {T V : Type} [DecidableEq T] (J : Json) (unmarshal : GoType T → Bytes → Option V) :
    (side : Side) → side.Handler T → List Value → Outcome T V
  | .server, h, args => invokeHandler J unmarshal h args
  | .client, h, args => invokeClientHandler J unmarshal h args

/-- What is acknowledged. A nil slice is an empty list here: `append` makes a slice only
if it has something to append, in `results` as in `SetUnknownEventAck`. -/
def Side.payload : Side → List Value → List Value → List Value
  | .server, unknownAck, results => if results.isEmpty then unknownAck else results
  | .client, _, results => results

/-- The goroutine of a handler: what it does next. `finish` is the deferred `wg.Done`;
`result` is what was appended, if the handler did not mismatch. -/
inductive HandlerStage where
  | invoke
  | onError
  | append (res : List Value)
  | finish (result : Option (List Value))
  | done (result : Option (List Value))

inductive AckStage where
  | idle
  | wait
  | choose
  | send (data : List Value)
  | sent (data : List Value)

/-- An event that was accepted: the handlers found for it, and the variables of
`handleEvent`. Goroutine `j` runs handler `j`. -/
structure Request (side : Side) (T : Type) where
  pkt : Packet
  name : Bytes
  args : List Value
  handlers : List (side.Handler T) := []
  goroutines : List HandlerStage := []
  wg : ℕ := 0
  results : List Value := []
  ack : AckStage := .idle

/-- Where the processing loop of the connection is; `i` is the event it dispatches. -/
inductive EventLoop where
  | idle
  | handlersFor (i : ℕ)
  | start (i : ℕ)
  deriving DecidableEq, Repr

/-- `sockets` tells for which namespaces `ec.sockets` has a socket, `requests` are the
events accepted so far, and `out` what was given to `sendPacket`. -/
structure Requests (side : Side) (T : Type) where
  sockets : Bytes → Bool := fun _ => false
  handlers : Bytes → Bytes → List (side.Handler T) := fun _ _ => []
  unknownAck : Bytes → List Value := fun _ => []
  requests : List (Request side T) := []
  loop : EventLoop := .idle
  out : List Packet := []

variable {side : Side} {T V : Type} [DecidableEq T]

def Request.response (r : Request side T) (data : List Value) : Packet :=
  { type := .ack, nsp := r.pkt.nsp, id := r.pkt.id, data := .arr data }

def Request.handlerNext (J : Json) (unmarshal : GoType T → Bytes → Option V) (r : Request side T) (j : ℕ)
    (outs : List Returned) : Option (Request side T) :=
  match r.goroutines[j]?, r.handlers[j]? with
  | some .invoke, some h =>
    match side.invoke J unmarshal h r.args with
    -- the process ends
    | .panics => none
    | .mismatch => some { r with goroutines := r.goroutines.set j .onError }
    | .called .. => some { r with goroutines := r.goroutines.set j (.append (collectResults outs)) }
  | some .onError, _ => some { r with goroutines := r.goroutines.set j (.finish none) }
  | some (.append res), _ =>
    some { r with goroutines := r.goroutines.set j (.finish (some res)), results := r.results ++ res }
  | some (.finish result), _ =>
    some { r with goroutines := r.goroutines.set j (.done result), wg := r.wg - 1 }
  | _, _ => none

namespace Requests

/-- `attach` and `detach` change `ec.sockets`. -/
inductive Act (side : Side) (T : Type) where
  | receive (pkt : Packet)
  | dispatch
  | handler (i j : ℕ) (outs : List Returned)
  | ack (i : ℕ)
  | onEvent (nsp name : Bytes) (h : side.Handler T)
  | setUnknownEventAck (nsp : Bytes) (data : List Value)
  | attach (nsp : Bytes)
  | detach (nsp : Bytes)

section Step

variable (J : Json) (unmarshal : GoType T → Bytes → Option V) (s : Requests side T)

def setRequest (i : ℕ) (r : Request side T) : Requests side T := { s with requests := s.requests.set i r }

/-- The server looks the socket up, the client does not. -/
def accepts (nsp : Bytes) : Bool := side = .client || s.sockets nsp

def dispatchNext (i : ℕ) (r : Request side T) : Requests side T :=
  if r.goroutines.length < r.handlers.length then
    s.setRequest i { r with goroutines := r.goroutines ++ [.invoke], wg := r.wg + 1 }
  else
    { s.setRequest i { r with ack := if 0 ≤ r.pkt.id then .wait else .idle } with loop := .idle }

def ackNext (i : ℕ) (r : Request side T) : Option (Requests side T) :=
  match r.ack with
  | .idle | .sent _ => none
  | .wait => if r.wg = 0 then some (s.setRequest i { r with ack := .choose }) else none
  | .choose =>
    some (s.setRequest i { r with ack := .send (side.payload (s.unknownAck r.pkt.nsp) r.results) })
  | .send data =>
    some { s.setRequest i { r with ack := .sent data } with out := s.out ++ [r.response data] }

def step : Act side T → Option (Requests side T)
  | .receive pkt =>
    match s.loop, pkt.data with
    | .idle, .arr (.str name :: args) =>
      some (if s.accepts pkt.nsp then
        { s with
          requests := s.requests ++ [{ pkt, name, args }]
          loop := .handlersFor s.requests.length }
      else s)
    | .idle, _ => some s
    | _, _ => none
  | .dispatch =>
    match s.loop with
    | .idle => none
    | .handlersFor i =>
      s.requests[i]?.map fun r =>
        { s.setRequest i { r with handlers := s.handlers r.pkt.nsp r.name } with loop := .start i }
    | .start i => s.requests[i]?.map (s.dispatchNext i)
  | .handler i j outs =>
    s.requests[i]?.bind fun r => (r.handlerNext J unmarshal j outs).map (s.setRequest i)
  | .ack i => s.requests[i]?.bind (s.ackNext i)
  | .onEvent nsp name h =>
    some { s with
      handlers := Function.update s.handlers nsp
        (Function.update (s.handlers nsp) name (s.handlers nsp name ++ [h])) }
  | .setUnknownEventAck nsp data => some { s with unknownAck := Function.update s.unknownAck nsp data }
  | .attach nsp => some { s with sockets := Function.update s.sockets nsp true }
  | .detach nsp => some { s with sockets := Function.update s.sockets nsp false }

end Step

end Requests

end Gosocketio
