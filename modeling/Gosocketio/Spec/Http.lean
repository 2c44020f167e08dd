import Gosocketio.Lib.Strconv
import Gosocketio.Spec.Transport

/-! HTTP requests at the Engine.IO server (`engineio/server.go`), and POST requests at
the polling transport (`engineio/transport/polling.go`). The handler of a request takes
the locks of the server and of a session one after another, and other goroutines run in
between: `now k` is the state of the server when the handler takes its `k`-th lock. -/

namespace Gosocketio.Http

open Strconv Transport

inductive Method where
  | get
  | post
  | other
  deriving DecidableEq, Repr

/-- The query, the header and the body; `none` is a body that cannot be read. -/
structure Request where
  method : Method
  transport : String
  eio : String
  sid : String
  contentType : String := ""
  body : Option Bytes := some []
  deriving DecidableEq, Repr

def Request.isOctetStream (r : Request) : Bool :=
  "application/octet-stream".toList.isPrefixOf r.contentType.toList

structure Options where
  transports : List String
  allowRequest : Option (Request → Bool) := none

/-- What `onDataRequest` reads of a `Polling`; `maxBufferSize` is an `int64`. -/
structure DataPort where
  dataReq : Bool := false
  maxBufferSize : ℤ
  int64 : minInt64 ≤ maxBufferSize ∧ maxBufferSize ≤ maxInt64 := by decide
  deriving DecidableEq, Repr

abbrev PortRef := ℕ

abbrev SocketRef := ℕ

/-- A transport. Of the two kinds, only polling is `HTTPServing`. -/
inductive Tport where
  | polling (p : PortRef)
  | websocket
  deriving DecidableEq, Repr

def Tport.name : Tport → String
  | .polling _ => "polling"
  | .websocket => "websocket"

structure Socket where
  transport : Tport
  pollingTport : Option PortRef
  deriving DecidableEq, Repr

structure Server where
  clients : String → Option SocketRef
  sockets : SocketRef → Socket
  ports : PortRef → DataPort

inductive ErrCode where
  | unknownTransport
  | unknownSID
  | badHandshakeMethod
  | badRequest
  | forbidden
  | unsupportedProtocolVersion
  deriving DecidableEq, Repr

def ErrCode.toNat : ErrCode → ℕ
  | .unknownTransport => 0
  | .unknownSID => 1
  | .badHandshakeMethod => 2
  | .badRequest => 3
  | .forbidden => 4
  | .unsupportedProtocolVersion => 5

def errorMessages : ErrCode → String
  | .unknownTransport => "Transport unknown"
  | .unknownSID => "Session ID unknown"
  | .badHandshakeMethod => "Bad handshake method"
  | .badRequest => "Bad request"
  | .forbidden => "Forbidden"
  | .unsupportedProtocolVersion => "Unsupported protocol version"

/-- What `onDataRequest` reports to the handler of the transport. -/
inductive DataError where
  | dataRequestActive
  | contentType
  | read
  | payload (e : PayloadError)
  deriving DecidableEq, Repr

/-- What comes of a request: an error with its JSON body, a POST with the packets given to
`OnPacket` and the error given to `OnError`, or something that is followed elsewhere. -/
inductive Handled where
  | abort (status code : ℕ) (message : String)
  | data (status : ℕ) (pkts : List Packet) (err : Option DataError)
  | notAllowed
  | poll
  | handshake
  | websocket
  deriving DecidableEq, Repr

def abortRequest (code : ErrCode) : Handled :=
  .abort (if code = .forbidden then 403 else 400) code.toNat (errorMessages code)

/-- `io.LimitReader` read to its end: the first `n` bytes, none if `n` is negative. -/
def limitReader (n : ℤ) (body : Bytes) : Bytes := body.take n.toNat

/-- What `onDataRequest` reads of a body: a byte more than the limit, but the sum is an
`int64`, which wraps around. -/
def DataPort.readAll (p : DataPort) (body : Bytes) : Bytes :=
  limitReader ((p.maxBufferSize + 1).bmod (2 ^ 64)) body

def onDataRequest (p : DataPort) (r : Request) : Handled :=
  if p.dataReq then .data 400 [] (some .dataRequestActive)
  else if r.isOctetStream then .data 400 [] (some .contentType)
  else
    match r.body with
    | none => .data 400 [] (some .read)
    | some body =>
      let body := p.readAll body
      if p.maxBufferSize < body.length then .data 413 [] none
      else
        match decodePayloadWithLimit body p.maxBufferSize with
        | (_, some e) => .data 400 [] (some (.payload e))
        | (pkts, none) => .data 200 pkts none

def servePolling (p : DataPort) (r : Request) : Handled :=
  match r.method with
  | .get => .poll
  | .post => onDataRequest p r
  | .other => .notAllowed

section Serve

variable (o : Options) (now : ℕ → Server) (r : Request)

/-- `verify`, which locks the server and then the session. -/
def verify (upgrade : Bool) : Option ErrCode :=
  if r.eio ≠ "4" then some .unsupportedProtocolVersion
  else if r.transport ∉ o.transports then some .unknownTransport
  else if r.sid ≠ "" then
    match (now 0).clients r.sid with
    | none => some .unknownSID
    | some x =>
      let prev := ((now 1).sockets x).transport.name
      if !upgrade ∧ prev ≠ r.transport then some .badRequest else none
  else if r.method ≠ .get then some .badHandshakeMethod
  else if r.transport = "websocket" ∧ !upgrade then some .badRequest
  else
    match o.allowRequest with
    | some allow => if allow r then none else some .forbidden
    | none => none

def handlePolling : Handled :=
  match verify o now r false with
  | some err => abortRequest err
  | none =>
    if r.sid = "" then .handshake
    else
      match (now 2).clients r.sid with
      | none => abortRequest .unknownSID
      | some x =>
        match ((now 3).sockets x).transport with
        | .polling p => servePolling ((now 4).ports p) r
        | .websocket =>
          match ((now 4).sockets x).pollingTport with
          | some p => servePolling ((now 5).ports p) r
          | none => abortRequest .badRequest

/-- An upgrade request that `verify` lets through goes on to the websocket. -/
def handleWebsocket : Handled :=
  match verify o now r true with
  | some err => abortRequest err
  | none => .websocket

def serveHTTP : Handled :=
  if r.transport = "polling" then handlePolling o now r
  else if r.transport = "websocket" then handleWebsocket o now r
  else abortRequest .unknownTransport

end Serve

end Gosocketio.Http
