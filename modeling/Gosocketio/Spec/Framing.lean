import Gosocketio.Lib.Runs
import Gosocketio.Spec.Packet

/-! Binary framing over one Engine.IO connection. A packet with binary leaves is
sent as a text header and one binary message for each buffer (`sendPacket` in
`socketio/server.go` and `socketio/client.go`); the receiver collects the
messages behind a header in its one reconstructor (`handleIn`, `feedBinary`). -/

namespace Gosocketio

structure InPacket where
  data : Bytes
  binary : Bool
  deriving DecidableEq

/-- A header that waits for its buffers. -/
structure Reconstructor where
  pkt : Packet
  bufs : List Bytes := []
  deriving DecidableEq

def binaryToPlain : PacketType → PacketType
  | .binaryEvent => .event
  | .binaryAck => .ack
  | t => t

def plainToBinary : PacketType → PacketType
  | .event => .binaryEvent
  | .ack => .binaryAck
  | t => t

/-- `sendPacket`: the messages it hands to `SendMessage`, in order, and the
readers afterwards. A packet with a reader that fails is dropped. -/
def sendPacket (J : Json) (pkt : Packet) (readers : Readers) : List InPacket × Readers :=
  if pkt.data ≠ .null ∧ hasBinary pkt.data then
    match deconstruct pkt.data { readers } with
    | (.error _, s) => ([], s.readers)
    | (.ok data, s) =>
      let pkt := { pkt with type := plainToBinary pkt.type, data, attachments := s.bufs.length }
      (⟨encode J pkt, false⟩ :: s.bufs.map (⟨·, true⟩), s.readers)
  else ([⟨encode J pkt, false⟩], readers)

def feedBinary (recon : Option Reconstructor) (data : Bytes) :
    Option Reconstructor × Option Packet :=
  match recon with
  -- unexpected binary data
  | none => (none, none)
  | some rec =>
    let bufs := rec.bufs ++ [data]
    if bufs.length ≠ rec.pkt.attachments then (some { rec with bufs }, none)
    else
      (none, some { rec.pkt with
        data := reconstruct bufs rec.pkt.data, type := binaryToPlain rec.pkt.type })

def handleIn (J : Json) (recon : Option Reconstructor) (p : InPacket) :
    Option Reconstructor × Option Packet :=
  if p.binary then feedBinary recon p.data
  else
    match decode J p.data with
    | .error _ => (recon, none)
    | .ok pkt =>
      if pkt.type.isBinary then
        if pkt.attachments = 0 then (recon, some { pkt with type := binaryToPlain pkt.type })
        else (some { pkt }, none)
      else (recon, some pkt)

namespace Framing

/-- A goroutine that sends packets: those it has still to send, and the packet
in hand with the messages of it that are not sent yet. -/
structure Sender where
  todo : List Packet
  current : Option (Packet × List InPacket) := none
  deriving DecidableEq

/-- The receiving side, with the packets given to `process` so far. -/
structure Receiver where
  recon : Option Reconstructor := none
  processed : List Packet := []
  deriving DecidableEq

/-- One direction of a connection. `fifo` holds the messages sent and not yet
handled: `SendMessage` appends, the transport keeps the order. -/
structure Link where
  senders : List Sender
  fifo : List InPacket := []
  receiver : Receiver := {}
  deriving DecidableEq

inductive Act where
  | call (i : ℕ)
  | send (i : ℕ)
  | recv
  deriving DecidableEq, Repr

def inHand (p : Packet) (messages : List InPacket) : Option (Packet × List InPacket) :=
  if messages = [] then none else some (p, messages)

def Receiver.receive (J : Json) (r : Receiver) (m : InPacket) : Receiver :=
  let (recon, out) := handleIn J r.recon m
  { recon, processed := r.processed ++ out.toList }

def noReaders : Readers := fun _ => { content := [] }

/-- A goroutine enters `sendPacket`; it hands its next message to `SendMessage`;
the receiver handles a message. Nothing orders the goroutines. -/
def Link.step (J : Json) (s : Link) : Act → Option Link
  | .call i =>
    match s.senders[i]? with
    | some { todo := p :: todo, current := none } =>
      let current := inHand p (sendPacket J p noReaders).1
      some { s with senders := s.senders.set i { todo, current } }
    | _ => none
  | .send i =>
    match s.senders[i]? with
    | some { todo, current := some (p, m :: rest) } =>
      some { s with senders := s.senders.set i { todo, current := inHand p rest },
                    fifo := s.fifo ++ [m] }
    | _ => none
  | .recv =>
    match s.fifo with
    | m :: fifo => some { s with fifo, receiver := s.receiver.receive J m }
    | [] => none

def Link.init (progs : List (List Packet)) : Link := { senders := progs.map ({ todo := · }) }

def Link.Done (s : Link) : Prop :=
  s.fifo = [] ∧ ∀ sd ∈ s.senders, sd.todo = [] ∧ sd.current = none

instance (s : Link) : Decidable s.Done := inferInstanceAs (Decidable (_ ∧ _))

/-- What the next message of a goroutine is: the header of a packet with
attachments, or one of the attachments. -/
def Sender.opens (sd : Sender) : Bool :=
  match sd.current with
  | some (_, m :: _ :: _) => !m.binary
  | _ => false

def Sender.midway (sd : Sender) : Bool :=
  match sd.current with
  | some (_, m :: _) => m.binary
  | _ => false

/-- No goroutine sends the header of a packet with attachments while another one
has attachments left to send. -/
def Link.Exclusive (s : Link) : Act → Prop
  | .send i => (s.senders[i]?.any Sender.opens) = true → ∀ sd ∈ s.senders, sd.midway = false
  | _ => True

instance (s : Link) : ∀ a, Decidable (s.Exclusive a)
  | .send _ => inferInstanceAs (Decidable (_ → _))
  | .call _ => isTrue trivial
  | .recv => isTrue trivial

end Framing

/-- What a packet says to the application. Attachment counts are a matter of
framing, and maps are compared whatever order they are visited in. -/
def Packet.message (p : Packet) : PacketType × Bytes × ℤ × Value :=
  (p.type, p.nsp, p.id, p.data.sorted)

end Gosocketio
