import Gosocketio.Spec.Framing
import Gosocketio.Spec.Http
import Gosocketio.Spec.Requests

/-! Batches of Engine.IO packets on their way from one side to the other: the body of a POST,
the answer to a poll, or websocket frames. What the receiving transport gives to `OnPacket`
goes through `onPacket` of its side to the Socket.IO layer. -/

namespace Gosocketio.Wire

open Transport

/-- What takes a batch over. The websocket library reads messages of at most `readLimit`
bytes; neither side sets that limit. -/
inductive Carrier where
  | post (port : Http.DataPort) (sid : String)
  | poll
  | websocket (readLimit : ℕ)
  deriving DecidableEq, Repr

def postRequest (sid : String) (pkts : List Transport.Packet) : Http.Request :=
  { method := .post, transport := "polling", eio := "4", sid
    contentType := "text/plain; charset=UTF-8", body := some (encodePayload pkts) }

/-- `readLoop` of a websocket on the frames of a batch: the packets given to `OnPacket`, and
whether all frames were read. A frame that is too long ends the connection, one that cannot be
decoded goes to `OnError`, which closes the session. -/
def readFrames (readLimit : ℕ) : List Transport.Packet → List Transport.Packet × Bool
  | [] => ([], true)
  | p :: pkts =>
    let frame := encodePacket p true
    if readLimit < frame.length then ([], false)
    else
      match decodePacket frame p.isBinary with
      | .error _ => ([], false)
      | .ok q =>
        let (got, ok) := readFrames readLimit pkts
        (q :: got, ok)

def readPoll (body : Bytes) : List Transport.Packet × Bool :=
  match decodePayload body with
  | (_, some _) => ([], false)
  | (pkts, none) => (pkts, true)

/-- The packets of a batch that are given to `OnPacket` at the other side, and whether neither
side has seen an error. The client takes every status but 200 for one. -/
def Carrier.carry (pkts : List Transport.Packet) : Carrier → List Transport.Packet × Bool
  | .post port sid =>
    match Http.onDataRequest port (postRequest sid pkts) with
    | .data status got _ => (got, status == 200)
    | _ => ([], false)
  | .poll => readPoll (encodePayload pkts)
  | .websocket readLimit => readFrames readLimit pkts

abbrev Batch := Carrier × List Transport.Packet

def deliver : List Batch → List Transport.Packet × Bool
  | [] => ([], true)
  | (c, pkts) :: rest =>
    match c.carry pkts with
    | (got, false) => (got, false)
    | (got, true) =>
      let (more, ok) := deliver rest
      (got ++ more, ok)

/-- The packets at which `onPacket` of a side closes the session. -/
def closes : Side → Transport.PacketType → Bool
  | .server, .ping => true
  | .server, .close => true
  | .client, .close => true
  | _, _ => false

/-- What `onPacket` gives to `onData` of a packet that does not close the session. -/
def onData (p : Transport.Packet) : Option InPacket :=
  if p.type = .message then some ⟨p.data, p.isBinary⟩ else none

def messages (side : Side) (pkts : List Transport.Packet) : List InPacket :=
  (pkts.takeWhile fun p => !closes side p.type).filterMap onData

end Gosocketio.Wire
