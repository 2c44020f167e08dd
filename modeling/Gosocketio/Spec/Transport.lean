import Gosocketio.Lib.Base64

/-! Engine.IO packets and polling payloads (`engineio/transport/packet.go`).
Logging is left out: a truncated payload is reported to the caller only through
the packets that are missing from the result. -/

namespace Gosocketio

abbrev Bytes := List UInt8

namespace Transport

/-- `transport.Type`; the byte written on the wire is `'0'` plus the position. -/
inductive PacketType where
  | open_
  | close
  | ping
  | pong
  | message
  | upgrade
  | noop
  deriving DecidableEq, Repr

def PacketType.toByte : PacketType → UInt8
  | .open_ => 48
  | .close => 49
  | .ping => 50
  | .pong => 51
  | .message => 52
  | .upgrade => 53
  | .noop => 54

/-- The inverse of `toByte`; `none` is the branch `t < Open || t > Noop`. -/
def PacketType.ofByte : UInt8 → Option PacketType
  | 48 => some .open_
  | 49 => some .close
  | 50 => some .ping
  | 51 => some .pong
  | 52 => some .message
  | 53 => some .upgrade
  | 54 => some .noop
  | _ => none

structure Packet where
  type : PacketType
  data : Bytes := []
  isBinary : Bool := false
  deriving DecidableEq, Repr

/-- The ways `DecodePacket` fails. All of them wrap `ErrInvalidPacket`. -/
inductive PacketError where
  | empty
  | corruptBase64
  | unknownType (c : UInt8)
  deriving DecidableEq, Repr

/-- The ways `DecodePayloadWithLimit` fails: `ErrPayloadTooLarge` with the size
of the packet and the limit, or `ErrInvalidPayload` around a packet error. -/
inductive PayloadError where
  | tooLarge (size maxPayload : ℤ)
  | invalid (cause : PacketError)
  deriving DecidableEq, Repr

def binaryMark : UInt8 := 98

def separator : UInt8 := 0x1e

def encodePacket (p : Packet) (supportsBinary : Bool) : Bytes :=
  if p.isBinary then
    if supportsBinary then p.data else binaryMark :: Base64.encode p.data
  else p.type.toByte :: p.data

def decodePacket (b : Bytes) (isBinary : Bool) : Except PacketError Packet :=
  if isBinary then .ok { type := .message, data := b, isBinary := true }
  else
    match b with
    | [] => .error .empty
    | c :: rest =>
      if c = binaryMark then
        match Base64.decode rest with
        | none => .error .corruptBase64
        | some data => .ok { type := .message, data, isBinary := true }
      else
        match PacketType.ofByte c with
        | none => .error (.unknownType c)
        | some t => .ok { type := t, data := rest }

def encodePayload (pkts : List Packet) : Bytes :=
  [separator].intercalate (pkts.map (encodePacket · false))

/-- The loop of `DecodePayloadWithLimit`: `decoded` is the size of the parts
taken so far and `out` what they decoded to. Like the source it returns the
packets of the parts before a bad one together with the error. The sum cannot
overflow: it is at most the length of the body the parts were cut from. -/
def decodeParts (maxPayload : ℤ) : List Bytes → ℤ → List Packet → List Packet × Option PayloadError
  | [], _, out => (out, none)
  | part :: rest, decoded, out =>
    if 0 < maxPayload ∧ maxPayload < part.length then
      (out, some (.tooLarge part.length maxPayload))
    else if 0 < maxPayload ∧ maxPayload < decoded + part.length then
      -- the tail is dropped with a warning, the payload stays accepted
      (out, none)
    else
      match decodePacket part false with
      | .error e => (out, some (.invalid e))
      | .ok p =>
        decodeParts maxPayload rest
          (if 0 < maxPayload then decoded + part.length else decoded) (out ++ [p])

def decodePayloadWithLimit (b : Bytes) (maxPayload : ℤ) : List Packet × Option PayloadError :=
  if b = [] then ([], none) else decodeParts maxPayload (b.splitOn separator) 0 []

def decodePayload (b : Bytes) : List Packet × Option PayloadError :=
  decodePayloadWithLimit b 0

@[simp] theorem ofByte_toByte (t : PacketType) : PacketType.ofByte t.toByte = some t := by
  cases t <;> rfl

theorem toByte_ne_binaryMark (t : PacketType) : t.toByte ≠ binaryMark := by
  cases t <;> decide

theorem toByte_ne_separator (t : PacketType) : t.toByte ≠ separator := by
  cases t <;> decide

end Transport
end Gosocketio
