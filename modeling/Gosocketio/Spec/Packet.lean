import Gosocketio.Lib.Strconv
import Gosocketio.Spec.Value

/-! Socket.IO packets (`socketio/packet.go`): the text form of a packet, its
parser, and the exchange of binary leaves for placeholders. `encoding/json` is a
parameter; what the proofs rely on is stated in `Json.Lawful`. -/

namespace Gosocketio

open Strconv

inductive PacketType where
  | connect
  | disconnect
  | event
  | ack
  | connectError
  | binaryEvent
  | binaryAck
  deriving DecidableEq, Repr

def PacketType.toByte : PacketType → UInt8
  | .connect => 48
  | .disconnect => 49
  | .event => 50
  | .ack => 51
  | .connectError => 52
  | .binaryEvent => 53
  | .binaryAck => 54

def PacketType.ofByte : UInt8 → Option PacketType
  | 48 => some .connect
  | 49 => some .disconnect
  | 50 => some .event
  | 51 => some .ack
  | 52 => some .connectError
  | 53 => some .binaryEvent
  | 54 => some .binaryAck
  | _ => none

def PacketType.isBinary : PacketType → Bool
  | .binaryEvent => true
  | .binaryAck => true
  | _ => false

def defaultNamespace : Bytes := [47]

/-- A negative `id` means that no acknowledgement is asked for or given. -/
structure Packet where
  type : PacketType
  nsp : Bytes := defaultNamespace
  id : ℤ := -1
  data : Value := .null
  attachments : ℤ := 0
  deriving DecidableEq

/-- `json.Marshal` and `json.Unmarshal` into an `any`; `none` is an error. -/
structure Json where
  marshal : Value → Option Bytes
  unmarshal : Bytes → Option Value

section Encode

/-- `Packet.Encode`. A payload that cannot be marshalled is left out. -/
def encode (J : Json) (p : Packet) : Bytes :=
  [p.type.toByte] ++
  (if p.type.isBinary then formatInt p.attachments ++ [45] else []) ++
  (if p.nsp ≠ [] ∧ p.nsp ≠ defaultNamespace then p.nsp ++ [44] else []) ++
  (if 0 ≤ p.id then formatInt p.id else []) ++
  (if p.data = .null then [] else (J.marshal p.data).getD [])

end Encode

section Decode

inductive DecodeError where
  | emptyPacket
  | unknownPacketType (c : UInt8)
  | illegalAttachments
  | invalidPayload
  | invalidConnectPayload
  | invalidDisconnectPayload
  | invalidConnectErrorPayload
  | invalidEventPayload
  | reservedEventName
  | invalidEventName
  | invalidAckPayload
  deriving DecidableEq, Repr

/-- `connect`, `connect_error`, `disconnect`, `disconnecting`, `newListener` and
`removeListener`. -/
def reservedEvents : List Bytes :=
  [[99, 111, 110, 110, 101, 99, 116],
   [99, 111, 110, 110, 101, 99, 116, 95, 101, 114, 114, 111, 114],
   [100, 105, 115, 99, 111, 110, 110, 101, 99, 116],
   [100, 105, 115, 99, 111, 110, 110, 101, 99, 116, 105, 110, 103],
   [110, 101, 119, 76, 105, 115, 116, 101, 110, 101, 114],
   [114, 101, 109, 111, 118, 101, 76, 105, 115, 116, 101, 110, 101, 114]]

def isReservedEvent (name : Bytes) : Bool := reservedEvents.contains name

def validatePayload (t : PacketType) (data : Value) : Option DecodeError :=
  match t with
  | .connect =>
    match data with
    | .null => none
    | .obj _ => none
    | _ => some .invalidConnectPayload
  | .disconnect => if data = .null then none else some .invalidDisconnectPayload
  | .connectError =>
    match data with
    | .null => none
    | .str _ => none
    | .obj _ => none
    | _ => some .invalidConnectErrorPayload
  | .event | .binaryEvent =>
    match data with
    | .arr (first :: _) =>
      match first with
      -- a numeric event name is tolerated but never dispatched
      | .number _ => none
      | .str name => if isReservedEvent name then some .reservedEventName else none
      | _ => some .invalidEventName
    | _ => some .invalidEventPayload
  | .ack | .binaryAck =>
    match data with
    | .arr _ => none
    | _ => some .invalidAckPayload

/-- The loop `for j < len(data) && !stop(data[j]) { j++ }`. -/
def scan (stop : UInt8 → Bool) (data : Bytes) (j : ℕ) : ℕ :=
  j + ((data.drop j).takeWhile fun c => !stop c).length

def slice (data : Bytes) (lo hi : ℕ) : Bytes := (data.take hi).drop lo

/-- The attachment count and the cursor, which stays on the last byte consumed:
the type, or the `-` behind the count. -/
def decodeAttachments (t : PacketType) (data : Bytes) : Except DecodeError (ℤ × ℕ) :=
  if t.isBinary then
    let j := scan (· == 45) data 1
    if j = data.length then .error .illegalAttachments
    else
      match parseInt (slice data 1 j) with
      | (n, none) => if n < 0 then .error .illegalAttachments else .ok (n, j)
      | (_, some _) => .error .illegalAttachments
  else .ok (0, 0)

/-- The namespace and the cursor, on the `,` behind it or past the end. -/
def decodeNsp (data : Bytes) (i : ℕ) : Bytes × ℕ :=
  if data[i + 1]? = some 47 then
    let j := scan (· == 44) data (i + 1)
    (slice data (i + 1) j, if j < data.length then j else data.length)
  else (defaultNamespace, i)

/-- The acknowledgement id and the cursor, on its last digit. The error of
`strconv.ParseInt` is dropped, so an id out of range is read as the bound. -/
def decodeId (data : Bytes) (i : ℕ) : ℤ × ℕ :=
  if data[i + 1]?.any isDigit then
    let j := scan (fun c => !isDigit c) data (i + 1)
    ((parseInt (slice data (i + 1) j)).1, j - 1)
  else (-1, i)

def decodeData (J : Json) (t : PacketType) (data : Bytes) (i : ℕ) : Except DecodeError Value :=
  if i + 1 < data.length then
    match J.unmarshal (data.drop (i + 1)) with
    | none => .error .invalidPayload
    | some v =>
      match validatePayload t v with
      | some e => .error e
      | none => .ok v
  else .ok .null

def decode (J : Json) (data : Bytes) : Except DecodeError Packet :=
  match data with
  | [] => .error .emptyPacket
  | c :: _ =>
    match PacketType.ofByte c with
    | none => .error (.unknownPacketType c)
    | some t =>
      match decodeAttachments t data with
      | .error e => .error e
      | .ok (attachments, i) =>
        let (nsp, i) := decodeNsp data i
        let (id, i) := decodeId data i
        match decodeData J t data i with
        | .error e => .error e
        | .ok v => .ok { type := t, nsp, id, data := v, attachments }

end Decode

section Binary

open Value

/-- An `io.Reader`: the bytes left in it, and the error that reading it to the
end stops with, if any. -/
structure Reader where
  content : Bytes
  err : Option String := none
  deriving DecidableEq

abbrev Readers := ReaderId → Reader

/-- `readAll`: a nil reader is empty; reading drains the reader even when it
ends in an error. -/
def readAll (r : Option ReaderId) (readers : Readers) : Except String Bytes × Readers :=
  match r with
  | none => (.ok [], readers)
  | some i =>
    let drained := Function.update readers i { readers i with content := [] }
    match (readers i).err with
    | none => (.ok (readers i).content, drained)
    | some e => (.error e, drained)

mutual
def hasBinary : Value → Bool
  | .bytes _ => true
  | .reader _ => true
  | .arr xs => hasBinaryList xs
  | .obj kvs => hasBinaryEntries kvs
  | _ => false

def hasBinaryList : List Value → Bool
  | [] => false
  | e :: xs => hasBinary e || hasBinaryList xs

def hasBinaryEntries : List (Bytes × Value) → Bool
  | [] => false
  | (_, e) :: kvs => hasBinary e || hasBinaryEntries kvs
end

/-- What `deconstruct` changes: the readers it drains and the buffers it collects. -/
structure Sink where
  readers : Readers
  bufs : List Bytes := []

mutual
/-- `deconstruct`. The maps are visited in the order they are listed in. -/
def deconstruct : Value → Sink → Except String Value × Sink
  | .bytes x, s => (.ok (.placeholder s.bufs.length), { s with bufs := s.bufs ++ [x] })
  | .reader r, s =>
    match readAll r s.readers with
    | (.error e, readers) => (.error ("socketio: reading binary payload: " ++ e), { s with readers })
    | (.ok b, readers) => (.ok (.placeholder s.bufs.length), { readers, bufs := s.bufs ++ [b] })
  | .arr xs, s =>
    match deconstructList xs s with
    | (.error e, s) => (.error e, s)
    | (.ok out, s) => (.ok (.arr out), s)
  | .obj kvs, s =>
    match deconstructEntries kvs s with
    | (.error e, s) => (.error e, s)
    | (.ok out, s) => (.ok (.obj out), s)
  | v, s => (.ok v, s)

def deconstructList : List Value → Sink → Except String (List Value) × Sink
  | [], s => (.ok [], s)
  | e :: xs, s =>
    match deconstruct e s with
    | (.error e, s) => (.error e, s)
    | (.ok d, s) =>
      match deconstructList xs s with
      | (.error e, s) => (.error e, s)
      | (.ok out, s) => (.ok (d :: out), s)

def deconstructEntries : List (Bytes × Value) → Sink → Except String (List (Bytes × Value)) × Sink
  | [], s => (.ok [], s)
  | (k, e) :: kvs, s =>
    match deconstruct e s with
    | (.error e, s) => (.error e, s)
    | (.ok d, s) =>
      match deconstructEntries kvs s with
      | (.error e, s) => (.error e, s)
      | (.ok out, s) => (.ok ((k, d) :: out), s)
end

/-- The buffer a placeholder map names; nil when `num` is missing, is not a
number or is out of range. -/
def placeholderBuffer (kvs : List (Bytes × Value)) (bufs : List Bytes) : Value :=
  match lookup kvs numKey with
  | .number num =>
    let idx := num.toInt
    if 0 ≤ idx ∧ idx < bufs.length then .bytes (bufs.getD idx.toNat []) else .null
  | _ => .null

mutual
def reconstruct (bufs : List Bytes) : Value → Value
  | .obj kvs =>
    if lookup kvs placeholderKey = .bool true then placeholderBuffer kvs bufs
    else .obj (reconstructEntries bufs kvs)
  | .arr xs => .arr (reconstructList bufs xs)
  | v => v

def reconstructList (bufs : List Bytes) : List Value → List Value
  | [] => []
  | e :: xs => reconstruct bufs e :: reconstructList bufs xs

def reconstructEntries (bufs : List Bytes) : List (Bytes × Value) → List (Bytes × Value)
  | [] => []
  | (k, e) :: kvs => (k, reconstruct bufs e) :: reconstructEntries bufs kvs
end

end Binary

section Json

inductive Kind where
  | null
  | bool
  | number
  | string
  | array
  | object
  deriving DecidableEq, Repr

def Value.kind : Value → Kind
  | .bool _ => .bool
  | .number _ => .number
  | .str _ => .string
  | .arr _ => .array
  | .obj _ => .object
  | _ => .null

def kindOfByte (c : UInt8) : Option Kind :=
  if c = 110 then some .null
  else if c = 116 ∨ c = 102 then some .bool
  else if c = 45 ∨ isDigit c then some .number
  else if c = 34 then some .string
  else if c = 91 then some .array
  else if c = 123 then some .object
  else none

/-- A placeholder number that a double holds exactly. -/
def smallPlaceholder : Value → Bool
  | .placeholder n => n < 2 ^ 53
  | _ => true

/-- What is assumed of `encoding/json` on JSON values: a value is marshalled and
read back as itself, and the first byte of its text tells its kind. `json.Unmarshal` refuses
arrays and maps nested deeper than `maxNestingDepth`: on such values this is an idealisation,
and `Bounded` is what is left. -/
structure Json.Lawful (J : Json) : Prop where
  roundTrip : ∀ v : Value, v.isJson → ∃ b, J.marshal v = some b ∧ J.unmarshal b = some v
  firstByte : ∀ (v : Value) (b : Bytes), v.isJson → J.marshal v = some b →
    b.head?.bind kindOfByte = some v.kind

mutual
/-- How deep arrays and maps are nested in what is written of the value. A binary leaf is
written as the map of its placeholder. -/
def Value.nesting : Value → ℕ
  | .arr xs => nestingList xs + 1
  | .obj kvs => nestingEntries kvs + 1
  | .bytes _ | .reader _ | .placeholder _ => 1
  | _ => 0

def Value.nestingList : List Value → ℕ
  | [] => 0
  | v :: vs => max v.nesting (nestingList vs)

def Value.nestingEntries : List (Bytes × Value) → ℕ
  | [] => 0
  | (_, v) :: kvs => max v.nesting (nestingEntries kvs)
end

def Json.maxNestingDepth : ℕ := 10000

structure Json.Bounded (J : Json) : Prop where
  roundTrip : ∀ v : Value, v.isJson → v.nesting ≤ maxNestingDepth →
    ∃ b, J.marshal v = some b ∧ J.unmarshal b = some v
  firstByte : ∀ (v : Value) (b : Bytes), v.isJson → J.marshal v = some b →
    b.head?.bind kindOfByte = some v.kind

/-- What is assumed of it on the values that `json.Unmarshal` builds: one that is marshalled and
read again stays what it is, and the first byte of its text tells its kind. -/
structure Json.Stable (J : Json) : Prop where
  roundTrip : ∀ text v, J.unmarshal text = some v → ∃ b, J.marshal v = some b ∧ J.unmarshal b = some v
  firstByte : ∀ text v b, J.unmarshal text = some v → J.marshal v = some b →
    b.head?.bind kindOfByte = some v.kind

/-- `json.Unmarshal` builds JSON values, whatever bytes it is given. -/
def Json.Sound (J : Json) : Prop := ∀ text v, J.unmarshal text = some v → v.isJson = true

/-- What is assumed of it on values built by `deconstruct`: maps are written in
key order whatever order they are visited in, and a placeholder like the map
with its two tagged fields. -/
def Json.WritesImage (J : Json) : Prop :=
  ∀ v : Value, v.leaves.all smallPlaceholder → v.image.sorted.isJson →
    J.marshal v = J.marshal v.image.sorted

end Json

end Gosocketio
