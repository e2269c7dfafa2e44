import Mqttv5.Computation.ByteSource
import Mqttv5.Program.Wire.Subscribe

/-!
# Reading packets

wire/codec.go and the packet checks of wire/validate.go.
-/

set_option autoImplicit false

namespace Mqttv5.Program.Wire

open Mqttv5.Computation
open Model (Bytes ReasonCode)
open Model.Wire

/-- SOURCE: wire/codec.go:254-284 -/
def decodeBody (buf : Bytes) (pktType : PacketType) (flags : UInt8) : Except Err Packet :=
  match pktType with
  | .CONNECT => (decodeConnect buf flags).map .connect
  | .CONNACK => (decodeConnack buf flags).map .connack
  | .PUBLISH => (decodePublish buf flags).map .publish
  | .PUBACK => (decodePubResp buf pktType flags).map .pubResp
  | .PUBREC => (decodePubResp buf pktType flags).map .pubResp
  | .PUBREL => (decodePubResp buf pktType flags).map .pubResp
  | .PUBCOMP => (decodePubResp buf pktType flags).map .pubResp
  | .SUBSCRIBE => (decodeSubscribe buf flags).map .subscribe
  | .SUBACK => (decodeSuback buf flags).map .suback
  | .UNSUBSCRIBE => (decodeUnsubscribe buf flags).map .unsubscribe
  | .UNSUBACK => (decodeUnsuback buf flags).map .unsuback
  | .PINGREQ => .ok .pingreq
  | .PINGRESP => .ok .pingresp
  | .DISCONNECT => (decodeDisconnect buf flags).map .disconnect
  | .AUTH => (decodeAuth buf flags).map .auth
  | .INVALID => .error (.wrap .unsupportedPacket "%s" [.packetType pktType])

/-- The check of the filters of a SUBSCRIBE.
SOURCE: wire/validate.go:424-431 -/
def validateFilters : List SubscribeFilter → Option Err
  | [] => none
  | f :: rest => match validTopicFilter f.topic with
    | .error e => some (.packet .SUBSCRIBE reasonProtocolError e)
    | .ok () =>
      if f.noLocal ∧ isSharedFilter f.topic then
        some (protocolError .SUBSCRIBE "No Local on shared subscription %q" [.bytes f.topic])
      else validateFilters rest

/-- SOURCE: wire/validate.go:437-441 -/
def validateTopics : List Bytes → Option Err
  | [] => none
  | f :: rest => match validTopicFilter f with
    | .error e => some (.packet .UNSUBSCRIBE reasonProtocolError e)
    | .ok () => validateTopics rest

/-- SOURCE: wire/validate.go:345-363 -/
def validatePublish (x : Publish) : Option Err :=
  let (valid, wildcard) := scanTopicName x.topic
  if !valid then
    some (malformed .PUBLISH "topic name is not well-formed UTF-8 or contains U+0000" [])
  else if wildcard then
    some (protocolError .PUBLISH "topic name %q contains a wildcard" [.bytes x.topic])
  else if 0 < x.qos ∧ x.packetID = 0 then
    some (protocolError .PUBLISH "packet identifier 0" [])
  else match validateProps .PUBLISH x.properties.raw publishProps with
    | some e => some e
    | none =>
      if x.topic = [] ∧ Properties.uint16 x.properties propTopicAlias = none then
        some (protocolError .PUBLISH "empty topic name without a Topic Alias" [])
      else none

/-- SOURCE: wire/validate.go:407-419 -/
def validateConnect (x : Connect) : Option Err :=
  if !validUTF8 x.clientID || !validUTF8 x.username then
    some (malformed .CONNECT "client identifier or user name is not well-formed UTF-8" [])
  else match validateProps .CONNECT x.properties.raw (allowedProps .CONNECT) with
    | some e => some e
    | none => match x.will with
      | none => none
      | some w =>
        if (validTopicName w.topic).toOption = none ∨ w.topic = [] then
          some (protocolError .CONNECT "invalid will topic %q" [.bytes w.topic])
        else validateProps .CONNECT w.properties.raw willProps

/-- The check of a reason code and a property section. -/
def validateReason (t : PacketType) (rc : ReasonCode) (props : Properties) : Option Err :=
  match checkReason t rc with
  | some e => some e
  | none => validateProps t props.raw (allowedProps t)

/-- The check of a packet identifier, and of `rest` after it. -/
def validateID (t : PacketType) (id : UInt16) (rest : Option Err) : Option Err :=
  if id = 0 then some (protocolError t "packet identifier 0" []) else rest

/-- SOURCE: wire/validate.go:377-396 -/
def validateAckListPacket (t : PacketType) (x : AckList) : Option Err :=
  validateID t x.packetID (match checkReasons t x.reasonCodes with
    | some e => some e
    | none => validateProps t x.properties.raw (allowedProps t))

/-- SOURCE: wire/validate.go:342-445 -/
def validatePacket : Packet → Option Err
  | .publish x => validatePublish x
  | .connack x => validateReason .CONNACK x.reasonCode x.properties
  | .pubResp x => validateID x.pktType x.packetID
      (validateReason x.pktType x.reasonCode x.properties)
  | .suback x => validateAckListPacket .SUBACK x
  | .unsuback x => validateAckListPacket .UNSUBACK x
  | .disconnect x => validateReason .DISCONNECT x.reasonCode x.properties
  | .auth x => validateReason .AUTH x.reasonCode x.properties
  | .connect x => validateConnect x
  | .subscribe x => validateID .SUBSCRIBE x.packetID (match validateFilters x.filters with
      | some e => some e
      | none => validateProps .SUBSCRIBE x.properties.raw (allowedProps .SUBSCRIBE))
  | .unsubscribe x => validateID .UNSUBSCRIBE x.packetID (match validateTopics x.topics with
      | some e => some e
      | none => validateProps .UNSUBSCRIBE x.properties.raw (allowedProps .UNSUBSCRIBE))
  | .pingreq => none
  | .pingresp => none

/-- How `ReadVarint` ends: with a value and its length, or with an error. -/
abbrev VarintRead := Except Sentinel (ℕ × ℕ)

/-- The loop of `ReadVarint`: `n` bytes are read, `left` may still be.
SOURCE: wire/fields.go:250-267 -/
def readVarintLoop : (left n value multiplier : ℕ) → Reader UInt8 → VarintRead × Reader UInt8
  | 0, _, _, _, r => (.error .varintMalformed, r)
  | left + 1, n, value, multiplier, r =>
    match r.readByte with
    | none => (.error (if 0 < n then .unexpectedEOF else .eof), r)
    | some (b, r) =>
      let value := value + (b &&& 0x7F).toNat * multiplier
      if b &&& 0x80 = 0 then (.ok (value, n + 1), r)
      else readVarintLoop left (n + 1) value (multiplier * 128) r

/-- SOURCE: wire/fields.go:250-267 -/
def readVarint (r : Reader UInt8) : VarintRead × Reader UInt8 :=
  readVarintLoop maxVarintBytes 0 0 1 r

def ofReadError : ReadError → Sentinel
  | .eof => .eof
  | .unexpectedEOF => .unexpectedEOF

/-- SOURCE: wire/codec.go:128 -/
def largeBodyChunk : ℕ := 64 * 2 ^ 10

/-- The loop for a large body: `body` is the part read so far, `size` what the slice holds;
each round but the last at least doubles it.
SOURCE: wire/codec.go:309-334 -/
def readLargeBody (n : ℕ) : (fuel : ℕ) → (body : Bytes) → (size : ℕ) → Reader UInt8 →
    Except Sentinel Bytes × Reader UInt8
  | 0, body, _, r => (.ok body, r)
  | fuel + 1, body, size, r =>
    let (bs, err, r) := r.readFull (size - body.length)
    let body := body ++ bs
    match err with
    -- An end before the first byte of a chunk is inside the packet too.
    | some _ => (.error .unexpectedEOF, r)
    | none =>
      if body.length = n then (.ok body, r)
      else
        let next := if n ≤ 8 * body.length then n else 4 * size
        readLargeBody n fuel body (min n next) r

/-- SOURCE: wire/codec.go:294-335 -/
def readBody (n : ℕ) (r : Reader UInt8) : Except Sentinel Bytes × Reader UInt8 :=
  if n ≤ largeBodyChunk then
    match r.readFull n with
    | (_, some e, r) => (.error (ofReadError e), r)
    | (bs, none, r) => (.ok bs, r)
  else readLargeBody n n [] largeBodyChunk r

/-! ### The buffers of a body -/

/-- How reading from a connection ends short: at the end of the stream, or with its own error. -/
inductive BodyErr
  | eof | unexpectedEOF | fault (code : ℕ)
  deriving DecidableEq, Repr

/-- A connection's reader, and the error it has after what it delivers; `none` is the end of the
stream. -/
structure Feed where
  reader : Reader UInt8
  fault : Option ℕ

/-- `io.ReadFull`. -/
def Feed.readFull (f : Feed) (n : ℕ) : Bytes × Option BodyErr × Feed :=
  let (bs, err, r) := f.reader.readFull n
  let err := err.map fun e => match f.fault, e with
    | some code, _ => .fault code
    | none, .eof => .eof
    | none, .unexpectedEOF => .unexpectedEOF
  (bs, err, { f with reader := r })

/-- What `readBody` does with memory and input: a buffer of `cap` bytes is taken, from a pool or
not, or `n` bytes of the body arrive. -/
inductive BodyEvent
  | alloc (cap : ℕ) (pooled : Bool)
  | got (n : ℕ)
  deriving DecidableEq, Repr

/-- SOURCE: wire/codec.go:342 -/
def bufClasses : List ℕ := [256, 2 ^ 10, 4 * 2 ^ 10, 16 * 2 ^ 10, 64 * 2 ^ 10]

/-- The capacity of the buffer for `n` bytes: that of the smallest class that fits, or `n`.
SOURCE: wire/codec.go:370-379 -/
def acquireBuf (n : ℕ) : BodyEvent :=
  match bufClasses.find? (n ≤ ·) with
  | none => .alloc n false
  | some cap => .alloc cap true

/-- `readLargeBody` with its events and with the connection's error.
SOURCE: wire/codec.go:309-334 -/
def readLargeBodyLog (n : ℕ) : (fuel : ℕ) → (body : Bytes) → (size : ℕ) → Feed →
    Except BodyErr Bytes × Feed × List BodyEvent
  | 0, body, _, f => (.ok body, f, [])
  | fuel + 1, body, size, f =>
    let (bs, err, f) := f.readFull (size - body.length)
    let body := body ++ bs
    match err with
    | some e => (.error (if e = .eof then .unexpectedEOF else e), f, [.got bs.length])
    | none =>
      if body.length = n then (.ok body, f, [.got bs.length])
      else
        let next := min n (if n ≤ 8 * body.length then n else 4 * size)
        let (res, f, log) := readLargeBodyLog n fuel body next f
        (res, f, .got bs.length :: .alloc next false :: log)

/-- `readBody` with its events and with the connection's error.
SOURCE: wire/codec.go:292-335 -/
def readBodyLog (n : ℕ) (f : Feed) : Except BodyErr Bytes × Feed × List BodyEvent :=
  if n ≤ largeBodyChunk then
    match f.readFull n with
    | (bs, some e, f) => (.error e, f, [acquireBuf n, .got bs.length])
    | (bs, none, f) => (.ok bs, f, [acquireBuf n, .got bs.length])
  else
    let (res, f, log) := readLargeBodyLog n n [] largeBodyChunk f
    (res, f, acquireBuf largeBodyChunk :: log)

/-- SOURCE: wire/codec.go:146-150; `lenient` says that a report function is set. -/
structure Decoder where
  br : Reader UInt8
  maxPacket : ℕ
  lenient : Bool

/-- `Peek` of what is buffered reads nothing from the source.
SOURCE: wire/codec.go:163-173 -/
def Decoder.ready (d : Decoder) : Bool :=
  let n := d.br.buf.length
  if n < 2 then false
  else
    let hdr := d.br.buf.take (min n (1 + maxVarintBytes))
    match decodeVarint (hdr.drop 1) with
    | none => false
    | some (size, k) => 1 + k + size ≤ n

/-- The body of a packet whose header was accepted, read and checked.
SOURCE: wire/codec.go:234-248 -/
def readPacketBody (d : Decoder) (pktType : PacketType) (flags : UInt8) (remaining : ℕ) :
    Except Err Packet × Decoder :=
  match readBody remaining d.br with
  | (.error e, r) => (.error (.sentinel e), { d with br := r })
  | (.ok body, r) =>
    let d := { d with br := r }
    match decodeBody body pktType flags with
    | .error e => (.error (asPacketError pktType e), d)
    | .ok p => match validatePacket p with
      | some e => (.error e, d)
      | none => (.ok p, d)

/-- `ReadPacket`, with the decoder after it.
SOURCE: wire/codec.go:205-250 -/
def readPacket (d : Decoder) : Except Err Packet × Decoder :=
  match d.br.readByte with
  | none => (.error (.sentinel .eof), d)
  | some (b0, r) =>
    let pktType := PacketType.ofNibble (b0 >>> 4)
    let flags := b0 &&& 0x0F
    match readVarint r with
    | (.error e, r) =>
      let e := if e = .eof then .unexpectedEOF else e
      (.error (asPacketError pktType (.context "mqttv5: read remaining length" (.sentinel e))),
        { d with br := r })
    | (.ok (remaining, n), r) =>
      let d := { d with br := r }
      let total := 1 + n + remaining
      if 0 < d.maxPacket ∧ d.maxPacket < total then
        (.error (.wrap .packetTooLarge "%s of %d bytes, limit %d"
          [.packetType pktType, .num total, .num d.maxPacket]), d)
      else match checkHeader pktType flags remaining (n = varintSize remaining) with
        | (some perr, tolerable) =>
          if !tolerable || !d.lenient then (.error perr, d)
          else readPacketBody d pktType (if pktType = .PINGRESP then 0 else flags) remaining
        | (none, _) => readPacketBody d pktType flags remaining

end Mqttv5.Program.Wire
