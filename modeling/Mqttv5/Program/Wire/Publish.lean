import Mqttv5.Program.Wire.Validate

/-!
# PUBLISH and its acknowledgements

wire/publish.go. The sizes of the parts are computed in one pass and the parts written in
another; `Cells` keeps apart the bytes the second pass stores and those it leaves as they were
in the pooled buffer.
-/

set_option autoImplicit false

namespace Mqttv5.Program.Wire

open Mqttv5.Computation
open Model (Bytes ReasonCode)
open Model.Wire

/-- The end of every packet writer but those of PUBLISH: the fixed header is encoded first, and
its error returned before a buffer is taken; then the body is written into a buffer of
`bodyLen` bytes and both are sent.
SOURCE: wire/connect.go:140-194 (and the same lines of the other writers) -/
def emit (first : UInt8) (bodyLen : ℕ) (body : Filler UInt8) :
    Except Failure (Cells UInt8) :=
  match encodeVarint (toUint32 bodyLen) with
  | .error e => .error (.error e)
  | .ok vbi => match body (Cells.fresh bodyLen) 0 with
    | none => .error .panic
    | some (buf, _) => .ok ((first :: vbi).map some ++ buf)

/-- SOURCE: wire/publish.go:382-403 -/
def publishPropsLen (o : PublishOpts) : ℕ :=
  let n := 0
  let n := if o.payloadFormatIndicator.isSome then n + 2 else n
  let n := if o.messageExpiryInterval.isSome then n + 5 else n
  let n := if o.contentType ≠ [] then n + (1 + 2 + o.contentType.length) else n
  let n := if o.responseTopic ≠ [] then n + (1 + 2 + o.responseTopic.length) else n
  let n := match o.correlationData with
    | some d => n + (1 + 2 + d.length)
    | none => n
  let n := if o.topicAlias ≠ 0 then n + 3 else n
  n + userPropertiesLen o.userProperties

/-- SOURCE: wire/publish.go:312-317 -/
structure PublishLayout where
  propsLen : ℕ
  propsLenVBI : ℕ
  varHdrSize : ℕ
  remaining : ℕ
  vbiSize : ℕ
  total : ℕ

/-- SOURCE: wire/publish.go:319-331 -/
def publishLayoutOf (o : PublishOpts) : PublishLayout :=
  let propsLen := publishPropsLen o
  let propsLenVBI := varintSize (toUint32 propsLen)
  let varHdrSize := 2 + o.topic.length + propsLenVBI + propsLen
  let varHdrSize := if 0 < o.qos then varHdrSize + 2 else varHdrSize
  let remaining := varHdrSize + o.payload.length
  let vbiSize := varintSize (toUint32 remaining)
  { propsLen, propsLenVBI, varHdrSize, remaining, vbiSize, total := 1 + vbiSize + remaining }

namespace PublishLayout

/-- SOURCE: wire/publish.go:334 -/
def headerSize (l : PublishLayout) : ℕ := 1 + l.vbiSize + l.varHdrSize

end PublishLayout

/-- SOURCE: wire/publish.go:368-378 -/
def publishFlags (o : PublishOpts) : UInt8 :=
  let f : UInt8 := 0
  let f := if o.dup then f ||| 0x08 else f
  let f := f ||| ((o.qos &&& 0x03) <<< 1)
  if o.retain then f ||| 0x01 else f

/-- SOURCE: wire/publish.go:416-422 -/
def writePublishProps (o : PublishOpts) : Filler UInt8 := fun buf off => do
  let (buf, off) ← writeProperty1 buf off propPayloadFormat o.payloadFormatIndicator
  let (buf, off) ← writeProperty4 buf off propMessageExpiryInterval o.messageExpiryInterval
  let (buf, off) ← writePropertyString buf off propContentType o.contentType
  let (buf, off) ← writePropertyString buf off propResponseTopic o.responseTopic
  let (buf, off) ← writePropertyBinary buf off propCorrelationData o.correlationData
  let (buf, off) ← writeProperty2 buf off propTopicAlias o.topicAlias
  writePropertyUserProps buf off o.userProperties

/-- Two bytes, the high one first. -/
def writeUint16 (v : UInt16) : Filler UInt8 := fun buf off =>
  (buf.store off (putUint16 v.toNat)).map (·, off + 2)

/-- A packet identifier, where a packet has one. -/
def writePacketID (present : Prop) [Decidable present] (id : UInt16) : Filler UInt8 :=
  fun buf off => if present then writeUint16 id buf off else some (buf, off)

/-- SOURCE: wire/publish.go:408-423 -/
def encodePublishVarHdr (o : PublishOpts) (propsLen : ℕ) : Filler UInt8 := fun buf off => do
  let (buf, off) ← writeUTF8String buf off o.topic
  let (buf, off) ← writePacketID (0 < o.qos) o.packetID buf off
  let (buf, off) ← writePropertiesPrefix buf off propsLen
  writePublishProps o buf off

/-- A writer run over the slice `buf[lo:hi]`. -/
def inSlice (lo hi : ℕ) (w : Filler UInt8) (buf : Cells UInt8) : Option (Cells UInt8) :=
  if lo ≤ hi ∧ hi ≤ buf.length then
    (w ((buf.take hi).drop lo) 0).map fun r => buf.take lo ++ r.1 ++ buf.drop hi
  else none

/-- SOURCE: wire/publish.go:338-346 -/
def PublishLayout.encodeHeader (l : PublishLayout) (buf : Cells UInt8) (o : PublishOpts) :
    Except Failure (Cells UInt8) :=
  match buf.store 0 [PacketType.PUBLISH.toByte <<< 4 ||| publishFlags o] with
  | none => .error .panic
  | some buf => match encodeVarint (toUint32 l.remaining) with
    | .error e => .error (.error e)
    | .ok vbi =>
      -- The integer is stored into `buf[1:1+l.vbiSize]`, which must be long enough for it.
      match inSlice 1 (1 + l.vbiSize) (fun b i => (b.store i vbi).map (·, i + vbi.length)) buf with
      | none => .error .panic
      | some buf =>
        let off := 1 + l.vbiSize
        match inSlice off (off + l.varHdrSize) (encodePublishVarHdr o l.propsLen) buf with
        | none => .error .panic
        | some buf => .ok buf

/-- SOURCE: wire/publish.go:349-355 -/
def PublishLayout.encode (l : PublishLayout) (buf : Cells UInt8) (o : PublishOpts) :
    Except Failure (Cells UInt8) :=
  match l.encodeHeader buf o with
  | .error e => .error e
  | .ok buf => match buf.copyAt l.headerSize o.payload with
    | none => .error .panic
    | some (buf, _) => .ok buf

/-- What is appended to `dst`; an error leaves `dst` as it was.
SOURCE: wire/publish.go:259-270 -/
def appendPublishHeader (o : PublishOpts) : Except Failure (Cells UInt8) :=
  match validatePublishOpts o with
  | .error e => .error (.error e)
  | .ok () =>
    let l := publishLayoutOf o
    l.encodeHeader (Cells.fresh l.headerSize) o

/-- The bytes written: the header, and the payload after it.
SOURCE: wire/publish.go:237-251 -/
def writePublish (o : PublishOpts) : Except Failure (Cells UInt8) :=
  match appendPublishHeader o with
  | .error e => .error e
  | .ok hdr =>
    if o.payload.length = 0 then .ok hdr else .ok (hdr ++ o.payload.map some)

/-- SOURCE: wire/publish.go:282-309; `EncodePublish` takes its buffer from a pool,
`MarshalPublish` makes a new one. -/
def encodeWhole (o : PublishOpts) : Except Failure (Cells UInt8) :=
  match validatePublishOpts o with
  | .error e => .error (.error e)
  | .ok () =>
    let l := publishLayoutOf o
    l.encode (Cells.fresh l.total) o

/-- SOURCE: wire/publish.go:282-293 -/
def encodePublish (o : PublishOpts) : Except Failure (Cells UInt8) := encodeWhole o

/-- SOURCE: wire/publish.go:299-309 -/
def marshalPublish (o : PublishOpts) : Except Failure (Cells UInt8) := encodeWhole o

/-- The check of an encoded packet of `n` bytes against the broker's Maximum Packet Size.
SOURCE: publish.go:167-172 -/
def checkPacketSize (maximumPacketSize n : ℕ) : Except Err Unit :=
  if 0 < maximumPacketSize ∧ maximumPacketSize < toUint32 n then
    .error (.wrap .packetTooLarge "%d bytes, broker maximum %d" [.num n, .num maximumPacketSize])
  else .ok ()

/-- SOURCE: wire/publish.go:164-231 -/
def decodePublish (buf : Bytes) (flags : UInt8) : Except Err Publish := do
  let qos := (flags >>> 1) &&& 0x03
  if qos = 3 then .error (.wrap .invalidPacket "PUBLISH QoS=3" [])
  let dup : Bool := flags &&& 0x08 ≠ 0
  if dup ∧ qos = 0 then .error (.wrap .invalidPacket "PUBLISH DUP set with QoS=0" [])
  let retain : Bool := flags &&& 0x01 ≠ 0
  if buf.length < 2 then .error (.wrap .invalidPacket "truncated topic length" [])
  let topicLen := uint16 buf
  let buf := buf.drop 2
  if buf.length < topicLen then .error (.wrap .invalidPacket "truncated topic" [])
  let topic := buf.take topicLen
  let buf := buf.drop topicLen
  let (packetID, buf) ←
    if 0 < qos then
      if buf.length < 2 then .error (.wrap .invalidPacket "truncated packet id" [])
      else .ok (UInt16.ofNat (uint16 buf), buf.drop 2)
    else .ok (0, buf)
  match decodeVarint buf with
  | none =>
    .error (.wrapCause .invalidPacket "properties length" [] (.sentinel .varintMalformed))
  | some (propsLen, n) =>
    let buf := buf.drop n
    if toUint32 buf.length < propsLen then
      .error (.wrap .invalidPacket "truncated properties" [])
    else
      .ok { topic, payload := buf.drop propsLen, properties := ⟨buf.take propsLen⟩, qos, retain,
            dup, packetID }

/-- SOURCE: wire/publish.go:88-121 -/
def Publish.opts (p : Publish) : PublishOpts where
  topic := p.topic
  payload := p.payload
  qos := p.qos
  retain := p.retain
  dup := p.dup
  packetID := p.packetID
  payloadFormatIndicator := Properties.byte p.properties propPayloadFormat
  messageExpiryInterval := Properties.uint32 p.properties propMessageExpiryInterval
  contentType := (Properties.string p.properties propContentType).getD []
  responseTopic := (Properties.string p.properties propResponseTopic).getD []
  correlationData := Properties.binary p.properties propCorrelationData
  topicAlias := (Properties.uint16 p.properties propTopicAlias).getD 0
  userProperties := Properties.userProperties p.properties

/-- A property section that must reach to the end of the frame, as the acknowledgements have
it; an empty rest is no section. -/
def readLastProperties (t : PacketType) (buf : Bytes) : Except Err Properties :=
  if 0 < buf.length then
    match readProperties buf with
    | .error e => .error (.wrapCause .invalidPacket "%s properties" [.packetType t] e)
    | .ok (p, n) =>
      if n ≠ buf.length then
        .error (.wrapCause .invalidPacket "%s properties" [.packetType t] (.sentinel .trailing))
      else .ok p
  else .ok .none

/-- SOURCE: wire/publish.go:560-608 -/
def decodePubResp (buf : Bytes) (pktType : PacketType) (flags : UInt8) : Except Err PubResp := do
  let expected : UInt8 := if pktType = .PUBREL then 0x02 else 0x00
  if flags ≠ expected then
    .error (.wrap .invalidPacket "%s reserved flags must be %#02x"
      [.packetType pktType, .num expected.toNat])
  if buf.length < 2 then
    .error (.wrap .invalidPacket "%s truncated packet id" [.packetType pktType])
  let packetID := UInt16.ofNat (uint16 buf)
  let buf := buf.drop 2
  if 0 < buf.length then
    let properties ← readLastProperties pktType (buf.drop 1)
    return { packetID, reasonCode := buf.getD 0 0, properties, pktType }
  else return { packetID, reasonCode := .success, properties := .none, pktType }

/-- SOURCE: wire/publish.go:615-619 -/
def reasonPropsLen (reasonString : Bytes) (userProps : List UserProperty) : ℕ :=
  let n := if reasonString ≠ [] then 1 + 2 + reasonString.length else 0
  n + userPropertiesLen userProps

/-- SOURCE: wire/publish.go:651-652 -/
def writeReasonProps (reasonString : Bytes) (userProps : List UserProperty) : Filler UInt8 :=
  fun buf off => do
    let (buf, off) ← writePropertyString buf off propReasonString reasonString
    writePropertyUserProps buf off userProps

/-- The reason code and properties of a packet that may leave out either, from the end: how
many bytes they take, and how they are written. -/
def trimmedLen (reason : ReasonCode) (propsLen : ℕ) : ℕ :=
  let hasProps := 0 < propsLen
  let hasReason := hasProps ∨ reason ≠ ReasonCode.success
  if hasReason then
    if hasProps then 1 + (varintSize (toUint32 propsLen) + propsLen) else 1
  else 0

/-- SOURCE: wire/publish.go:646-654 -/
def writeTrimmed (reason : ReasonCode) (propsLen : ℕ) (props : Filler UInt8) : Filler UInt8 :=
  fun buf off =>
    let hasProps := 0 < propsLen
    let hasReason := hasProps ∨ reason ≠ ReasonCode.success
    if hasReason then do
      let buf ← buf.store off [reason]
      let off := off + 1
      if hasProps then do
        let (buf, off) ← writePropertiesPrefix buf off propsLen
        props buf off
      else return (buf, off)
    else return (buf, off)

/-- SOURCE: wire/publish.go:611-658 -/
def writePubResp (pktType : PacketType) (flags : UInt8) (o : PubRespOpts) :
    Except Failure (Cells UInt8) :=
  match validatePubRespOpts pktType o with
  | .error e => .error (.error e)
  | .ok () =>
    let propsLen := reasonPropsLen o.reasonString o.userProperties
    let bodyLen := 2 + trimmedLen o.reasonCode propsLen
    emit (pktType.toByte <<< 4 ||| flags) bodyLen fun buf off => do
      let (buf, off) ← writeUint16 o.packetID buf off
      writeTrimmed o.reasonCode propsLen (writeReasonProps o.reasonString o.userProperties) buf off

/-- SOURCE: wire/publish.go:537-539 -/
def writePuback (o : PubRespOpts) : Except Failure (Cells UInt8) := writePubResp .PUBACK 0x00 o

/-- SOURCE: wire/publish.go:542-544 -/
def writePubrec (o : PubRespOpts) : Except Failure (Cells UInt8) := writePubResp .PUBREC 0x00 o

/-- SOURCE: wire/publish.go:548-550 -/
def writePubrel (o : PubRespOpts) : Except Failure (Cells UInt8) := writePubResp .PUBREL 0x02 o

/-- SOURCE: wire/publish.go:553-555 -/
def writePubcomp (o : PubRespOpts) : Except Failure (Cells UInt8) := writePubResp .PUBCOMP 0x00 o

/-- What `AppendPubResp` appends.
SOURCE: wire/publish.go:664-673 -/
def appendPubResp (t : PacketType) (id : UInt16) (rc : ReasonCode) : Bytes :=
  let flags : UInt8 := if t = .PUBREL then 0x02 else 0
  if rc = ReasonCode.success then (t.toByte <<< 4 ||| flags) :: 2 :: putUint16 id.toNat
  else (t.toByte <<< 4 ||| flags) :: 3 :: putUint16 id.toNat ++ [rc]

end Mqttv5.Program.Wire
