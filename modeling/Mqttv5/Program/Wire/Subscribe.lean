import Mqttv5.Program.Wire.Connect

/-!
# SUBSCRIBE, UNSUBSCRIBE and their acknowledgements

wire/subscribe.go.
-/

set_option autoImplicit false

namespace Mqttv5.Program.Wire

open Mqttv5.Computation
open Model (Bytes ReasonCode)
open Model.Wire

/-- SOURCE: wire/subscribe.go:189-199 -/
def encodeSubscribeOptions (f : SubscribeFilter) : UInt8 :=
  let b := f.qos &&& 0x03
  let b := if f.noLocal then b ||| 0x04 else b
  let b := if f.retainAsPublished then b ||| 0x08 else b
  b ||| ((f.retainHandling &&& 0x03) <<< 4)

/-- SOURCE: wire/subscribe.go:179-187 -/
def decodeSubscribeFilter (topic : Bytes) (optsByte : UInt8) : SubscribeFilter where
  topic := topic
  qos := optsByte &&& 0x03
  noLocal := optsByte &&& 0x04 ≠ 0
  retainAsPublished := optsByte &&& 0x08 ≠ 0
  retainHandling := (optsByte >>> 4) &&& 0x03

/-- SOURCE: wire/subscribe.go:76-80 -/
def subscribePropsLen (o : SubscribeOpts) : ℕ :=
  (match o.subscriptionIdentifier with
    | some id => 1 + varintSize id.toNat
    | none => 0) + userPropertiesLen o.userProperties

/-- SOURCE: wire/subscribe.go:104-109; the error of `EncodeVarint` is dropped. -/
def writeSubscriptionIdentifier (buf : Cells UInt8) (off : ℕ) :
    Option UInt32 → Option (Cells UInt8 × ℕ)
  | none => some (buf, off)
  | some id => do
    let buf ← buf.store off [propSubscriptionIdentifier]
    let off := off + 1
    match encodeVarint id.toNat with
    | .error _ => some (buf, off)
    | .ok bs => (buf.store off bs).map (·, off + bs.length)

/-- One round of the loop over the filters.
SOURCE: wire/subscribe.go:112-116 -/
def writeFilter (f : SubscribeFilter) (buf : Cells UInt8) (off : ℕ) :
    Option (Cells UInt8 × ℕ) := do
  let (buf, off) ← writeUTF8String buf off f.topic
  let buf ← buf.store off [encodeSubscribeOptions f]
  return (buf, off + 1)

/-- SOURCE: wire/subscribe.go:68-120 -/
def writeSubscribe (o : SubscribeOpts) : Except Failure (Cells UInt8) :=
  match validateSubscribeOpts o with
  | .error e => .error (.error e)
  | .ok () =>
    if o.filters.length = 0 then .error (.error (.sentinel .emptyFilterList))
    else
      let propsLen := subscribePropsLen o
      let payloadLen := o.filters.foldl (fun n f => n + (2 + f.topic.length + 1)) 0
      let varHdrLen := 2 + varintSize (toUint32 propsLen) + propsLen
      emit (PacketType.SUBSCRIBE.toByte <<< 4 ||| 0x02) (varHdrLen + payloadLen) fun buf off => do
        let (buf, off) ← writeUint16 o.packetID buf off
        let (buf, off) ← writePropertiesPrefix buf off propsLen
        let (buf, off) ← writeSubscriptionIdentifier buf off o.subscriptionIdentifier
        let (buf, off) ← writePropertyUserProps buf off o.userProperties
        o.filters.foldlM (fun r f => writeFilter f r.1 r.2) (buf, off)

/-- The loop over the filters; each takes three bytes at least.
SOURCE: wire/subscribe.go:144-162 -/
def decodeFilters : (fuel : ℕ) → Bytes → Except Err (List SubscribeFilter)
  | 0, _ => .ok []
  | _ + 1, [] => .ok []
  | fuel + 1, buf => do
    let (topic, tn) ← (readUTF8String buf).mapError (connectError "SUBSCRIBE filter topic")
    let buf := buf.drop tn
    if buf.length < 1 then
      .error (.wrap .invalidPacket "SUBSCRIBE filter options byte missing" [])
    let rest ← decodeFilters fuel (buf.drop 1)
    return decodeSubscribeFilter topic (buf.getD 0 0) :: rest

/-- SOURCE: wire/subscribe.go:123-177 -/
def decodeSubscribe (buf : Bytes) (flags : UInt8) : Except Err Subscribe := do
  if flags ≠ 0x02 then .error (.wrap .invalidPacket "SUBSCRIBE reserved flags must be 0x02" [])
  if buf.length < 2 then .error (.wrap .invalidPacket "SUBSCRIBE truncated packet id" [])
  let packetID := UInt16.ofNat (uint16 buf)
  let buf := buf.drop 2
  let (props, n) ← (readProperties buf).mapError (connectError "SUBSCRIBE properties")
  let buf := buf.drop n
  let filters ← decodeFilters buf.length buf
  if filters.length = 0 then .error (.wrap .invalidPacket "SUBSCRIBE has no filters" [])
  return { packetID, properties := props, filters }

/-- SOURCE: wire/subscribe.go:269-308 -/
def writeSubAckLike (pktType : PacketType) (o : AckListOpts) : Except Failure (Cells UInt8) :=
  if o.reasonCodes.length = 0 then
    .error (.error (.wrap .invalidPacket "%s requires at least one reason code"
      [.packetType pktType]))
  else
    let propsLen := reasonPropsLen o.reasonString o.userProperties
    let varHdrLen := 2 + varintSize (toUint32 propsLen) + propsLen
    emit (pktType.toByte <<< 4) (varHdrLen + o.reasonCodes.length) fun buf off => do
      let (buf, off) ← writeUint16 o.packetID buf off
      let (buf, off) ← writePropertiesPrefix buf off propsLen
      let (buf, off) ← writeReasonProps o.reasonString o.userProperties buf off
      o.reasonCodes.foldlM (fun r c => (r.1.store r.2 [c]).map (·, r.2 + 1)) (buf, off)

/-- SOURCE: wire/subscribe.go:239-244 -/
def writeSuback (o : SubackOpts) : Except Failure (Cells UInt8) :=
  match validateAckList .SUBACK o with
  | .error e => .error (.error e)
  | .ok () => writeSubAckLike .SUBACK o

/-- SOURCE: wire/subscribe.go:510-515 -/
def writeUnsuback (o : UnsubackOpts) : Except Failure (Cells UInt8) :=
  match validateAckList .UNSUBACK o with
  | .error e => .error (.error e)
  | .ok () => writeSubAckLike .UNSUBACK o

/-- SOURCE: wire/subscribe.go:314-338 -/
def readSubAckLike (buf : Bytes) (pktType : PacketType) : Except Err AckList := do
  if buf.length < 2 then
    .error (.wrap .invalidPacket "%s truncated packet id" [.packetType pktType])
  let packetID := UInt16.ofNat (uint16 buf)
  let buf := buf.drop 2
  let (props, n) ← (readProperties buf).mapError
    (.wrapCause .invalidPacket "%s properties" [.packetType pktType])
  let buf := buf.drop n
  if buf.length = 0 then
    .error (.wrap .invalidPacket "%s has no reason codes" [.packetType pktType])
  return { packetID, properties := props, reasonCodes := buf }

/-- SOURCE: wire/subscribe.go:242-260 and 453-471 -/
def decodeAckList (pktType : PacketType) (buf : Bytes) (flags : UInt8) : Except Err AckList := do
  if flags ≠ 0x00 then
    .error (.wrap .invalidPacket "%s reserved flags must be 0" [.packetType pktType])
  readSubAckLike buf pktType

/-- SOURCE: wire/subscribe.go:247-265 -/
def decodeSuback (buf : Bytes) (flags : UInt8) : Except Err Suback :=
    decodeAckList .SUBACK buf flags

/-- SOURCE: wire/subscribe.go:518-536 -/
def decodeUnsuback (buf : Bytes) (flags : UInt8) : Except Err Unsuback :=
  decodeAckList .UNSUBACK buf flags

/-- SOURCE: wire/subscribe.go:380-420 -/
def writeUnsubscribe (o : UnsubscribeOpts) : Except Failure (Cells UInt8) :=
  match validateUnsubscribeOpts o with
  | .error e => .error (.error e)
  | .ok () =>
    if o.topics.length = 0 then .error (.error (.sentinel .emptyFilterList))
    else
      let propsLen := userPropertiesLen o.userProperties
      let payloadLen := o.topics.foldl (fun n t => n + (2 + t.length)) 0
      let varHdrLen := 2 + varintSize (toUint32 propsLen) + propsLen
      emit (PacketType.UNSUBSCRIBE.toByte <<< 4 ||| 0x02) (varHdrLen + payloadLen) fun buf off => do
        let (buf, off) ← writeUint16 o.packetID buf off
        let (buf, off) ← writePropertiesPrefix buf off propsLen
        let (buf, off) ← writePropertyUserProps buf off o.userProperties
        o.topics.foldlM (fun r t => writeUTF8String r.1 r.2 t) (buf, off)

/-- SOURCE: wire/subscribe.go:447-457 -/
def decodeTopics : (fuel : ℕ) → Bytes → Except Err (List Bytes)
  | 0, _ => .ok []
  | _ + 1, [] => .ok []
  | fuel + 1, buf => do
    let (topic, tn) ← (readUTF8String buf).mapError (connectError "UNSUBSCRIBE topic")
    let rest ← decodeTopics fuel (buf.drop tn)
    return topic :: rest

/-- SOURCE: wire/subscribe.go:423-470 -/
def decodeUnsubscribe (buf : Bytes) (flags : UInt8) : Except Err Unsubscribe := do
  if flags ≠ 0x02 then .error (.wrap .invalidPacket "UNSUBSCRIBE reserved flags must be 0x02" [])
  if buf.length < 2 then .error (.wrap .invalidPacket "UNSUBSCRIBE truncated packet id" [])
  let packetID := UInt16.ofNat (uint16 buf)
  let buf := buf.drop 2
  let (props, n) ← (readProperties buf).mapError (connectError "UNSUBSCRIBE properties")
  let buf := buf.drop n
  let topics ← decodeTopics buf.length buf
  if topics.length = 0 then .error (.wrap .invalidPacket "UNSUBSCRIBE has no topics" [])
  return { packetID, properties := props, topics }

end Mqttv5.Program.Wire
