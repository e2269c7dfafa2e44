import Mqttv5.Program.Wire.Publish

/-!
# CONNECT, CONNACK, DISCONNECT, AUTH and the pings

wire/connect.go.
-/

set_option autoImplicit false

namespace Mqttv5.Program.Wire

open Mqttv5.Computation
open Model (Bytes ReasonCode)
open Model.Wire

/-- The bytes of `MQTT`. SOURCE: wire/connect.go:12 -/
def protocolName : Bytes := [0x4D, 0x51, 0x54, 0x54]

/-- SOURCE: wire/connect.go:15 -/
def protocolVersion : UInt8 := 5

/-- The length of an optional string or binary property. -/
def stringPropLen (v : Bytes) : ℕ := if v ≠ [] then 1 + 2 + v.length else 0

def binaryPropLen (v : Option Bytes) : ℕ :=
  match v with
  | some d => 1 + 2 + d.length
  | none => 0

/-- The length of an optional property of fixed size `n`, identifier included. -/
def fixedPropLen {α : Type} (v : Option α) (n : ℕ) : ℕ := if v.isSome then n else 0

/-- SOURCE: wire/connect.go:350-377 -/
def connectPropsLen (o : ConnectOpts) : ℕ :=
  fixedPropLen o.sessionExpiryInterval 5 + fixedPropLen o.receiveMaximum 3 +
    fixedPropLen o.maximumPacketSize 5 + (if o.topicAliasMaximum ≠ 0 then 3 else 0) +
    fixedPropLen o.requestResponseInformation 2 + fixedPropLen o.requestProblemInformation 2 +
    stringPropLen o.authenticationMethod + binaryPropLen o.authenticationData +
    userPropertiesLen o.userProperties

/-- SOURCE: wire/connect.go:379-389 -/
def writeConnectProps (o : ConnectOpts) : Filler UInt8 := fun buf off => do
  let (buf, off) ← writeProperty4 buf off propSessionExpiryInterval o.sessionExpiryInterval
  let (buf, off) ← writeProperty2P buf off propReceiveMaximum o.receiveMaximum
  let (buf, off) ← writeProperty4 buf off propMaximumPacketSize o.maximumPacketSize
  let (buf, off) ← writeProperty2 buf off propTopicAliasMaximum o.topicAliasMaximum
  let (buf, off) ← writeProperty1 buf off propRequestResponseInfo o.requestResponseInformation
  let (buf, off) ← writeProperty1 buf off propRequestProblemInfo o.requestProblemInformation
  let (buf, off) ← writePropertyString buf off propAuthMethod o.authenticationMethod
  let (buf, off) ← writePropertyBinary buf off propAuthData o.authenticationData
  writePropertyUserProps buf off o.userProperties

/-- SOURCE: wire/connect.go:391-412 -/
def willPropsLength (w : WillOpts) : ℕ :=
  fixedPropLen w.willDelayInterval 5 + fixedPropLen w.payloadFormatIndicator 2 +
    fixedPropLen w.messageExpiryInterval 5 + stringPropLen w.contentType +
    stringPropLen w.responseTopic + binaryPropLen w.correlationData +
    userPropertiesLen w.userProperties

/-- SOURCE: wire/connect.go:414-422 -/
def writeWillProps (w : WillOpts) : Filler UInt8 := fun buf off => do
  let (buf, off) ← writeProperty4 buf off propWillDelayInterval w.willDelayInterval
  let (buf, off) ← writeProperty1 buf off propPayloadFormat w.payloadFormatIndicator
  let (buf, off) ← writeProperty4 buf off propMessageExpiryInterval w.messageExpiryInterval
  let (buf, off) ← writePropertyString buf off propContentType w.contentType
  let (buf, off) ← writePropertyString buf off propResponseTopic w.responseTopic
  let (buf, off) ← writePropertyBinary buf off propCorrelationData w.correlationData
  writePropertyUserProps buf off w.userProperties

/-- SOURCE: wire/connect.go:329-348 -/
def encodeConnectFlags (o : ConnectOpts) : UInt8 :=
  let f : UInt8 := 0
  let f := if o.cleanStart then f ||| 0x02 else f
  let f := match o.will with
    | none => f
    | some w =>
      let f := f ||| 0x04
      let f := f ||| ((w.qos &&& 0x03) <<< 3)
      if w.retain then f ||| 0x20 else f
  let f := if o.password.isSome then f ||| 0x40 else f
  if o.username ≠ [] then f ||| 0x80 else f

/-- SOURCE: wire/connect.go:173-178 -/
def writeWill (will : Option WillOpts) (willPropsLen : ℕ) : Filler UInt8 := fun buf off =>
  match will with
  | none => some (buf, off)
  | some w => do
    let (buf, off) ← writePropertiesPrefix buf off willPropsLen
    let (buf, off) ← writeWillProps w buf off
    let (buf, off) ← writeUTF8String buf off w.topic
    writeBinaryData buf off w.payload

/-- SOURCE: wire/connect.go:181-183 -/
def writeUsername (username : Bytes) : Filler UInt8 := fun buf off =>
  if username ≠ [] then writeUTF8String buf off username else some (buf, off)

/-- SOURCE: wire/connect.go:186-188 -/
def writePassword (password : Option Bytes) : Filler UInt8 := fun buf off =>
  match password with
  | none => some (buf, off)
  | some p => writeBinaryData buf off p

/-- SOURCE: wire/connect.go:152-190 -/
def writeConnectBody (o : ConnectOpts) (propsLen willPropsLen : ℕ) : Filler UInt8 :=
  fun buf off => do
    let (buf, off) ← writeUTF8String buf off protocolName
    let buf ← buf.store off [protocolVersion]
    let off := off + 1
    let buf ← buf.store off [encodeConnectFlags o]
    let off := off + 1
    let (buf, off) ← writeUint16 o.keepAlive buf off
    let (buf, off) ← writePropertiesPrefix buf off propsLen
    let (buf, off) ← writeConnectProps o buf off
    let (buf, off) ← writeUTF8String buf off o.clientID
    let (buf, off) ← writeWill o.will willPropsLen buf off
    let (buf, off) ← writeUsername o.username buf off
    writePassword o.password buf off

/-- SOURCE: wire/connect.go:118-121 -/
def willLen (will : Option WillOpts) : ℕ :=
  match will with
  | some w => willPropsLength w
  | none => 0

/-- SOURCE: wire/connect.go:128-139 -/
def connectPayloadLen (o : ConnectOpts) (willPropsLen : ℕ) : ℕ :=
  let n := 2 + o.clientID.length
  let n := match o.will with
    | some w => n + (varintSize (toUint32 willPropsLen) + willPropsLen) +
        (2 + w.topic.length) + (2 + w.payload.length)
    | none => n
  let n := if o.username ≠ [] then n + (2 + o.username.length) else n
  match o.password with
  | some p => n + (2 + p.length)
  | none => n

/-- SOURCE: wire/connect.go:112-196 -/
def writeConnect (o : ConnectOpts) : Except Failure (Cells UInt8) :=
  match validateConnectOpts o with
  | .error e => .error (.error e)
  | .ok () =>
    let propsLen := connectPropsLen o
    let willPropsLen := willLen o.will
    let varHdrLen := 2 + protocolName.length + 1 + 1 + 2 + varintSize (toUint32 propsLen) + propsLen
    let payloadLen := connectPayloadLen o willPropsLen
    emit (PacketType.CONNECT.toByte <<< 4) (varHdrLen + payloadLen)
      (writeConnectBody o propsLen willPropsLen)

/-- The error of a CONNECT field. -/
def connectError (format : String) (cause : Err) : Err :=
  .wrapCause .invalidPacket format [] cause

/-- The fields of a will.
SOURCE: wire/connect.go:270-298 -/
def decodeWill (buf : Bytes) (willQoS : UInt8) (willRetain : Bool) :
    Except Err (Will × Bytes) := do
  let (willProps, m) ← (readProperties buf).mapError (connectError "CONNECT will properties")
  let buf := buf.drop m
  let (willTopic, m) ← (readUTF8String buf).mapError (connectError "CONNECT will topic")
  let buf := buf.drop m
  let (willPayload, m) ← (readBinaryData buf).mapError (connectError "CONNECT will payload")
  let buf := buf.drop m
  return ({ topic := willTopic, payload := willPayload, qos := willQoS, retain := willRetain,
            properties := willProps }, buf)

/-- The user name and the password.
SOURCE: wire/connect.go:304-322 -/
def decodeCredentials (buf : Bytes) (connFlags : UInt8) : Except Err (Bytes × Option Bytes) := do
  let (username, buf) ←
    if connFlags &&& 0x80 ≠ 0 then do
      let (u, m) ← (readUTF8String buf).mapError (connectError "CONNECT username")
      .ok (u, buf.drop m)
    else .ok ([], buf)
  if connFlags &&& 0x40 ≠ 0 then do
    let (p, _) ← (readBinaryData buf).mapError (connectError "CONNECT password")
    return (username, some p)
  else return (username, none)

/-- SOURCE: wire/connect.go:198-327 -/
def decodeConnect (buf : Bytes) (flags : UInt8) : Except Err Connect := do
  if flags ≠ 0x00 then .error (.wrap .invalidPacket "CONNECT reserved flags must be 0" [])
  let (name, n) ← (readUTF8String buf).mapError (connectError "CONNECT protocol name")
  let buf := buf.drop n
  if name ≠ protocolName then .error (.wrap .invalidProtocol "%q" [.bytes name])
  if buf.length < 1 then .error (.wrap .invalidPacket "CONNECT protocol version" [])
  let version := buf.getD 0 0
  let buf := buf.drop 1
  if version ≠ protocolVersion then
    .error (.wrap .invalidProtocol "version %d" [.num version.toNat])
  if buf.length < 1 then .error (.wrap .invalidPacket "CONNECT flags" [])
  let connFlags := buf.getD 0 0
  let buf := buf.drop 1
  if connFlags &&& 0x01 ≠ 0 then
    .error (.wrap .invalidPacket "CONNECT reserved flag bit set" [])
  if buf.length < 2 then .error (.wrap .invalidPacket "CONNECT keepalive" [])
  let keepAlive := UInt16.ofNat (uint16 buf)
  let buf := buf.drop 2
  let (props, n) ← (readProperties buf).mapError (connectError "CONNECT properties")
  let buf := buf.drop n
  let (clientID, n) ← (readUTF8String buf).mapError (connectError "CONNECT client id")
  let buf := buf.drop n
  let willQoS := (connFlags >>> 3) &&& 0x03
  let willRetain : Bool := connFlags &&& 0x20 ≠ 0
  let (will, buf) ←
    if connFlags &&& 0x04 ≠ 0 then do
      let (w, buf) ← decodeWill buf willQoS willRetain
      .ok (some w, buf)
    else if willQoS ≠ 0 ∨ willRetain then
      .error (.wrap .invalidPacket "CONNECT will qos/retain set without will flag" [])
    else .ok (none, buf)
  let (username, password) ← decodeCredentials buf connFlags
  return { protocolName := name, protocolVersion := version,
           cleanStart := connFlags &&& 0x02 ≠ 0, keepAlive, properties := props, clientID,
           username, password, will }

/-- SOURCE: wire/connect.go:578-629 -/
def connackPropsLen (o : ConnackOpts) : ℕ :=
  fixedPropLen o.sessionExpiryInterval 5 + fixedPropLen o.receiveMaximum 3 +
    fixedPropLen o.maximumQoS 2 + fixedPropLen o.retainAvailable 2 +
    fixedPropLen o.maximumPacketSize 5 + stringPropLen o.assignedClientIdentifier +
    (if o.topicAliasMaximum ≠ 0 then 3 else 0) + stringPropLen o.reasonString +
    fixedPropLen o.wildcardSubscriptionAvailable 2 +
    fixedPropLen o.subscriptionIdentifierAvailable 2 +
    fixedPropLen o.sharedSubscriptionAvailable 2 + fixedPropLen o.serverKeepAlive 3 +
    stringPropLen o.responseInformation + stringPropLen o.serverReference +
    stringPropLen o.authenticationMethod + binaryPropLen o.authenticationData +
    userPropertiesLen o.userProperties

/-- SOURCE: wire/connect.go:516-532 -/
def writeConnackProps (o : ConnackOpts) : Filler UInt8 := fun buf off => do
  let (buf, off) ← writeProperty4 buf off propSessionExpiryInterval o.sessionExpiryInterval
  let (buf, off) ← writeProperty2P buf off propReceiveMaximum o.receiveMaximum
  let (buf, off) ← writeProperty1 buf off propMaximumQoS o.maximumQoS
  let (buf, off) ← writeProperty1 buf off propRetainAvailable o.retainAvailable
  let (buf, off) ← writeProperty4 buf off propMaximumPacketSize o.maximumPacketSize
  let (buf, off) ← writePropertyString buf off propAssignedClientID o.assignedClientIdentifier
  let (buf, off) ← writeProperty2 buf off propTopicAliasMaximum o.topicAliasMaximum
  let (buf, off) ← writePropertyString buf off propReasonString o.reasonString
  let (buf, off) ← writePropertyUserProps buf off o.userProperties
  let (buf, off) ←
    writeProperty1 buf off propWildcardSubAvailable o.wildcardSubscriptionAvailable
  let (buf, off) ←
    writeProperty1 buf off propSubscriptionIDAvailable o.subscriptionIdentifierAvailable
  let (buf, off) ← writeProperty1 buf off propSharedSubAvailable o.sharedSubscriptionAvailable
  let (buf, off) ← writeProperty2P buf off propServerKeepAlive o.serverKeepAlive
  let (buf, off) ← writePropertyString buf off propResponseInformation o.responseInformation
  let (buf, off) ← writePropertyString buf off propServerReference o.serverReference
  let (buf, off) ← writePropertyString buf off propAuthMethod o.authenticationMethod
  writePropertyBinary buf off propAuthData o.authenticationData

/-- SOURCE: wire/connect.go:489-535 -/
def writeConnack (o : ConnackOpts) : Except Failure (Cells UInt8) :=
  match validateConnackOpts o with
  | .error e => .error (.error e)
  | .ok () =>
    let propsLen := connackPropsLen o
    let bodyLen := 1 + 1 + varintSize (toUint32 propsLen) + propsLen
    emit (PacketType.CONNACK.toByte <<< 4) bodyLen fun buf off => do
      let buf ← buf.store off [if o.sessionPresent then 0x01 else 0x00]
      let buf ← buf.store (off + 1) [o.reasonCode]
      let (buf, off) ← writePropertiesPrefix buf (off + 2) propsLen
      writeConnackProps o buf off

/-- SOURCE: wire/connect.go:538-576 -/
def decodeConnack (buf : Bytes) (flags : UInt8) : Except Err Connack := do
  if flags ≠ 0x00 then .error (.wrap .invalidPacket "CONNACK reserved flags must be 0" [])
  if buf.length < 2 then .error (.wrap .invalidPacket "CONNACK truncated" [])
  let ackFlags := buf.getD 0 0
  if ackFlags &&& 0xFE ≠ 0 then
    .error (.wrap .invalidPacket "CONNACK reserved flag bits set" [])
  let reason := buf.getD 1 0
  let buf := buf.drop 2
  let (props, n) ← (readProperties buf).mapError (connectError "CONNACK properties")
  if n ≠ buf.length then .error (connectError "CONNACK properties" (.sentinel .trailing))
  return { sessionPresent := ackFlags &&& 0x01 ≠ 0, reasonCode := reason, properties := props }

/-- SOURCE: wire/connect.go:666-676 -/
def authPropsLen (o : AuthOpts) : ℕ :=
  stringPropLen o.authenticationMethod + binaryPropLen o.authenticationData +
    stringPropLen o.reasonString + userPropertiesLen o.userProperties

/-- SOURCE: wire/connect.go:710-713 -/
def writeAuthProps (o : AuthOpts) : Filler UInt8 := fun buf off => do
  let (buf, off) ← writePropertyString buf off propAuthMethod o.authenticationMethod
  let (buf, off) ← writePropertyBinary buf off propAuthData o.authenticationData
  let (buf, off) ← writePropertyString buf off propReasonString o.reasonString
  writePropertyUserProps buf off o.userProperties

/-- An empty body takes no buffer.
SOURCE: wire/connect.go:670-725 -/
def writeAuth (o : AuthOpts) : Except Failure (Cells UInt8) :=
  match validateAuthOpts o with
  | .error e => .error (.error e)
  | .ok () =>
    let propsLen := authPropsLen o
    emit (PacketType.AUTH.toByte <<< 4) (trimmedLen o.reasonCode propsLen)
      (writeTrimmed o.reasonCode propsLen (writeAuthProps o))

/-- The body of an AUTH or a DISCONNECT: a reason code and properties, either left out from the
end.
SOURCE: wire/connect.go:721-753 and 869-901 -/
def decodeReasonBody (t : PacketType) (buf : Bytes) (flags : UInt8) :
    Except Err (ReasonCode × Properties) := do
  if flags ≠ 0x00 then .error (.wrap .invalidPacket "%s reserved flags must be 0" [.packetType t])
  if 0 < buf.length then
    let props ← readLastProperties t (buf.drop 1)
    return (buf.getD 0 0, props)
  else return (.success, .none)

/-- SOURCE: wire/connect.go:728-760 -/
def decodeAuth (buf : Bytes) (flags : UInt8) : Except Err Auth :=
  (decodeReasonBody .AUTH buf flags).map fun r => ⟨r.1, r.2⟩

/-- SOURCE: wire/connect.go:812-822 -/
def disconnectPropsLen (o : DisconnectOpts) : ℕ :=
  fixedPropLen o.sessionExpiryInterval 5 + stringPropLen o.reasonString +
    stringPropLen o.serverReference + userPropertiesLen o.userProperties

/-- SOURCE: wire/connect.go:858-861 -/
def writeDisconnectProps (o : DisconnectOpts) : Filler UInt8 := fun buf off => do
  let (buf, off) ← writeProperty4 buf off propSessionExpiryInterval o.sessionExpiryInterval
  let (buf, off) ← writePropertyString buf off propReasonString o.reasonString
  let (buf, off) ← writePropertyString buf off propServerReference o.serverReference
  writePropertyUserProps buf off o.userProperties

/-- SOURCE: wire/connect.go:818-873 -/
def writeDisconnect (o : DisconnectOpts) : Except Failure (Cells UInt8) :=
  match validateDisconnectOpts o with
  | .error e => .error (.error e)
  | .ok () =>
    let propsLen := disconnectPropsLen o
    emit (PacketType.DISCONNECT.toByte <<< 4) (trimmedLen o.reasonCode propsLen)
      (writeTrimmed o.reasonCode propsLen (writeDisconnectProps o))

/-- SOURCE: wire/connect.go:876-908 -/
def decodeDisconnect (buf : Bytes) (flags : UInt8) : Except Err Disconnect :=
  (decodeReasonBody .DISCONNECT buf flags).map fun r => ⟨r.1, r.2⟩

/-- SOURCE: wire/connect.go:950-953 -/
def writePingreq : Bytes := [PacketType.PINGREQ.toByte <<< 4, 0x00]

/-- SOURCE: wire/connect.go:956-959 -/
def writePingresp : Bytes := [PacketType.PINGRESP.toByte <<< 4, 0x00]

end Mqttv5.Program.Wire
