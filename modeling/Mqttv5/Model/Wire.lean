import Mqttv5.Model.Session

/-!
# MQTT 5 control packets

The types of the wire package: packet types, the errors its functions return, the options a
packet is encoded from and the packets a decoder returns. A string is its bytes; a slice whose
`nil` means something other than its empty value, and every pointer, is an `Option`.
-/

set_option autoImplicit false

namespace Mqttv5.Model.Wire

/-- SOURCE: wire/codec.go:39-55; `INVALID` is the reserved value 0. -/
inductive PacketType
  | INVALID | CONNECT | CONNACK | PUBLISH | PUBACK | PUBREC | PUBREL | PUBCOMP | SUBSCRIBE
  | SUBACK | UNSUBSCRIBE | UNSUBACK | PINGREQ | PINGRESP | DISCONNECT | AUTH
  deriving DecidableEq, Repr

namespace PacketType

/-- The numeric value of a packet type. -/
def toByte : PacketType → UInt8
  | INVALID => 0 | CONNECT => 1 | CONNACK => 2 | PUBLISH => 3 | PUBACK => 4 | PUBREC => 5
  | PUBREL => 6 | PUBCOMP => 7 | SUBSCRIBE => 8 | SUBACK => 9 | UNSUBSCRIBE => 10
  | UNSUBACK => 11 | PINGREQ => 12 | PINGRESP => 13 | DISCONNECT => 14 | AUTH => 15

/-- The packet type of the high nibble of a first byte. -/
def ofNibble (n : UInt8) : PacketType :=
  match n.toNat with
  | 1 => CONNECT | 2 => CONNACK | 3 => PUBLISH | 4 => PUBACK | 5 => PUBREC | 6 => PUBREL
  | 7 => PUBCOMP | 8 => SUBSCRIBE | 9 => SUBACK | 10 => UNSUBSCRIBE | 11 => UNSUBACK
  | 12 => PINGREQ | 13 => PINGRESP | 14 => DISCONNECT | 15 => AUTH | _ => INVALID

end PacketType

/-- The error values of the package, and the two of `io` it passes on. -/
inductive Sentinel
  | invalidPacket | unsupportedPacket | packetTooLarge | truncated | varintTooLarge
  | varintMalformed | invalidProperties | trailing | invalidTopic | stringTooLong | invalidField
  | invalidQoS | packetIDRequired | invalidProtocol | emptyFilterList | eof | unexpectedEOF
  deriving DecidableEq, Repr

/-- An argument of a format. -/
inductive Arg
  | num (n : ℕ) | bytes (b : Bytes) | packetType (t : PacketType)
  deriving DecidableEq, Repr

/-- An error: the formats and arguments it is built from, and what it wraps. -/
inductive Err
  | sentinel (s : Sentinel)
  | text (format : String) (args : List Arg)
  /-- A format that starts with `%w: `. -/
  | wrap (s : Sentinel) (format : String) (args : List Arg)
  /-- A format that starts with `%w: ` and ends in `: %w`. -/
  | wrapCause (s : Sentinel) (format : String) (args : List Arg) (cause : Err)
  /-- A format that ends in `: %w`. -/
  | context (format : String) (cause : Err)
  /-- A `*PacketError`. SOURCE: wire/validate.go:30-34 -/
  | packet (t : PacketType) (reason : ReasonCode) (detail : Err)
  deriving DecidableEq, Repr

namespace Err

/-- `errors.Is`; a packet error unwraps to `ErrInvalidPacket`.
SOURCE: wire/validate.go:45 -/
def is (s : Sentinel) : Err → Bool
  | .sentinel s' => s = s'
  | .text _ _ => false
  | .wrap s' _ _ => s = s'
  | .wrapCause s' _ _ cause => s = s' || cause.is s
  | .context _ cause => cause.is s
  | .packet _ _ _ => s = .invalidPacket

/-- `errors.As` with a `*PacketError`. -/
def isPacketError : Err → Bool
  | .sentinel _ => false
  | .text _ _ => false
  | .wrap _ _ _ => false
  | .wrapCause _ _ _ cause => cause.isPacketError
  | .context _ cause => cause.isPacketError
  | .packet _ _ _ => true

end Err

/-- SOURCE: wire/fields.go:340-342 -/
structure Properties where
  raw : Bytes
  deriving DecidableEq, Repr

/-- The zero value of `Properties`. -/
def Properties.none : Properties := ⟨[]⟩

/-- SOURCE: wire/publish.go:129-131 -/
structure UserProperty where
  key : Bytes
  value : Bytes
  deriving DecidableEq, Repr

/-- SOURCE: wire/publish.go:136-152 -/
structure PublishOpts where
  topic : Bytes
  payload : Bytes
  qos : UInt8
  retain : Bool
  dup : Bool
  packetID : UInt16
  payloadFormatIndicator : Option UInt8
  messageExpiryInterval : Option UInt32
  contentType : Bytes
  responseTopic : Bytes
  correlationData : Option Bytes
  topicAlias : UInt16
  userProperties : List UserProperty
  deriving DecidableEq, Repr

/-- SOURCE: wire/publish.go:21-35 -/
structure Publish where
  topic : Bytes
  payload : Bytes
  properties : Properties
  qos : UInt8
  retain : Bool
  dup : Bool
  packetID : UInt16
  deriving DecidableEq, Repr

/-- SOURCE: wire/publish.go:529-534 -/
structure PubRespOpts where
  packetID : UInt16
  reasonCode : ReasonCode
  reasonString : Bytes
  userProperties : List UserProperty
  deriving DecidableEq, Repr

/-- SOURCE: wire/publish.go:495-502 -/
structure PubResp where
  packetID : UInt16
  reasonCode : ReasonCode
  properties : Properties
  pktType : PacketType
  deriving DecidableEq, Repr

/-- SOURCE: wire/connect.go:71-84 -/
structure WillOpts where
  topic : Bytes
  payload : Bytes
  qos : UInt8
  retain : Bool
  willDelayInterval : Option UInt32
  payloadFormatIndicator : Option UInt8
  messageExpiryInterval : Option UInt32
  contentType : Bytes
  responseTopic : Bytes
  correlationData : Option Bytes
  userProperties : List UserProperty
  deriving DecidableEq, Repr

/-- SOURCE: wire/connect.go:87-105 -/
structure ConnectOpts where
  clientID : Bytes
  cleanStart : Bool
  keepAlive : UInt16
  username : Bytes
  password : Option Bytes
  will : Option WillOpts
  sessionExpiryInterval : Option UInt32
  receiveMaximum : Option UInt16
  maximumPacketSize : Option UInt32
  topicAliasMaximum : UInt16
  requestResponseInformation : Option UInt8
  requestProblemInformation : Option UInt8
  userProperties : List UserProperty
  authenticationMethod : Bytes
  authenticationData : Option Bytes
  deriving DecidableEq, Repr

/-- SOURCE: wire/connect.go:19-25 -/
structure Will where
  topic : Bytes
  payload : Bytes
  qos : UInt8
  retain : Bool
  properties : Properties
  deriving DecidableEq, Repr

/-- SOURCE: wire/connect.go:32-45 -/
structure Connect where
  protocolName : Bytes
  protocolVersion : UInt8
  cleanStart : Bool
  keepAlive : UInt16
  properties : Properties
  clientID : Bytes
  username : Bytes
  password : Option Bytes
  will : Option Will
  deriving DecidableEq, Repr

/-- SOURCE: wire/connect.go:465-486 -/
structure ConnackOpts where
  sessionPresent : Bool
  reasonCode : ReasonCode
  sessionExpiryInterval : Option UInt32
  receiveMaximum : Option UInt16
  maximumQoS : Option UInt8
  retainAvailable : Option UInt8
  maximumPacketSize : Option UInt32
  assignedClientIdentifier : Bytes
  topicAliasMaximum : UInt16
  reasonString : Bytes
  userProperties : List UserProperty
  wildcardSubscriptionAvailable : Option UInt8
  subscriptionIdentifierAvailable : Option UInt8
  sharedSubscriptionAvailable : Option UInt8
  serverKeepAlive : Option UInt16
  responseInformation : Bytes
  serverReference : Bytes
  authenticationMethod : Bytes
  authenticationData : Option Bytes
  deriving DecidableEq, Repr

/-- SOURCE: wire/connect.go:426-432 -/
structure Connack where
  sessionPresent : Bool
  reasonCode : ReasonCode
  properties : Properties
  deriving DecidableEq, Repr

/-- SOURCE: wire/connect.go:661-667 -/
structure AuthOpts where
  reasonCode : ReasonCode
  authenticationMethod : Bytes
  authenticationData : Option Bytes
  reasonString : Bytes
  userProperties : List UserProperty
  deriving DecidableEq, Repr

/-- SOURCE: wire/connect.go:635-640 -/
structure Auth where
  reasonCode : ReasonCode
  properties : Properties
  deriving DecidableEq, Repr

/-- SOURCE: wire/connect.go:809-815 -/
structure DisconnectOpts where
  reasonCode : ReasonCode
  sessionExpiryInterval : Option UInt32
  reasonString : Bytes
  serverReference : Bytes
  userProperties : List UserProperty
  deriving DecidableEq, Repr

/-- SOURCE: wire/connect.go:767-772 -/
structure Disconnect where
  reasonCode : ReasonCode
  properties : Properties
  deriving DecidableEq, Repr

/-- SOURCE: wire/subscribe.go:13-19 -/
structure SubscribeFilter where
  topic : Bytes
  qos : UInt8
  noLocal : Bool
  retainAsPublished : Bool
  retainHandling : UInt8
  deriving DecidableEq, Repr

/-- SOURCE: wire/subscribe.go:56-61 -/
structure SubscribeOpts where
  packetID : UInt16
  filters : List SubscribeFilter
  subscriptionIdentifier : Option UInt32
  userProperties : List UserProperty
  deriving DecidableEq, Repr

/-- SOURCE: wire/subscribe.go:25-31 -/
structure Subscribe where
  packetID : UInt16
  properties : Properties
  filters : List SubscribeFilter
  deriving DecidableEq, Repr

/-- SOURCE: wire/subscribe.go:226-231 and 437-442 -/
structure AckListOpts where
  packetID : UInt16
  reasonCodes : List ReasonCode
  reasonString : Bytes
  userProperties : List UserProperty
  deriving DecidableEq, Repr

abbrev SubackOpts := AckListOpts

abbrev UnsubackOpts := AckListOpts

/-- SOURCE: wire/subscribe.go:200-206 and 411-417 -/
structure AckList where
  packetID : UInt16
  properties : Properties
  reasonCodes : List ReasonCode
  deriving DecidableEq, Repr

abbrev Suback := AckList

abbrev Unsuback := AckList

/-- SOURCE: wire/subscribe.go:373-377 -/
structure UnsubscribeOpts where
  packetID : UInt16
  topics : List Bytes
  userProperties : List UserProperty
  deriving DecidableEq, Repr

/-- SOURCE: wire/subscribe.go:342-348 -/
structure Unsubscribe where
  packetID : UInt16
  properties : Properties
  topics : List Bytes
  deriving DecidableEq, Repr

/-- A decoded control packet.
SOURCE: wire/codec.go:111-114 -/
inductive Packet
  | connect (p : Connect)
  | connack (p : Connack)
  | publish (p : Publish)
  | pubResp (p : PubResp)
  | subscribe (p : Subscribe)
  | suback (p : Suback)
  | unsubscribe (p : Unsubscribe)
  | unsuback (p : Unsuback)
  | pingreq
  | pingresp
  | disconnect (p : Disconnect)
  | auth (p : Auth)
  deriving DecidableEq, Repr

/-- How an encoder fails: with an error, or by an index out of range. -/
inductive Failure
  | error (e : Err)
  | panic
  deriving DecidableEq, Repr

end Mqttv5.Model.Wire
