import Mqttv5.Program.Wire.Fields

/-!
# Validation

wire/validate.go: the checks the encoders make on their options, and those the decoder makes
on strings, topics and property sections. A set of property identifiers, a bit mask in the
source, is the list of its members.
-/

set_option autoImplicit false

namespace Mqttv5.Program.Wire

open Model (Bytes ReasonCode)
open Model.Wire

def reasonMalformedPacket : ReasonCode := 0x81
def reasonProtocolError : ReasonCode := 0x82
def reasonTopicAliasInvalid : ReasonCode := 0x94

/-- SOURCE: wire/validate.go:47-49 -/
def malformed (t : PacketType) (format : String) (args : List Arg) : Err :=
  .packet t reasonMalformedPacket (.text format args)

/-- SOURCE: wire/validate.go:51-53 -/
def protocolError (t : PacketType) (format : String) (args : List Arg) : Err :=
  .packet t reasonProtocolError (.text format args)

/-- SOURCE: wire/validate.go:57-70 -/
def asPacketError (t : PacketType) (err : Err) : Err :=
  if err.isPacketError then err
  else if err.is .invalidPacket || err.is .invalidProperties || err.is .truncated ||
      err.is .varintMalformed || err.is .unsupportedPacket then
    .packet t reasonMalformedPacket err
  else err

/-- SOURCE: wire/validate.go:74 -/
def fixedFlags : PacketType → UInt8
  | .PUBREL => 0x02
  | .SUBSCRIBE => 0x02
  | .UNSUBSCRIBE => 0x02
  | _ => 0

/-- The violation of a fixed header, and whether lenient decoding may let it through.
SOURCE: wire/validate.go:81-92 -/
def checkHeader (t : PacketType) (flags : UInt8) (remaining : ℕ) (minimal : Bool) :
    Option Err × Bool :=
  if (t = .PINGREQ ∨ t = .PINGRESP) ∧ remaining ≠ 0 then
    (some (malformed t "non-empty body (%d bytes)" [.num remaining]), false)
  else if t ≠ .PUBLISH ∧ t ≠ .INVALID ∧ flags ≠ fixedFlags t then
    (some (malformed t "reserved fixed-header flags %#x" [.num flags.toNat]), t = .PINGRESP)
  else if !minimal then
    (some (malformed t "Remaining Length not minimally encoded" []), true)
  else (none, false)

/-- The ranges the bytes after a first byte must be in, by the tables of `unicode/utf8`;
`none` is a byte no encoding starts with. -/
def utf8First (b : UInt8) : Option (List (UInt8 × UInt8)) :=
  if b < 0x80 then some []
  else if b < 0xC2 then none
  else if b < 0xE0 then some [(0x80, 0xBF)]
  else if b = 0xE0 then some [(0xA0, 0xBF), (0x80, 0xBF)]
  else if b = 0xED then some [(0x80, 0x9F), (0x80, 0xBF)]
  else if b < 0xF0 then some [(0x80, 0xBF), (0x80, 0xBF)]
  else if b = 0xF0 then some [(0x90, 0xBF), (0x80, 0xBF), (0x80, 0xBF)]
  else if b < 0xF4 then some [(0x80, 0xBF), (0x80, 0xBF), (0x80, 0xBF)]
  else if b = 0xF4 then some [(0x80, 0x8F), (0x80, 0xBF), (0x80, 0xBF)]
  else none

/-- `utf8.Valid` inside an encoding whose next bytes must be in `need`. -/
def utf8Loop : (need : List (UInt8 × UInt8)) → Bytes → Bool
  | [], [] => true
  | _ :: _, [] => false
  | [], b :: bs => match utf8First b with
    | none => false
    | some need => utf8Loop need bs
  | (lo, hi) :: need, b :: bs => decide (lo ≤ b ∧ b ≤ hi) && utf8Loop need bs

/-- `utf8.Valid`. -/
def utf8Valid (b : Bytes) : Bool := utf8Loop [] b

/-- `binary.LittleEndian.Uint64`. -/
def word (bs : List UInt8) : ℕ := bs.foldr (fun b n => b.toNat + 256 * n) 0

def ones : ℕ := 0x0101010101010101
def highs : ℕ := 0x8080808080808080
def plusWord : ℕ := 0x2B2B2B2B2B2B2B2B
def hashWord : ℕ := 0x2323232323232323

/-- The subtraction of two `uint64`. -/
def sub64 (x y : ℕ) : ℕ := (x + (2 ^ 64 - y)) % 2 ^ 64

/-- The loop over whole words: the bytes from the first word on that is flagged, or that is
not whole. -/
def screen (flagged : ℕ → Bool) : Bytes → Bytes
  | b0 :: b1 :: b2 :: b3 :: b4 :: b5 :: b6 :: b7 :: rest =>
    if flagged (word [b0, b1, b2, b3, b4, b5, b6, b7]) then
      b0 :: b1 :: b2 :: b3 :: b4 :: b5 :: b6 :: b7 :: rest
    else screen flagged rest
  | b => b

/-- The loop byte by byte.
SOURCE: wire/validate.go:142-152 -/
def validUTF8Rest : Bytes → Bool
  | [] => true
  | c :: rest =>
    if c = 0 then false
    else if 0x80 ≤ c then utf8Valid (c :: rest) && decide (0 ∉ c :: rest)
    else validUTF8Rest rest

/-- SOURCE: wire/validate.go:132-153 -/
def validUTF8Bytes (b : Bytes) : Bool :=
  validUTF8Rest (screen (fun x => (sub64 x ones ||| x) &&& highs != 0) b)

/-- SOURCE: wire/validate.go:96-98 -/
def validUTF8 (s : Bytes) : Bool := validUTF8Bytes s

/-- `ContainsAny(s, "+#")`. -/
def containsWildcard (s : Bytes) : Bool := decide (0x2B ∈ s ∨ 0x23 ∈ s)

/-- SOURCE: wire/validate.go:114-125 -/
def scanTopicRest (wildcard : Bool) : Bytes → Bool × Bool
  | [] => (true, wildcard)
  | c :: rest =>
    if c = 0x2B ∨ c = 0x23 then scanTopicRest true rest
    else if c = 0 then (false, wildcard)
    else if 0x80 ≤ c then
      (utf8Valid (c :: rest) && decide (0 ∉ c :: rest), wildcard || containsWildcard (c :: rest))
    else scanTopicRest wildcard rest

/-- SOURCE: wire/validate.go:102-126 -/
def scanTopicName (s : Bytes) : Bool × Bool :=
  scanTopicRest false
    (screen (fun x => (sub64 x ones ||| x ||| sub64 (x ^^^ plusWord) ones |||
      sub64 (x ^^^ hashWord) ones) &&& highs != 0) s)

/-- SOURCE: wire/validate.go:159-170 -/
def validTopicName (name : Bytes) : Except Err Unit :=
  if 0xffff < name.length then
    .error (.wrap .stringTooLong "topic name of %d bytes" [.num name.length])
  else if !validUTF8 name then
    .error (.wrap .invalidTopic "topic name is not well-formed UTF-8 or contains U+0000" [])
  else if containsWildcard name then
    .error (.wrap .invalidTopic "topic name %q contains a wildcard" [.bytes name])
  else .ok ()

/-- The bytes of `$share/`. -/
def sharePrefix : Bytes := [0x24, 0x73, 0x68, 0x61, 0x72, 0x65, 0x2F]

/-- The levels of a filter, checked one after the other; `rest` are those that follow.
SOURCE: wire/validate.go:196-206 -/
def checkLevels (filter : Bytes) : List Bytes → Except Err Unit
  | [] => .ok ()
  | l :: rest =>
    if l = [0x23] ∧ rest ≠ [] then
      .error (.wrap .invalidTopic "'#' must be the last level in %q" [.bytes filter])
    else if l ≠ [0x23] ∧ 0x23 ∈ l then
      .error (.wrap .invalidTopic "'#' must occupy a whole level in %q" [.bytes filter])
    else if l ≠ [0x2B] ∧ 0x2B ∈ l then
      .error (.wrap .invalidTopic "'+' must occupy a whole level in %q" [.bytes filter])
    else checkLevels filter rest

/-- `strings.Cut(s, "/")`: what stands before and after the first slash, if there is one. -/
def cutSlash : Bytes → Option (Bytes × Bytes)
  | [] => none
  | b :: rest =>
    if b = 0x2F then some ([], rest)
    else (cutSlash rest).map fun r => (b :: r.1, r.2)

/-- SOURCE: wire/validate.go:176-208 -/
def validTopicFilter (filter : Bytes) : Except Err Unit :=
  if filter = [] then .error (.wrap .invalidTopic "empty topic filter" [])
  else if 0xffff < filter.length then
    .error (.wrap .stringTooLong "topic filter of %d bytes" [.num filter.length])
  else if !validUTF8 filter then
    .error (.wrap .invalidTopic "topic filter is not well-formed UTF-8 or contains U+0000" [])
  else if sharePrefix.isPrefixOf filter then
    match cutSlash (filter.drop sharePrefix.length) with
    | none => .error (.wrap .invalidTopic
        "shared subscription %q needs $share/\x7bShareName\x7d/\x7bfilter\x7d" [.bytes filter])
    | some (name, sub) =>
      if name = [] ∨ containsWildcard name then .error (.wrap .invalidTopic
        "shared subscription %q needs $share/\x7bShareName\x7d/\x7bfilter\x7d" [.bytes filter])
      else if sub = [] then
        .error (.wrap .invalidTopic "shared subscription %q has an empty filter" [.bytes filter])
      else checkLevels sub (sub.splitOn 0x2F)
  else checkLevels filter (filter.splitOn 0x2F)

/-- SOURCE: wire/validate.go:211 -/
def isSharedFilter (filter : Bytes) : Bool := sharePrefix.isPrefixOf filter

/-- SOURCE: wire/validate.go:225 -/
def reasonProps : List UInt8 := [propReasonString, propUserProperty]

/-- SOURCE: wire/validate.go:226-227 -/
def publishProps : List UInt8 :=
  [propPayloadFormat, propMessageExpiryInterval, propContentType, propResponseTopic,
    propCorrelationData, propSubscriptionIdentifier, propTopicAlias, propUserProperty]

/-- SOURCE: wire/validate.go:228-229 -/
def willProps : List UInt8 :=
  [propWillDelayInterval, propPayloadFormat, propMessageExpiryInterval, propContentType,
    propResponseTopic, propCorrelationData, propUserProperty]

/-- SOURCE: wire/validate.go:230-248 -/
def allowedProps : PacketType → List UInt8
  | .CONNECT => [propSessionExpiryInterval, propAuthMethod, propAuthData, propRequestProblemInfo,
      propRequestResponseInfo, propReceiveMaximum, propTopicAliasMaximum, propUserProperty,
      propMaximumPacketSize]
  | .CONNACK => [propSessionExpiryInterval, propAssignedClientID, propServerKeepAlive,
      propAuthMethod, propAuthData, propResponseInformation, propServerReference,
      propReasonString, propReceiveMaximum, propTopicAliasMaximum, propMaximumQoS,
      propRetainAvailable, propUserProperty, propMaximumPacketSize, propWildcardSubAvailable,
      propSubscriptionIDAvailable, propSharedSubAvailable]
  | .PUBLISH => publishProps
  | .PUBACK => reasonProps
  | .PUBREC => reasonProps
  | .PUBREL => reasonProps
  | .PUBCOMP => reasonProps
  | .SUBSCRIBE => [propSubscriptionIdentifier, propUserProperty]
  | .SUBACK => reasonProps
  | .UNSUBSCRIBE => [propUserProperty]
  | .UNSUBACK => reasonProps
  | .DISCONNECT => [propSessionExpiryInterval, propServerReference, propReasonString,
      propUserProperty]
  | .AUTH => [propAuthMethod, propAuthData, propReasonString, propUserProperty]
  | _ => []

/-- SOURCE: wire/validate.go:249-250 -/
def booleanProps : List UInt8 :=
  [propPayloadFormat, propRequestProblemInfo, propRequestResponseInfo, propMaximumQoS,
    propRetainAvailable, propWildcardSubAvailable, propSubscriptionIDAvailable,
    propSharedSubAvailable]

/-- SOURCE: wire/validate.go:251-252 -/
def stringProps : List UInt8 :=
  [propContentType, propResponseTopic, propAssignedClientID, propAuthMethod,
    propResponseInformation, propServerReference, propReasonString]

/-- The check of one property value.
SOURCE: wire/validate.go:278-311 -/
def checkPropValue (t : PacketType) (id : UInt8) (v : Bytes) : Option Err :=
  if id ∈ booleanProps then
    if 1 < v.getD 0 0 then
      some (protocolError t "property %#x has value %d, want 0 or 1"
        [.num id.toNat, .num (v.getD 0 0).toNat])
    else none
  else if id ∈ stringProps then
    if !validUTF8Bytes (v.drop 2) then
      some (malformed t "property %#x is not well-formed UTF-8" [.num id.toNat])
    else if id = propResponseTopic ∧ containsWildcard (v.drop 2) then
      some (protocolError t "Response Topic %q contains a wildcard" [.bytes (v.drop 2)])
    else none
  else if id = propUserProperty then
    let kn := uint16 v
    if !validUTF8Bytes ((v.take (2 + kn)).drop 2) || !validUTF8Bytes (v.drop (4 + kn)) then
      some (malformed t "user property is not well-formed UTF-8" [])
    else none
  else if id = propTopicAlias then
    if v.getD 0 0 = 0 ∧ v.getD 1 0 = 0 then
      some (.packet t reasonTopicAliasInvalid (.text "Topic Alias 0" []))
    else none
  else if id = propReceiveMaximum then
    if v.getD 0 0 = 0 ∧ v.getD 1 0 = 0 then some (protocolError t "Receive Maximum is 0" [])
    else none
  else if id = propMaximumPacketSize then
    if v.getD 0 0 ||| v.getD 1 0 ||| v.getD 2 0 ||| v.getD 3 0 = 0 then
      some (protocolError t "Maximum Packet Size is 0" [])
    else none
  else if id = propSubscriptionIdentifier then
    match decodeVarint v with
    | none => some (protocolError t "Subscription Identifier is 0" [])
    | some (n, _) =>
      if n = 0 then some (protocolError t "Subscription Identifier is 0" []) else none
  else none

/-- The loop of `validateProps` over the property bytes that are left.
SOURCE: wire/validate.go:260-313 -/
def validatePropsLoop (t : PacketType) (allowed : List UInt8) :
    (fuel : ℕ) → (seen : List UInt8) → Bytes → Option Err
  | 0, _, _ => none
  | _ + 1, _, [] => none
  | fuel + 1, seen, id :: rest =>
    if id ∉ allowed then some (malformed t "property %#x not allowed" [.num id.toNat])
    else match propValueSize id rest with
      | none => some (malformed t "property %#x truncated" [.num id.toNat])
      | some size =>
        if rest.length < size then some (malformed t "property %#x truncated" [.num id.toNat])
        else if id ∈ seen ∧
            ¬(id = propUserProperty ∨ (id = propSubscriptionIdentifier ∧ t = .PUBLISH)) then
          some (protocolError t "property %#x appears more than once" [.num id.toNat])
        else match checkPropValue t id (rest.take size) with
          | some e => some e
          | none => validatePropsLoop t allowed fuel (id :: seen) (rest.drop size)

/-- SOURCE: wire/validate.go:259-314 -/
def validateProps (t : PacketType) (raw : Bytes) (allowed : List UInt8) : Option Err :=
  validatePropsLoop t allowed raw.length [] raw

/-- SOURCE: wire/validate.go:317-329 -/
def reasonCodes : PacketType → List ReasonCode
  | .CONNACK => [0x00, 0x80, 0x81, 0x82, 0x83, 0x84, 0x85, 0x86, 0x87, 0x88, 0x89, 0x8A, 0x8C,
      0x90, 0x95, 0x97, 0x99, 0x9A, 0x9B, 0x9C, 0x9D, 0x9F]
  | .PUBACK => [0x00, 0x10, 0x80, 0x83, 0x87, 0x90, 0x91, 0x97, 0x99]
  | .PUBREC => [0x00, 0x10, 0x80, 0x83, 0x87, 0x90, 0x91, 0x97, 0x99]
  | .PUBREL => [0x00, 0x92]
  | .PUBCOMP => [0x00, 0x92]
  | .SUBACK => [0x00, 0x01, 0x02, 0x80, 0x83, 0x87, 0x8F, 0x91, 0x97, 0x9E, 0xA1, 0xA2]
  | .UNSUBACK => [0x00, 0x11, 0x80, 0x83, 0x87, 0x8F, 0x91]
  | .DISCONNECT => [0x00, 0x04, 0x80, 0x81, 0x82, 0x83, 0x87, 0x89, 0x8B, 0x8D, 0x8E, 0x8F,
      0x90, 0x93, 0x94, 0x95, 0x96, 0x97, 0x98, 0x99, 0x9A, 0x9B, 0x9C, 0x9D, 0x9E, 0x9F, 0xA0,
      0xA1, 0xA2]
  | .AUTH => [0x00, 0x18, 0x19]
  | _ => []

/-- SOURCE: wire/validate.go:331-338 -/
def checkReason (t : PacketType) (rc : ReasonCode) : Option Err :=
  if rc ∈ reasonCodes t then none
  else some (malformed t "reason code %#x not defined for %s" [.num rc.toNat, .packetType t])

/-- The first violation in a list of reason codes. -/
def checkReasons (t : PacketType) : List ReasonCode → Option Err
  | [] => none
  | rc :: rest => match checkReason t rc with
    | some e => some e
    | none => checkReasons t rest

/-- SOURCE: wire/validate.go:454-462 -/
def checkString (field : String) (s : Bytes) : Except Err Unit :=
  if 0xffff < s.length then
    .error (.wrap .stringTooLong (field ++ " is %d bytes") [.num s.length])
  else if !validUTF8 s then
    .error (.wrap .invalidField (field ++ " is not well-formed UTF-8 or contains U+0000") [])
  else .ok ()

/-- SOURCE: wire/validate.go:464-469 -/
def checkBinary (field : String) (b : Bytes) : Except Err Unit :=
  if 0xffff < b.length then
    .error (.wrap .stringTooLong (field ++ " is %d bytes") [.num b.length])
  else .ok ()

/-- SOURCE: wire/validate.go:471-481 -/
def checkUserProps : List UserProperty → Except Err Unit
  | [] => .ok ()
  | p :: rest => do
    checkString "user property name" p.key
    checkString "user property value" p.value
    checkUserProps rest

/-- SOURCE: wire/validate.go:483-488 -/
def checkBool (field : String) : Option UInt8 → Except Err Unit
  | none => .ok ()
  | some b =>
    if 1 < b then .error (.wrap .invalidField (field ++ " must be 0 or 1, got %d") [.num b.toNat])
    else .ok ()

/-- SOURCE: wire/validate.go:490-495 -/
def checkReasonCode (t : PacketType) (rc : ReasonCode) : Except Err Unit :=
  match checkReason t rc with
  | some _ => .error (.wrap .invalidField "reason code %#x is not defined for %s"
      [.num rc.toNat, .packetType t])
  | none => .ok ()

/-- The length check of a binary option that may be absent. -/
def checkBinaryP (field : String) (b : Option Bytes) : Except Err Unit :=
  checkBinary field (b.getD [])

/-- A value that must not be 0 if it is present. -/
def checkNonzero {α : Type} [DecidableEq α] [OfNat α 0] (text : String) :
    Option α → Except Err Unit
  | none => .ok ()
  | some v => if v = 0 then .error (.wrap .invalidField text []) else .ok ()

/-- A topic that is checked only if it is set; the error is put into `context`. -/
def checkTopicP (context : String) (topic : Bytes) : Except Err Unit :=
  if topic = [] then .ok ()
  else match validTopicName topic with
    | .error e => .error (.context context e)
    | .ok () => .ok ()

/-- SOURCE: wire/validate.go:497-528 -/
def validatePublishOpts (o : PublishOpts) : Except Err Unit := do
  if 2 < o.qos then .error (.sentinel .invalidQoS)
  if 0 < o.qos ∧ o.packetID = 0 then .error (.sentinel .packetIDRequired)
  if o.dup ∧ o.qos = 0 then .error (.wrap .invalidField "DUP set on a QoS 0 PUBLISH" [])
  if o.topic = [] ∧ o.topicAlias = 0 then
    .error (.wrap .invalidTopic "empty topic name without a Topic Alias" [])
  validTopicName o.topic
  checkTopicP "response topic" o.responseTopic
  checkBool "Payload Format Indicator" o.payloadFormatIndicator
  checkString "content type" o.contentType
  checkBinaryP "correlation data" o.correlationData
  checkUserProps o.userProperties

/-- SOURCE: wire/validate.go:530-558 -/
def validateWillOpts (w : WillOpts) : Except Err Unit := do
  if w.topic = [] then .error (.wrap .invalidTopic "empty will topic" [])
  checkTopicP "will topic" w.topic
  if 2 < w.qos then .error (.sentinel .invalidQoS)
  checkTopicP "will response topic" w.responseTopic
  checkBool "will Payload Format Indicator" w.payloadFormatIndicator
  checkString "will content type" w.contentType
  checkBinary "will payload" w.payload
  checkBinaryP "will correlation data" w.correlationData
  checkUserProps w.userProperties

/-- SOURCE: wire/validate.go:560-597 -/
def validateConnectOpts (o : ConnectOpts) : Except Err Unit := do
  checkString "client identifier" o.clientID
  checkString "user name" o.username
  checkBinaryP "password" o.password
  match o.will with
  | none => .ok ()
  | some w => validateWillOpts w
  checkNonzero "Receive Maximum 0" o.receiveMaximum
  checkNonzero "Maximum Packet Size 0" o.maximumPacketSize
  checkBool "Request Response Information" o.requestResponseInformation
  checkBool "Request Problem Information" o.requestProblemInformation
  checkString "authentication method" o.authenticationMethod
  if o.authenticationData ≠ none ∧ o.authenticationMethod = [] then
    .error (.wrap .invalidField "authentication data without an authentication method" [])
  checkBinaryP "authentication data" o.authenticationData
  checkUserProps o.userProperties

/-- SOURCE: wire/validate.go:606-619 -/
def checkFilters : List SubscribeFilter → Except Err Unit
  | [] => .ok ()
  | f :: rest => do
    validTopicFilter f.topic
    if 2 < f.qos then .error (.sentinel .invalidQoS)
    if 2 < f.retainHandling then
      .error (.wrap .invalidField "Retain Handling %d" [.num f.retainHandling.toNat])
    if f.noLocal ∧ isSharedFilter f.topic then
      .error (.wrap .invalidField "No Local on shared subscription %q [MQTT-3.8.3-4]"
        [.bytes f.topic])
    checkFilters rest

/-- SOURCE: wire/validate.go:599-624 -/
def validateSubscribeOpts (o : SubscribeOpts) : Except Err Unit := do
  if o.packetID = 0 then .error (.sentinel .packetIDRequired)
  if o.filters = [] then .error (.sentinel .emptyFilterList)
  checkFilters o.filters
  match o.subscriptionIdentifier with
  | none => .ok ()
  | some id =>
    if id = 0 ∨ maxVarintValue < id.toNat then
      .error (.wrap .invalidField "Subscription Identifier %d outside 1..%d"
        [.num id.toNat, .num maxVarintValue])
    else .ok ()
  checkUserProps o.userProperties

/-- SOURCE: wire/validate.go:633-637 -/
def checkTopics : List Bytes → Except Err Unit
  | [] => .ok ()
  | f :: rest => do
    validTopicFilter f
    checkTopics rest

/-- SOURCE: wire/validate.go:626-639 -/
def validateUnsubscribeOpts (o : UnsubscribeOpts) : Except Err Unit := do
  if o.packetID = 0 then .error (.sentinel .packetIDRequired)
  if o.topics = [] then .error (.sentinel .emptyFilterList)
  checkTopics o.topics
  checkUserProps o.userProperties

/-- SOURCE: wire/validate.go:641-652 -/
def validatePubRespOpts (t : PacketType) (o : PubRespOpts) : Except Err Unit := do
  if o.packetID = 0 then .error (.sentinel .packetIDRequired)
  checkReasonCode t o.reasonCode
  checkString "reason string" o.reasonString
  checkUserProps o.userProperties

/-- SOURCE: wire/validate.go:654-665 -/
def validateDisconnectOpts (o : DisconnectOpts) : Except Err Unit := do
  checkReasonCode .DISCONNECT o.reasonCode
  checkString "reason string" o.reasonString
  checkString "server reference" o.serverReference
  checkUserProps o.userProperties

/-- SOURCE: wire/validate.go:667-681 -/
def validateAuthOpts (o : AuthOpts) : Except Err Unit := do
  checkReasonCode .AUTH o.reasonCode
  checkString "authentication method" o.authenticationMethod
  checkBinaryP "authentication data" o.authenticationData
  checkString "reason string" o.reasonString
  checkUserProps o.userProperties

/-- SOURCE: wire/validate.go:690-694 -/
def checkReasonList (t : PacketType) : List ReasonCode → Except Err Unit
  | [] => .ok ()
  | rc :: rest => do
    checkReasonCode t rc
    checkReasonList t rest

/-- SOURCE: wire/validate.go:683-699 -/
def validateAckList (t : PacketType) (o : AckListOpts) : Except Err Unit := do
  if o.packetID = 0 then .error (.sentinel .packetIDRequired)
  if o.reasonCodes = [] then
    .error (.wrap .invalidField "%s needs at least one reason code" [.packetType t])
  checkReasonList t o.reasonCodes
  checkString "reason string" o.reasonString
  checkUserProps o.userProperties

/-- SOURCE: wire/validate.go:701-733 -/
def validateConnackOpts (o : ConnackOpts) : Except Err Unit := do
  checkReasonCode .CONNACK o.reasonCode
  checkBool "Maximum QoS" o.maximumQoS
  checkBool "Retain Available" o.retainAvailable
  checkBool "Wildcard Subscription Available" o.wildcardSubscriptionAvailable
  checkBool "Subscription Identifier Available" o.subscriptionIdentifierAvailable
  checkBool "Shared Subscription Available" o.sharedSubscriptionAvailable
  checkNonzero "Receive Maximum 0" o.receiveMaximum
  checkNonzero "Maximum Packet Size 0" o.maximumPacketSize
  checkString "assigned client identifier" o.assignedClientIdentifier
  checkString "reason string" o.reasonString
  checkString "response information" o.responseInformation
  checkString "server reference" o.serverReference
  checkString "authentication method" o.authenticationMethod
  checkBinaryP "authentication data" o.authenticationData
  checkUserProps o.userProperties

end Mqttv5.Program.Wire
