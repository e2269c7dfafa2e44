import Mqttv5.Program.Wire.Subscribe

/-!
# Control packets as MQTT 5 lays them out

A frame says what a packet consists of, and no length: a length is what `bytes` counts. The
encoders compute every length in a pass of their own; that they send the frame of their options
is what the analysis shows of them.

`written` is the frame with its property lengths as the encoders' arithmetic has them, which
keeps the low 32 bits and writes nothing for a value that has no encoding.
-/

set_option autoImplicit false

namespace Mqttv5.Interface.Wire

open Mqttv5.Computation
open Model (Bytes ReasonCode)
open Model.Wire
open Program (putUint32 decodeVarint propLayout PropLayout)
open Program.Wire

/-- A variable byte integer (section 1.5.5). -/
def varint (v : ℕ) : Bytes := encodeVarintLoop 4 v

/-- The number that a string of bytes is a variable byte integer for: groups of seven bits, the
lowest first, all but the last with their high bit set. -/
inductive Groups : Bytes → ℕ → Prop
  | last (b : UInt8) : b.toNat < 128 → Groups [b] b.toNat
  | more (b : UInt8) {e : Bytes} {v : ℕ} : 128 ≤ b.toNat → Groups e v →
      Groups (b :: e) (b.toNat % 128 + 128 * v)

/-- A string or binary data (sections 1.5.4 and 1.5.6). -/
def text (s : Bytes) : Bytes := putUint16 s.length ++ s

/-- The value of a property. -/
inductive PropVal
  | byte (v : UInt8) | uint16 (v : UInt16) | uint32 (v : UInt32) | varint (v : UInt32)
  | text (s : Bytes) | pair (k v : Bytes)
  deriving DecidableEq

namespace PropVal

def bytes : PropVal → Bytes
  | byte v => [v]
  | uint16 v => putUint16 v.toNat
  | uint32 v => putUint32 v.toNat
  | varint v => Wire.varint v.toNat
  | text s => Wire.text s
  | pair k v => Wire.text k ++ Wire.text v

/-- Every length in the value can be written. -/
def Sized : PropVal → Prop
  | varint v => v.toNat ≤ maxVarintValue
  | text s => s.length ≤ 0xffff
  | pair k v => k.length ≤ 0xffff ∧ v.length ≤ 0xffff
  | _ => True

end PropVal

/-- One property. -/
structure Entry where
  id : UInt8
  val : PropVal
  deriving DecidableEq

def Entry.bytes (e : Entry) : Bytes := e.id :: e.val.bytes

/-- A property section without its length. -/
def entryBytes (es : List Entry) : Bytes := es.flatMap Entry.bytes

/-- A part of a packet body. -/
inductive Item
  | raw (bs : Bytes)
  | text (s : Bytes)
  | props (es : List Entry)

namespace Item

def bytes : Item → Bytes
  | raw bs => bs
  | text s => Wire.text s
  | props es => Wire.varint (entryBytes es).length ++ entryBytes es

def Sized : Item → Prop
  | raw _ => True
  | text s => s.length ≤ 0xffff
  | props es => (entryBytes es).length ≤ maxVarintValue ∧ ∀ e ∈ es, e.val.Sized

/-- Every string of the part has at most 65,535 bytes. -/
def TextsSized : Item → Prop
  | raw _ => True
  | text s => s.length ≤ 0xffff
  | props es => ∀ e ∈ es, e.val.Sized

end Item

/-- A packet: its first byte, and the parts of its body. -/
structure Frame where
  first : UInt8
  items : List Item

namespace Frame

def body (f : Frame) : Bytes := f.items.flatMap Item.bytes

/-- The packet: its first byte, the Remaining Length and the body. -/
def bytes (f : Frame) : Bytes := f.first :: varint f.body.length ++ f.body

/-- Every length of the packet can be written: it is the number of bytes that follow. -/
def Sized (f : Frame) : Prop :=
  f.body.length ≤ maxVarintValue ∧ ∀ i ∈ f.items, i.Sized

end Frame

/-- The length a property section is written with. -/
def propertiesPrefix (propsLen : ℕ) : Bytes :=
  match encodeVarint (toUint32 propsLen) with
  | .error _ => []
  | .ok bs => bs

/-- What the encoders write of a part. -/
def Item.written : Item → Bytes
  | raw bs => bs
  | text s => Wire.text s
  | props es => propertiesPrefix (entryBytes es).length ++ entryBytes es

def writtenBody (items : List Item) : Bytes := items.flatMap Item.written

/-- What the encoders send of a frame. -/
def send (f : Frame) : Except Failure (Cells UInt8) :=
  match encodeVarint (toUint32 (writtenBody f.items).length) with
  | .error e => .error (.error e)
  | .ok vbi => .ok ((f.first :: vbi ++ writtenBody f.items).map some)

/-! The properties of an option, absent when the option is. -/

def optByte (id : UInt8) (v : Option UInt8) : List Entry := v.toList.map (⟨id, .byte ·⟩)

def optUint16 (id : UInt8) (v : Option UInt16) : List Entry := v.toList.map (⟨id, .uint16 ·⟩)

def optUint32 (id : UInt8) (v : Option UInt32) : List Entry := v.toList.map (⟨id, .uint32 ·⟩)

def optVarint (id : UInt8) (v : Option UInt32) : List Entry := v.toList.map (⟨id, .varint ·⟩)

def optBinary (id : UInt8) (v : Option Bytes) : List Entry := v.toList.map (⟨id, .text ·⟩)

def optString (id : UInt8) (s : Bytes) : List Entry := if s = [] then [] else [⟨id, .text s⟩]

def nonzeroUint16 (id : UInt8) (v : UInt16) : List Entry :=
  if v = 0 then [] else [⟨id, .uint16 v⟩]

def userEntries (ups : List UserProperty) : List Entry :=
  ups.map fun up => ⟨propUserProperty, .pair up.key up.value⟩

/-- The reason code and properties of a packet that may leave out either from the end. -/
def trimmed (reason : ReasonCode) (es : List Entry) : List Item :=
  if es = [] then if reason = ReasonCode.success then [] else [.raw [reason]]
  else [.raw [reason], .props es]

/-! ## The frames of the options -/

def publishEntries (o : PublishOpts) : List Entry :=
  optByte propPayloadFormat o.payloadFormatIndicator ++
    optUint32 Program.propMessageExpiryInterval o.messageExpiryInterval ++
    optString propContentType o.contentType ++ optString propResponseTopic o.responseTopic ++
    optBinary propCorrelationData o.correlationData ++
    nonzeroUint16 propTopicAlias o.topicAlias ++ userEntries o.userProperties

/-- The topic, the packet identifier and the properties of a PUBLISH. -/
def publishHeader (o : PublishOpts) : List Item :=
  [.text o.topic, .raw (if 0 < o.qos then putUint16 o.packetID.toNat else []),
    .props (publishEntries o)]

/-- The flags of a PUBLISH (section 3.3.1): DUP, QoS and RETAIN. -/
def publishFirst (o : PublishOpts) : UInt8 :=
  (0x30 : UInt8) ||| (if o.dup then (0x08 : UInt8) else 0) ||| (o.qos <<< 1) |||
    (if o.retain then (0x01 : UInt8) else 0)

def publishFrame (o : PublishOpts) : Frame where
  first := publishFirst o
  items := publishHeader o ++ [.raw o.payload]

def reasonEntries (reasonString : Bytes) (ups : List UserProperty) : List Entry :=
  optString propReasonString reasonString ++ userEntries ups

def pubRespFrame (t : PacketType) (flags : UInt8) (o : PubRespOpts) : Frame where
  first := t.toByte <<< 4 ||| flags
  items := .raw (putUint16 o.packetID.toNat) ::
    trimmed o.reasonCode (reasonEntries o.reasonString o.userProperties)

def connectEntries (o : ConnectOpts) : List Entry :=
  optUint32 propSessionExpiryInterval o.sessionExpiryInterval ++
    optUint16 propReceiveMaximum o.receiveMaximum ++
    optUint32 propMaximumPacketSize o.maximumPacketSize ++
    nonzeroUint16 propTopicAliasMaximum o.topicAliasMaximum ++
    optByte propRequestResponseInfo o.requestResponseInformation ++
    optByte propRequestProblemInfo o.requestProblemInformation ++
    optString propAuthMethod o.authenticationMethod ++
    optBinary propAuthData o.authenticationData ++ userEntries o.userProperties

def willEntries (w : WillOpts) : List Entry :=
  optUint32 propWillDelayInterval w.willDelayInterval ++
    optByte propPayloadFormat w.payloadFormatIndicator ++
    optUint32 Program.propMessageExpiryInterval w.messageExpiryInterval ++
    optString propContentType w.contentType ++ optString propResponseTopic w.responseTopic ++
    optBinary propCorrelationData w.correlationData ++ userEntries w.userProperties

def willItems : Option WillOpts → List Item
  | none => []
  | some w => [.props (willEntries w), .text w.topic, .text w.payload]

/-- The Connect Flags (section 3.1.2.3). -/
def connectFlags (o : ConnectOpts) : UInt8 :=
  (if o.cleanStart then (0x02 : UInt8) else 0) |||
    (match o.will with
      | none => (0 : UInt8)
      | some w => (0x04 : UInt8) ||| (w.qos <<< 3) ||| (if w.retain then (0x20 : UInt8) else 0)) |||
    (if o.password.isSome then (0x40 : UInt8) else 0) |||
    (if o.username = [] then (0 : UInt8) else 0x80)

def connectFrame (o : ConnectOpts) : Frame where
  first := 0x10
  items := [.text protocolName,
    .raw (protocolVersion :: connectFlags o :: putUint16 o.keepAlive.toNat),
    .props (connectEntries o), .text o.clientID] ++ willItems o.will ++
    (if o.username = [] then [] else [.text o.username]) ++ o.password.toList.map .text

def connackEntries (o : ConnackOpts) : List Entry :=
  optUint32 propSessionExpiryInterval o.sessionExpiryInterval ++
    optUint16 propReceiveMaximum o.receiveMaximum ++ optByte propMaximumQoS o.maximumQoS ++
    optByte propRetainAvailable o.retainAvailable ++
    optUint32 propMaximumPacketSize o.maximumPacketSize ++
    optString propAssignedClientID o.assignedClientIdentifier ++
    nonzeroUint16 propTopicAliasMaximum o.topicAliasMaximum ++
    optString propReasonString o.reasonString ++ userEntries o.userProperties ++
    optByte propWildcardSubAvailable o.wildcardSubscriptionAvailable ++
    optByte propSubscriptionIDAvailable o.subscriptionIdentifierAvailable ++
    optByte propSharedSubAvailable o.sharedSubscriptionAvailable ++
    optUint16 propServerKeepAlive o.serverKeepAlive ++
    optString propResponseInformation o.responseInformation ++
    optString propServerReference o.serverReference ++
    optString propAuthMethod o.authenticationMethod ++ optBinary propAuthData o.authenticationData

def connackFrame (o : ConnackOpts) : Frame where
  first := 0x20
  items := [.raw [if o.sessionPresent then 0x01 else 0x00, o.reasonCode],
    .props (connackEntries o)]

def authEntries (o : AuthOpts) : List Entry :=
  optString propAuthMethod o.authenticationMethod ++ optBinary propAuthData o.authenticationData ++
    optString propReasonString o.reasonString ++ userEntries o.userProperties

def authFrame (o : AuthOpts) : Frame where
  first := 0xF0
  items := trimmed o.reasonCode (authEntries o)

def disconnectEntries (o : DisconnectOpts) : List Entry :=
  optUint32 propSessionExpiryInterval o.sessionExpiryInterval ++
    optString propReasonString o.reasonString ++ optString propServerReference o.serverReference ++
    userEntries o.userProperties

def disconnectFrame (o : DisconnectOpts) : Frame where
  first := 0xE0
  items := trimmed o.reasonCode (disconnectEntries o)

def subscribeEntries (o : SubscribeOpts) : List Entry :=
  optVarint propSubscriptionIdentifier o.subscriptionIdentifier ++ userEntries o.userProperties

/-- The Subscription Options (section 3.8.3.1). -/
def filterOptions (f : SubscribeFilter) : UInt8 :=
  f.qos ||| (if f.noLocal then (0x04 : UInt8) else 0) |||
    (if f.retainAsPublished then (0x08 : UInt8) else 0) ||| (f.retainHandling <<< 4)

def subscribeFrame (o : SubscribeOpts) : Frame where
  first := 0x82
  items := [.raw (putUint16 o.packetID.toNat), .props (subscribeEntries o)] ++
    o.filters.flatMap fun f => [.text f.topic, .raw [filterOptions f]]

def ackListFrame (t : PacketType) (o : AckListOpts) : Frame where
  first := t.toByte <<< 4
  items := [.raw (putUint16 o.packetID.toNat),
    .props (reasonEntries o.reasonString o.userProperties), .raw o.reasonCodes]

def unsubscribeFrame (o : UnsubscribeOpts) : Frame where
  first := 0xA2
  items := [.raw (putUint16 o.packetID.toNat), .props (userEntries o.userProperties)] ++
    o.topics.map .text

/-! ### The properties of a section, in wire order

What a property section consists of, read from its first byte to its last: an identifier, the
value its type lays out, and so on until nothing is left. Lengths need not be the shortest. -/

/-- A string or binary data at the head of `buf`, and what follows it. -/
def readText : Bytes → Option (Bytes × Bytes)
  | a :: b :: rest =>
    let n := a.toNat * 256 + b.toNat
    if n ≤ rest.length then some (rest.take n, rest.drop n) else none
  | _ => none

/-- The types of the properties' values (Table 2-4 of the standard). -/
def propertyTable : List (UInt8 × PropLayout) :=
  [(1, .fixed 1), (2, .fixed 4), (3, .prefixed), (8, .prefixed), (9, .prefixed), (11, .varint),
    (17, .fixed 4), (18, .prefixed), (19, .fixed 2), (21, .prefixed), (22, .prefixed),
    (23, .fixed 1), (24, .fixed 4), (25, .fixed 1), (26, .prefixed), (28, .prefixed),
    (31, .prefixed), (33, .fixed 2), (34, .fixed 2), (35, .fixed 2), (36, .fixed 1),
    (37, .fixed 1), (38, .stringPair), (39, .fixed 4), (40, .fixed 1), (41, .fixed 1),
    (42, .fixed 1)]

/-- The type of the value of property `id`. -/
def layoutOf (id : UInt8) : PropLayout := (propertyTable.lookup id).getD .unknown

/-- INTERNAL: The code sorts the properties as the standard does. -/
theorem layoutOf_eq (id : UInt8) : layoutOf id = propLayout id := by
  have hall : ∀ n < 256, layoutOf (.ofNat n) = propLayout (.ofNat n) := by decide +kernel
  have h := hall id.toNat id.toNat_lt
  rwa [UInt8.ofNat_toNat] at h

/-- The value of property `id` at the head of `buf`, and what follows it (section 2.2.2.2). -/
def readVal (id : UInt8) (buf : Bytes) : Option (PropVal × Bytes) :=
  match layoutOf id with
  | .fixed 1 => match buf with
    | a :: rest => some (.byte a, rest)
    | _ => none
  | .fixed 2 => match buf with
    | a :: b :: rest => some (.uint16 (.ofNat (a.toNat * 256 + b.toNat)), rest)
    | _ => none
  | .fixed 4 => match buf with
    | a :: b :: c :: d :: rest => some (.uint32 (.ofNat
        (((a.toNat * 256 + b.toNat) * 256 + c.toNat) * 256 + d.toNat)), rest)
    | _ => none
  | .varint => (decodeVarint buf).map fun r => (.varint (.ofNat r.1), buf.drop r.2)
  | .prefixed => (readText buf).map fun r => (.text r.1, r.2)
  | .stringPair => do
    let (k, rest) ← readText buf
    let (v, rest) ← readText rest
    return (.pair k v, rest)
  | _ => none

/-- The section `raw` consists of the properties `es`, in this order. -/
inductive Parses : Bytes → List Entry → Prop
  | nil : Parses [] []
  | cons {id : UInt8} {buf rest : Bytes} {v : PropVal} {es : List Entry}
      (hv : readVal id buf = some (v, rest)) (hes : Parses rest es) :
      Parses (id :: buf) (⟨id, v⟩ :: es)

/-- INTERNAL: A property section parses in one way. -/
theorem Parses.unique {raw : Bytes} {es es' : List Entry} (h : Parses raw es)
    (h' : Parses raw es') : es' = es := by
  induction h generalizing es' with
  | nil => cases h'; rfl
  | cons hv _ ih =>
    cases h' with
    | cons hv' hes' =>
      rw [hv] at hv'
      cases hv'
      rw [ih hes']

/-- The value of the first property with an identifier. -/
def lookup (es : List Entry) (id : UInt8) : Option PropVal :=
  match es with
  | [] => none
  | e :: es => if e.id = id then some e.val else lookup es id

/-- The user property a property is. -/
def asUser (e : Entry) : Option UserProperty :=
  match e.val with
  | .pair k v => some ⟨k, v⟩
  | _ => none

/-- The Subscription Identifier a property is. -/
def asSubscriptionIdentifier (e : Entry) : Option UInt32 :=
  match e.val with
  | .varint v => if e.id = propSubscriptionIdentifier then some v else none
  | _ => none

end Mqttv5.Interface.Wire
