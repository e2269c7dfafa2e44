import Mqttv5.Analysis.Wire.Decoding
import Mqttv5.Guarantees.Wire.Lengths

/-!
# Round trips

What an encoder sends, `ReadPacket` reads back: the fields and the properties of the packet are
the options it was made of, and the stream is left right after it, whatever follows and however
it is cut into reads.
-/

set_option autoImplicit false

namespace Mqttv5.Guarantees.Wire

open Analysis.Wire
open Mqttv5.Computation
open Interface.Wire
open Model (Bytes ReasonCode)
open Model.Wire
open Program (decodeVarint)
open Program.Wire

variable {flags : UInt8}

variable {t : PacketType} {P : Packet → Prop}

/-- Reading `bytes` with anything after it gives a packet with `P` and leaves what is after it. -/
def ReadsBack (bytes : Bytes) (P : Packet → Prop) : Prop :=
  ∀ (d : Decoder) (suffix : Bytes), d.maxPacket = 0 → d.lenient = false →
    d.br.content = bytes ++ suffix →
    ∃ p, (readPacket d).1 = .ok p ∧ (readPacket d).2.br.content = suffix ∧ P p

/-- The header of a packet with the flags of its type is accepted. -/
theorem checkHeader_none (hping : t ≠ .PINGREQ ∧ t ≠ .PINGRESP)
    (hflags : t = .PUBLISH ∨ flags = fixedFlags t) (n : ℕ) :
    checkHeader t flags n true = (none, false) := by
  unfold checkHeader
  rw [if_neg (by simp [hping]), if_neg (by rcases hflags with h | h <;> simp [h])]
  rfl

/-- A frame is read back as the packet its body is decoded to. -/
theorem readsBack_frame {f : Frame} (hlen : f.body.length ≤ maxVarintValue)
    (hfirst : typeOf f.first = t ∧ flagsOf f.first = flags)
    (hping : t ≠ .PINGREQ ∧ t ≠ .PINGRESP) (hflags : t = .PUBLISH ∨ flags = fixedFlags t)
    {p : Packet} (hd : decodeBody f.body t flags = .ok p) (hv : validatePacket p = none)
      (hp : P p) : ReadsBack f.bytes P := by
  obtain ⟨rfl, rfl⟩ := hfirst
  intro d suffix hlimit _ hcontent
  obtain ⟨h1, h2⟩ := readPacket_frame hcontent hlen hlimit (checkHeader_none hping hflags _)
    (bodyResult_of hd hv)
  exact ⟨p, h1, h2, hp⟩

/-! ## PUBLISH -/

/-- The options a PUBLISH carries: a packet identifier belongs to QoS 1 and 2. -/
def carried (o : PublishOpts) : PublishOpts :=
  { o with packetID := if 0 < o.qos then o.packetID else 0 }

theorem publish_readsBack {o : PublishOpts} (h : validatePublishOpts o = .ok ())
    (hlen : (publishFrame o).body.length ≤ maxVarintValue)
    (hp : P (.publish (publishOf o))) : ReadsBack (publishFrame o).bytes P := by
  have hq := (validatePublishOpts_ok.mp h).1
  obtain ⟨ht, -⟩ := publishFirst_bits hq
  have hd : decodeBody (publishFrame o).body .PUBLISH (flagsOf (publishFirst o)) =
      .ok (.publish (publishOf o)) := by
    simp only [decodeBody, decodePublish_frame h hlen]
    rfl
  exact readsBack_frame hlen ⟨ht, rfl⟩ (by decide) (.inl rfl) hd (validatePublish_publishOf h) hp

/-- The length of a frame is what the layout of the options says. -/
theorem publishFrame_length {o : PublishOpts}
    (hlen : (publishLayoutOf o).remaining ≤ maxVarintValue) :
    (publishFrame o).bytes.length = (publishLayoutOf o).total := by
  have hw : (writtenBody (publishFrame o).items).length ≤ maxVarintValue := by
    rw [← remaining_eq]
    exact hlen
  have hbody : (publishFrame o).body.length = (publishLayoutOf o).remaining := by
    rw [← writtenBody_eq hw, remaining_eq]
  have hvbi : (publishLayoutOf o).total =
      1 + varintSize (toUint32 (publishLayoutOf o).remaining) + (publishLayoutOf o).remaining := rfl
  rw [hvbi, toUint32_of_le hlen, Frame.bytes, List.cons_append, List.length_cons,
    List.length_append, hbody, varint_length hlen]
  omega

/-- Every PUBLISH encoder sends the same bytes, as many as the layout says, and they are read
back as the options, but for a packet identifier at QoS 0. -/
theorem publish_round_trip (o : PublishOpts) (h : validatePublishOpts o = .ok ())
    (hlen : (publishLayoutOf o).remaining ≤ maxVarintValue) :
    ∃ bytes : Bytes,
      (appendPublishHeader o).map (· ++ o.payload.map some) = .ok (bytes.map some) ∧
      writePublish o = .ok (bytes.map some) ∧ encodePublish o = .ok (bytes.map some) ∧
      marshalPublish o = .ok (bytes.map some) ∧ bytes.length = (publishLayoutOf o).total ∧
      ReadsBack bytes fun p => ∃ x, p = .publish x ∧ Publish.opts x = carried o := by
  have hw : (writtenBody (publishFrame o).items).length ≤ maxVarintValue := by
    rw [← remaining_eq]
    exact hlen
  have hsend := send_of_le hw
  refine ⟨(publishFrame o).bytes, ?_, ?_, ?_, ?_, publishFrame_length hlen, ?_⟩
  · rw [appendPublishHeader_eq h, hsend]
  · rw [writePublish_eq h, hsend]
  · rw [encodePublish, encodeWhole_eq h, hsend]
  · rw [marshalPublish, encodeWhole_eq h, hsend]
  · exact publish_readsBack h (by rw [← writtenBody_eq hw]; exact hw)
      ⟨publishOf o, rfl, publishOf_opts h⟩

/-- A PUBLISH at QoS 0 with a packet identifier. -/
def identified : PublishOpts where
  topic := [0x61]
  payload := [0x62]
  qos := 0
  retain := false
  dup := false
  packetID := 7
  payloadFormatIndicator := none
  messageExpiryInterval := some 60
  contentType := []
  responseTopic := [0x72]
  correlationData := some []
  topicAlias := 0
  userProperties := [⟨[0x6B], []⟩]

theorem publish_round_trip_identified :
    ∃ bytes : Bytes,
      (appendPublishHeader identified).map (· ++ identified.payload.map some) =
        .ok (bytes.map some) ∧
      writePublish identified = .ok (bytes.map some) ∧
      encodePublish identified = .ok (bytes.map some) ∧
      marshalPublish identified = .ok (bytes.map some) ∧
      bytes.length = (publishLayoutOf identified).total ∧
      ReadsBack bytes fun p => ∃ x, p = .publish x ∧ Publish.opts x = carried identified :=
  publish_round_trip identified (by decide) (by decide)

/-- The bytes of `identified`, in one read. -/
def identifiedStream : Decoder where
  br := ⟨16, [], [⟨(publishFrame identified).bytes, by decide⟩], by decide⟩
  maxPacket := 0
  lenient := false

/-- The packet identifier is accepted, not sent, and read back as 0. -/
theorem publish_identifier_lost :
    validatePublishOpts identified = .ok () ∧
      (publishLayoutOf identified).remaining ≤ maxVarintValue ∧
      writePublish identified = .ok (identifiedStream.br.content.map some) ∧
      ∃ x, (readPacket identifiedStream).1 = .ok (.publish x) ∧
        (Publish.opts x).packetID = 0 ∧ Publish.opts x ≠ identified := by
  refine ⟨by decide, by decide, by decide, publishOf identified, by decide, by decide, by decide⟩

/-! ## The other packets

For each writer of a control packet: one packet is sent, its Remaining Length is the shortest
encoding of the number of bytes that follow, every byte of it was written, and `ReadPacket`
gives the options back. -/

/-- A string property, empty if it is absent. -/
def stringOf (p : Properties) (id : UInt8) : Bytes := (Properties.string p id).getD []

/-- An integer property, 0 if it is absent. -/
def uint16Of (p : Properties) (id : UInt8) : UInt16 := (Properties.uint16 p id).getD 0

/-- The section has no other properties than those of `es`. -/
def HasOnly (p : Properties) (es : List Entry) : Prop :=
  ∀ id, (∀ e ∈ es, e.id ≠ id) → Properties.find p id = none

def willFields (w : Will) : WillOpts where
  topic := w.topic
  payload := w.payload
  qos := w.qos
  retain := w.retain
  willDelayInterval := Properties.uint32 w.properties propWillDelayInterval
  payloadFormatIndicator := Properties.byte w.properties propPayloadFormat
  messageExpiryInterval := Properties.uint32 w.properties Program.propMessageExpiryInterval
  contentType := stringOf w.properties propContentType
  responseTopic := stringOf w.properties propResponseTopic
  correlationData := Properties.binary w.properties propCorrelationData
  userProperties := Properties.userProperties w.properties

def connectFields (p : Connect) : ConnectOpts where
  clientID := p.clientID
  cleanStart := p.cleanStart
  keepAlive := p.keepAlive
  username := p.username
  password := p.password
  will := p.will.map willFields
  sessionExpiryInterval := Properties.uint32 p.properties propSessionExpiryInterval
  receiveMaximum := Properties.uint16 p.properties propReceiveMaximum
  maximumPacketSize := Properties.uint32 p.properties propMaximumPacketSize
  topicAliasMaximum := uint16Of p.properties propTopicAliasMaximum
  requestResponseInformation := Properties.byte p.properties propRequestResponseInfo
  requestProblemInformation := Properties.byte p.properties propRequestProblemInfo
  userProperties := Properties.userProperties p.properties
  authenticationMethod := stringOf p.properties propAuthMethod
  authenticationData := Properties.binary p.properties propAuthData

def connackFields (p : Connack) : ConnackOpts where
  sessionPresent := p.sessionPresent
  reasonCode := p.reasonCode
  sessionExpiryInterval := Properties.uint32 p.properties propSessionExpiryInterval
  receiveMaximum := Properties.uint16 p.properties propReceiveMaximum
  maximumQoS := Properties.byte p.properties propMaximumQoS
  retainAvailable := Properties.byte p.properties propRetainAvailable
  maximumPacketSize := Properties.uint32 p.properties propMaximumPacketSize
  assignedClientIdentifier := stringOf p.properties propAssignedClientID
  topicAliasMaximum := uint16Of p.properties propTopicAliasMaximum
  reasonString := stringOf p.properties propReasonString
  userProperties := Properties.userProperties p.properties
  wildcardSubscriptionAvailable := Properties.byte p.properties propWildcardSubAvailable
  subscriptionIdentifierAvailable := Properties.byte p.properties propSubscriptionIDAvailable
  sharedSubscriptionAvailable := Properties.byte p.properties propSharedSubAvailable
  serverKeepAlive := Properties.uint16 p.properties propServerKeepAlive
  responseInformation := stringOf p.properties propResponseInformation
  serverReference := stringOf p.properties propServerReference
  authenticationMethod := stringOf p.properties propAuthMethod
  authenticationData := Properties.binary p.properties propAuthData

def pubRespFields (p : PubResp) : PubRespOpts where
  packetID := p.packetID
  reasonCode := p.reasonCode
  reasonString := stringOf p.properties propReasonString
  userProperties := Properties.userProperties p.properties

def subscribeFields (p : Subscribe) : SubscribeOpts where
  packetID := p.packetID
  filters := p.filters
  subscriptionIdentifier := Properties.varint p.properties propSubscriptionIdentifier
  userProperties := Properties.userProperties p.properties

def ackListFields (p : AckList) : AckListOpts where
  packetID := p.packetID
  reasonCodes := p.reasonCodes
  reasonString := stringOf p.properties propReasonString
  userProperties := Properties.userProperties p.properties

def unsubscribeFields (p : Unsubscribe) : UnsubscribeOpts where
  packetID := p.packetID
  topics := p.topics
  userProperties := Properties.userProperties p.properties

def disconnectFields (p : Disconnect) : DisconnectOpts where
  reasonCode := p.reasonCode
  sessionExpiryInterval := Properties.uint32 p.properties propSessionExpiryInterval
  reasonString := stringOf p.properties propReasonString
  serverReference := stringOf p.properties propServerReference
  userProperties := Properties.userProperties p.properties

def authFields (p : Auth) : AuthOpts where
  reasonCode := p.reasonCode
  authenticationMethod := stringOf p.properties propAuthMethod
  authenticationData := Properties.binary p.properties propAuthData
  reasonString := stringOf p.properties propReasonString
  userProperties := Properties.userProperties p.properties

/-- A control packet other than PUBLISH and the pings, with the options it is written from. -/
inductive Control
  | connect (o : ConnectOpts)
  | connack (o : ConnackOpts)
  | puback (o : PubRespOpts)
  | pubrec (o : PubRespOpts)
  | pubrel (o : PubRespOpts)
  | pubcomp (o : PubRespOpts)
  | subscribe (o : SubscribeOpts)
  | suback (o : SubackOpts)
  | unsubscribe (o : UnsubscribeOpts)
  | unsuback (o : UnsubackOpts)
  | disconnect (o : DisconnectOpts)
  | auth (o : AuthOpts)

namespace Control

def writer : Control → Writer
  | connect o => .connect o
  | connack o => .connack o
  | puback o => .puback o
  | pubrec o => .pubrec o
  | pubrel o => .pubrel o
  | pubcomp o => .pubcomp o
  | subscribe o => .subscribe o
  | suback o => .suback o
  | unsubscribe o => .unsubscribe o
  | unsuback o => .unsuback o
  | disconnect o => .disconnect o
  | auth o => .auth o

/-- An acknowledgement of type `t` shows the options `o`. -/
def ShowsAck (t : PacketType) (o : PubRespOpts) : Packet → Prop
  | .pubResp p => p.pktType = t ∧ pubRespFields p = o ∧
      HasOnly p.properties (reasonEntries o.reasonString o.userProperties)
  | _ => False

/-- Every field and property of the packet is the option it came from, and there is no property
besides. -/
def Shows : Control → Packet → Prop
  | connect o, .connect p => p.protocolName = protocolName ∧
      p.protocolVersion = protocolVersion ∧ connectFields p = o ∧
      HasOnly p.properties (connectEntries o) ∧
      ∀ w ∈ p.will, HasOnly w.properties (willEntries (willFields w))
  | connack o, .connack p => connackFields p = o ∧ HasOnly p.properties (connackEntries o)
  | puback o, p => ShowsAck .PUBACK o p
  | pubrec o, p => ShowsAck .PUBREC o p
  | pubrel o, p => ShowsAck .PUBREL o p
  | pubcomp o, p => ShowsAck .PUBCOMP o p
  | subscribe o, .subscribe p => subscribeFields p = o ∧ HasOnly p.properties (subscribeEntries o)
  | suback o, .suback p => ackListFields p = o ∧
      HasOnly p.properties (reasonEntries o.reasonString o.userProperties)
  | unsubscribe o, .unsubscribe p => unsubscribeFields p = o ∧
      HasOnly p.properties (userEntries o.userProperties)
  | unsuback o, .unsuback p => ackListFields p = o ∧
      HasOnly p.properties (reasonEntries o.reasonString o.userProperties)
  | disconnect o, .disconnect p => disconnectFields p = o ∧
      HasOnly p.properties (disconnectEntries o)
  | auth o, .auth p => authFields p = o ∧ HasOnly p.properties (authEntries o)
  | _, _ => False

end Control

theorem hasOnly_sectionOf {es : List Entry} (h : ∀ e ∈ es, Good t e) :
    HasOnly (sectionOf es) es := fun _ hid =>
  find_of_none (parses_section fun e he => (h e he).1) (lookup_none hid)

/-! ## The options of what is decoded -/

-- Field by field: each is read from the section of the entries, where its own entry is found.

theorem willFields_willOf {w : WillOpts} (h : validateWillOpts w = .ok ()) :
    willFields (willOf w) = w := by
  have hp := parses_section fun e he => (willEntries_good h e he).1
  cases w
  simp only [willFields, willOf, stringOf, WillOpts.mk.injEq, true_and]
  refine ⟨uint32_of_lookup hp ?_, byte_of_lookup hp ?_, uint32_of_lookup hp ?_,
    getD_string_of_lookup hp ?_, getD_string_of_lookup hp ?_, string_of_lookup hp ?_,
    (userProperties_eq hp).trans ?_⟩ <;>
    simp +decide [willEntries, lookup_userEntries]

theorem connectFields_connectOf {o : ConnectOpts} (h : validateConnectOpts o = .ok ()) :
    connectFields (connectOf o) = o := by
  have hp := parses_section fun e he => (connectEntries_good h e he).1
  have hwill : (o.will.map willOf).map willFields = o.will := by
    cases hw : o.will with
    | none => rfl
    | some w => simp [willFields_willOf ((validateConnectOpts_ok.mp h).2.2.2.1 w hw)]
  cases o
  simp only [connectFields, connectOf, stringOf, uint16Of, ConnectOpts.mk.injEq, true_and]
  refine ⟨hwill, uint32_of_lookup hp ?_, uint16_of_lookup hp ?_, uint32_of_lookup hp ?_,
    getD_uint16_of_lookup hp ?_, byte_of_lookup hp ?_, byte_of_lookup hp ?_,
    (userProperties_eq hp).trans ?_, getD_string_of_lookup hp ?_, string_of_lookup hp ?_⟩ <;>
    simp +decide [connectEntries, lookup_userEntries]

theorem connackFields_connackOf {o : ConnackOpts} (h : validateConnackOpts o = .ok ()) :
    connackFields (connackOf o) = o := by
  have hp := parses_section fun e he => (connackEntries_good h e he).1
  cases o
  simp only [connackFields, connackOf, stringOf, uint16Of, ConnackOpts.mk.injEq, true_and]
  refine ⟨uint32_of_lookup hp ?_, uint16_of_lookup hp ?_, byte_of_lookup hp ?_,
    byte_of_lookup hp ?_, uint32_of_lookup hp ?_, getD_string_of_lookup hp ?_,
    getD_uint16_of_lookup hp ?_, getD_string_of_lookup hp ?_, (userProperties_eq hp).trans ?_,
    byte_of_lookup hp ?_, byte_of_lookup hp ?_, byte_of_lookup hp ?_, uint16_of_lookup hp ?_,
    getD_string_of_lookup hp ?_, getD_string_of_lookup hp ?_, getD_string_of_lookup hp ?_,
    string_of_lookup hp ?_⟩ <;>
    simp +decide [connackEntries, lookup_userEntries]

/-- A reason string and user properties, read back. -/
theorem reasonFields {s : Bytes} {ups : List UserProperty} (hs : GoodString s)
    (hup : ∀ up ∈ ups, GoodUser up) :
    stringOf (sectionOf (reasonEntries s ups)) propReasonString = s ∧
      Properties.userProperties (sectionOf (reasonEntries s ups)) = ups := by
  have hp := parses_section fun e he =>
    (reasonEntries_good (t := .PUBACK) hs hup e he).1
  refine ⟨getD_string_of_lookup hp ?_, (userProperties_eq hp).trans ?_⟩ <;>
    simp +decide [reasonEntries, lookup_userEntries]

theorem disconnectFields_of {o : DisconnectOpts} (h : validateDisconnectOpts o = .ok ()) :
    disconnectFields ⟨o.reasonCode, sectionOf (disconnectEntries o)⟩ = o := by
  have hp := parses_section fun e he => (disconnectEntries_good h e he).1
  cases o
  simp only [disconnectFields, stringOf, DisconnectOpts.mk.injEq, true_and]
  refine ⟨uint32_of_lookup hp ?_, getD_string_of_lookup hp ?_, getD_string_of_lookup hp ?_,
    (userProperties_eq hp).trans ?_⟩ <;>
    simp +decide [disconnectEntries, lookup_userEntries]

theorem authFields_of {o : AuthOpts} (h : validateAuthOpts o = .ok ()) :
    authFields ⟨o.reasonCode, sectionOf (authEntries o)⟩ = o := by
  have hp := parses_section fun e he => (authEntries_good h e he).1
  cases o
  simp only [authFields, stringOf, AuthOpts.mk.injEq, true_and]
  refine ⟨getD_string_of_lookup hp ?_, string_of_lookup hp ?_, getD_string_of_lookup hp ?_,
    (userProperties_eq hp).trans ?_⟩ <;>
    simp +decide [authEntries, lookup_userEntries]

theorem subscribeFields_of {o : SubscribeOpts} (h : validateSubscribeOpts o = .ok ()) :
    subscribeFields (subscribeOf o) = o := by
  have hp := parses_section fun e he => (subscribeEntries_good h e he).1
  cases o
  simp only [subscribeFields, subscribeOf, SubscribeOpts.mk.injEq, true_and]
  refine ⟨varint_of_lookup hp ?_, (userProperties_eq hp).trans ?_⟩ <;>
    simp +decide [subscribeEntries, lookup_userEntries]

/-! ## Every control packet -/

theorem pubResp_readsBack {o : PubRespOpts}
    (h : validatePubRespOpts t o = .ok ()) (ht : AckType t flags)
    (hlen : (pubRespFrame t flags o).body.length ≤ maxVarintValue) :
    ReadsBack (pubRespFrame t flags o).bytes (Control.ShowsAck t o) := by
  obtain ⟨hid, hrc, hrs, hup⟩ := validatePubRespOpts_ok.mp h
  have hgood : ∀ e ∈ reasonEntries o.reasonString o.userProperties, Good t e :=
    reasonEntries_good hrs hup
  -- What the four types have in common.
  have htype : allowedProps t = reasonProps ∧ flags = fixedFlags t ∧
      (t ≠ .PINGREQ ∧ t ≠ .PINGRESP) ∧
      (typeOf (t.toByte <<< 4 ||| flags) = t ∧ flagsOf (t.toByte <<< 4 ||| flags) = flags) := by
    rcases ht with ⟨rfl, rfl⟩ | ⟨rfl, rfl⟩ | ⟨rfl, rfl⟩ | ⟨rfl, rfl⟩ <;> decide
  obtain ⟨hallowed, hflags, hping, hfirst⟩ := htype
  have hd : decodeBody (pubRespFrame t flags o).body t flags = .ok (.pubResp (pubRespOf t o)) := by
    have hmap : (decodePubResp (pubRespFrame t flags o).body t flags).map Packet.pubResp =
        .ok (.pubResp (pubRespOf t o)) := by
      rw [decodePubResp_frame ht hlen]
      rfl
    rcases ht with ⟨rfl, rfl⟩ | ⟨rfl, rfl⟩ | ⟨rfl, rfl⟩ | ⟨rfl, rfl⟩ <;> exact hmap
  have hreason : validateReason t o.reasonCode
      (sectionOf (reasonEntries o.reasonString o.userProperties)) = none :=
    validateReason_none hrc (reasonEntries_within _ _) (by decide) (by rw [hallowed]; decide)
      (by rw [hallowed]; decide) hgood
  have hv : validatePacket (.pubResp (pubRespOf t o)) = none := by
    simp only [validatePacket, pubRespOf, validateID, hid, if_false, hreason]
  obtain ⟨h1, h2⟩ := reasonFields hrs hup
  refine readsBack_frame hlen hfirst hping (.inr hflags) hd hv ⟨rfl, ?_, hasOnly_sectionOf hgood⟩
  simp only [pubRespFields, pubRespOf, h1, h2]

theorem ackList_readsBack {o : AckListOpts} (h : validateAckList t o = .ok ())
    (ht : t = .SUBACK ∨ t = .UNSUBACK)
    (hlen : (ackListFrame t o).body.length ≤ maxVarintValue) {p : Packet}
    (hd : decodeBody (ackListFrame t o).body t 0 = .ok p)
    (hv : validatePacket p = validateAckListPacket t (ackListOf o))
    (hp : ackListFields (ackListOf o) = o → HasOnly (ackListOf o).properties
      (reasonEntries o.reasonString o.userProperties) → P p) :
    ReadsBack (ackListFrame t o).bytes P := by
  obtain ⟨hid, -, hcodes, hrs, hup⟩ := validateAckList_ok.mp h
  have hgood : ∀ e ∈ reasonEntries o.reasonString o.userProperties, Good t e :=
    reasonEntries_good hrs hup
  have htype : allowedProps t = reasonProps ∧ 0 = fixedFlags t ∧
      (t ≠ .PINGREQ ∧ t ≠ .PINGRESP) ∧ (typeOf (t.toByte <<< 4) = t ∧
        flagsOf (t.toByte <<< 4) = 0) := by
    rcases ht with rfl | rfl <;> decide
  obtain ⟨hallowed, hflags, hping, hfirst⟩ := htype
  have hprops : validateProps t
      (sectionOf (reasonEntries o.reasonString o.userProperties)).raw (allowedProps t) = none :=
    validateProps_none (reasonEntries_within _ _) (by decide) (by rw [hallowed]; decide)
      (by rw [hallowed]; decide) hgood
  have hnone : validatePacket p = none := by
    rw [hv]
    simp only [validateAckListPacket, validateID, ackListOf, hid, if_false,
      checkReasons_none hcodes, hprops]
  obtain ⟨h1, h2⟩ := reasonFields hrs hup
  exact readsBack_frame hlen hfirst hping (.inr hflags) hd hnone
    (hp (by simp only [ackListFields, ackListOf, h1, h2]) (hasOnly_sectionOf hgood))

theorem connect_readsBack {o : ConnectOpts} (h : validateConnectOpts o = .ok ())
    (hlen : (connectFrame o).body.length ≤ maxVarintValue) :
    ReadsBack (connectFrame o).bytes (Control.connect o).Shows := by
  have hd : decodeBody (connectFrame o).body .CONNECT 0 = .ok (.connect (connectOf o)) := by
    simp only [decodeBody, decodeConnect_frame h hlen]
    rfl
  refine readsBack_frame hlen (by decide : typeOf 0x10 = .CONNECT ∧ flagsOf 0x10 = 0) (by decide)
    (.inr rfl) hd (validateConnect_connectOf h) ⟨rfl, rfl, connectFields_connectOf h,
      hasOnly_sectionOf (connectEntries_good h), ?_⟩
  intro w hw
  obtain ⟨w', hw', rfl⟩ := Option.map_eq_some_iff.mp hw
  have hwv := (validateConnectOpts_ok.mp h).2.2.2.1 w' hw'
  rw [willFields_willOf hwv]
  exact hasOnly_sectionOf (willEntries_good hwv)

theorem connack_readsBack {o : ConnackOpts} (h : validateConnackOpts o = .ok ())
    (hlen : (connackFrame o).body.length ≤ maxVarintValue) :
    ReadsBack (connackFrame o).bytes (Control.connack o).Shows := by
  have hd : decodeBody (connackFrame o).body .CONNACK 0 = .ok (.connack (connackOf o)) := by
    simp only [decodeBody, decodeConnack_frame hlen]
    rfl
  have hv : validatePacket (.connack (connackOf o)) = none :=
    validateReason_none (validateConnackOpts_ok.mp h).1 (connackEntries_within o)
      (by decide) (by decide) (by decide) (connackEntries_good h)
  exact readsBack_frame hlen (by decide : typeOf 0x20 = .CONNACK ∧ flagsOf 0x20 = 0) (by decide)
    (.inr rfl) hd hv ⟨connackFields_connackOf h, hasOnly_sectionOf (connackEntries_good h)⟩

theorem subscribe_readsBack {o : SubscribeOpts} (h : validateSubscribeOpts o = .ok ())
    (hlen : (subscribeFrame o).body.length ≤ maxVarintValue) :
    ReadsBack (subscribeFrame o).bytes (Control.subscribe o).Shows := by
  obtain ⟨hid, -, hfilters, -⟩ := validateSubscribeOpts_ok.mp h
  have hd : decodeBody (subscribeFrame o).body .SUBSCRIBE 2 = .ok (.subscribe (subscribeOf o)) := by
    simp only [decodeBody, decodeSubscribe_frame h hlen]
    rfl
  have hprops : validateProps .SUBSCRIBE (sectionOf (subscribeEntries o)).raw
      (allowedProps .SUBSCRIBE) = none :=
    validateProps_none (subscribeEntries_within o) (by decide) (by decide) (by decide)
      (subscribeEntries_good h)
  have hv : validatePacket (.subscribe (subscribeOf o)) = none := by
    simp only [validatePacket, validateID, subscribeOf, hid, if_false,
      validateFilters_none hfilters, hprops]
  exact readsBack_frame hlen (by decide : typeOf 0x82 = .SUBSCRIBE ∧ flagsOf 0x82 = 2) (by decide)
    (.inr rfl) hd hv ⟨subscribeFields_of h, hasOnly_sectionOf (subscribeEntries_good h)⟩

theorem unsubscribe_readsBack {o : UnsubscribeOpts} (h : validateUnsubscribeOpts o = .ok ())
    (hlen : (unsubscribeFrame o).body.length ≤ maxVarintValue) :
    ReadsBack (unsubscribeFrame o).bytes (Control.unsubscribe o).Shows := by
  obtain ⟨hid, -, htopics, hup⟩ := validateUnsubscribeOpts_ok.mp h
  have hgood : ∀ e ∈ userEntries o.userProperties, Good .UNSUBSCRIBE e := good_userEntries hup
  have husers : Properties.userProperties (sectionOf (userEntries o.userProperties)) =
      o.userProperties := by
    rw [userProperties_eq (parses_section fun e he => (hgood e he).1), asUser_userEntries]
  have hd : decodeBody (unsubscribeFrame o).body .UNSUBSCRIBE 2 =
      .ok (.unsubscribe (unsubscribeOf o)) := by
    simp only [decodeBody, decodeUnsubscribe_frame h hlen]
    rfl
  have hprops : validateProps .UNSUBSCRIBE (sectionOf (userEntries o.userProperties)).raw
      (allowedProps .UNSUBSCRIBE) = none :=
    validateProps_none (within_users _) (by decide) (by decide) (by decide) hgood
  have hv : validatePacket (.unsubscribe (unsubscribeOf o)) = none := by
    simp only [validatePacket, validateID, unsubscribeOf, hid, if_false,
      validateTopics_none htopics, hprops]
  exact readsBack_frame hlen (by decide : typeOf 0xA2 = .UNSUBSCRIBE ∧ flagsOf 0xA2 = 2)
    (by decide) (.inr rfl) hd hv
    ⟨by simp only [unsubscribeFields, unsubscribeOf, husers], hasOnly_sectionOf hgood⟩

theorem disconnect_readsBack {o : DisconnectOpts} (h : validateDisconnectOpts o = .ok ())
    (hlen : (disconnectFrame o).body.length ≤ maxVarintValue) :
    ReadsBack (disconnectFrame o).bytes (Control.disconnect o).Shows := by
  have hdec : decodeReasonBody .DISCONNECT (disconnectFrame o).body 0 =
      .ok (o.reasonCode, sectionOf (disconnectEntries o)) :=
    decodeReasonBody_trimmed (entryBytes_le_trimmed hlen)
  have hd : decodeBody (disconnectFrame o).body .DISCONNECT 0 =
      .ok (.disconnect ⟨o.reasonCode, sectionOf (disconnectEntries o)⟩) := by
    simp only [decodeBody, decodeDisconnect, hdec]
    rfl
  have hv : validatePacket (.disconnect ⟨o.reasonCode, sectionOf (disconnectEntries o)⟩) = none :=
    validateReason_none (validateDisconnectOpts_ok.mp h).1 (disconnectEntries_within o)
      (by decide) (by decide) (by decide) (disconnectEntries_good h)
  exact readsBack_frame hlen (by decide : typeOf 0xE0 = .DISCONNECT ∧ flagsOf 0xE0 = 0) (by decide)
    (.inr rfl) hd hv ⟨disconnectFields_of h, hasOnly_sectionOf (disconnectEntries_good h)⟩

theorem auth_readsBack {o : AuthOpts} (h : validateAuthOpts o = .ok ())
    (hlen : (authFrame o).body.length ≤ maxVarintValue) :
    ReadsBack (authFrame o).bytes (Control.auth o).Shows := by
  have hdec : decodeReasonBody .AUTH (authFrame o).body 0 =
      .ok (o.reasonCode, sectionOf (authEntries o)) :=
    decodeReasonBody_trimmed (entryBytes_le_trimmed hlen)
  have hd : decodeBody (authFrame o).body .AUTH 0 =
      .ok (.auth ⟨o.reasonCode, sectionOf (authEntries o)⟩) := by
    simp only [decodeBody, decodeAuth, hdec]
    rfl
  have hv : validatePacket (.auth ⟨o.reasonCode, sectionOf (authEntries o)⟩) = none :=
    validateReason_none (validateAuthOpts_ok.mp h).1 (authEntries_within o)
      (by decide) (by decide) (by decide) (authEntries_good h)
  exact readsBack_frame hlen (by decide : typeOf 0xF0 = .AUTH ∧ flagsOf 0xF0 = 0) (by decide)
    (.inr rfl) hd hv ⟨authFields_of h, hasOnly_sectionOf (authEntries_good h)⟩

theorem control_readsBack (x : Control) (h : x.writer.check = .ok ())
    (hlen : x.writer.frame.body.length ≤ maxVarintValue) :
    ReadsBack x.writer.frame.bytes x.Shows := by
  cases x with
  | connect o => exact connect_readsBack h hlen
  | connack o => exact connack_readsBack h hlen
  | puback o => exact pubResp_readsBack h (.inl ⟨rfl, rfl⟩) hlen
  | pubrec o => exact pubResp_readsBack h (.inr (.inl ⟨rfl, rfl⟩)) hlen
  | pubrel o => exact pubResp_readsBack h (.inr (.inr (.inl ⟨rfl, rfl⟩))) hlen
  | pubcomp o => exact pubResp_readsBack h (.inr (.inr (.inr ⟨rfl, rfl⟩))) hlen
  | subscribe o => exact subscribe_readsBack h hlen
  | suback o =>
    have hd : decodeBody (ackListFrame .SUBACK o).body .SUBACK 0 = .ok (.suback (ackListOf o)) := by
      simp only [decodeBody, decodeSuback, decodeAckList_frame (validateAckList_ok.mp h).2.1 hlen]
      rfl
    exact ackList_readsBack h (.inl rfl) hlen hd rfl fun h1 h2 => ⟨h1, h2⟩
  | unsubscribe o => exact unsubscribe_readsBack h hlen
  | unsuback o =>
    have hd : decodeBody (ackListFrame .UNSUBACK o).body .UNSUBACK 0 =
        .ok (.unsuback (ackListOf o)) := by
      simp only [decodeBody, decodeUnsuback,
        decodeAckList_frame (validateAckList_ok.mp h).2.1 hlen]
      rfl
    exact ackList_readsBack h (.inr rfl) hlen hd rfl fun h1 h2 => ⟨h1, h2⟩
  | disconnect o => exact disconnect_readsBack h hlen
  | auth o => exact auth_readsBack h hlen

/-- No encoding of `n` is shorter than `bs`. -/
def Shortest (n : ℕ) (bs : Bytes) : Prop :=
  ∀ other k, decodeVarint other = some (n, k) → bs.length ≤ k

theorem varint_shortest (n : ℕ) : Shortest n (varint n) :=
  fun _ _ h => (varint_le_decoded h).1

/-- Every control packet is written whole, once, under the shortest Remaining Length, and read
back as its options. -/
theorem control_round_trip (x : Control) (h : x.writer.check = .ok ())
    (hlen : x.writer.frame.body.length ≤ maxVarintValue) :
    ∃ (first : UInt8) (length body : Bytes),
      x.writer.emits = .ok ((first :: length ++ body).map some) ∧
      decodeVarint (length ++ body) = some (body.length, length.length) ∧
      Shortest body.length length ∧ ReadsBack (first :: length ++ body) x.Shows := by
  have hwritten := writtenBody_of_body_le hlen
  refine ⟨x.writer.frame.first, varint x.writer.frame.body.length, x.writer.frame.body, ?_,
    decodeVarint_varint hlen _, varint_shortest _, control_readsBack x h hlen⟩
  rw [Writer.emits_of_accepted h, send_of_le (by rw [hwritten]; exact hlen)]
  rfl

/-- A CONNECT with a will, a user name and an empty password. -/
def willing : ConnectOpts where
  clientID := [0x63]
  cleanStart := true
  keepAlive := 30
  username := [0x75]
  password := some []
  will := some
    { topic := [0x77], payload := [0x01, 0x02], qos := 1, retain := true,
      willDelayInterval := some 5, payloadFormatIndicator := none, messageExpiryInterval := none,
      contentType := [], responseTopic := [0x72], correlationData := some [],
      userProperties := [] }
  sessionExpiryInterval := some 0
  receiveMaximum := some 20
  maximumPacketSize := none
  topicAliasMaximum := 0
  requestResponseInformation := some 1
  requestProblemInformation := none
  userProperties := [⟨[0x6B], [0x76]⟩]
  authenticationMethod := []
  authenticationData := none

theorem control_round_trip_willing :
    ∃ (first : UInt8) (length body : Bytes),
      (Control.connect willing).writer.emits = .ok ((first :: length ++ body).map some) ∧
      decodeVarint (length ++ body) = some (body.length, length.length) ∧
      Shortest body.length length ∧
      ReadsBack (first :: length ++ body) (Control.connect willing).Shows :=
  control_round_trip (.connect willing) (by decide) (by decide)

/-! ## Lazy properties

The accessors of `Properties` walk the section anew on every call, and skip the values they are
not asked for with a size function that does not ask whether a value ends within the section. -/

/-- A section that `validateProps` accepts, whatever the packet type and the identifiers it
permits, is one list of properties, and every accessor returns what that list says. -/
theorem lazy_eq_eager {t : PacketType} {p : Properties} {allowed : List UInt8}
    (h : validateProps t p.raw allowed = none) :
    ∃ es, Parses p.raw es ∧ (∀ es', Parses p.raw es' → es' = es) ∧ Agrees p es := by
  obtain ⟨es, hp, -⟩ := parses_of_validateProps h
  exact ⟨es, hp, fun _ => hp.unique, agrees_of_parses hp⟩

/-- A Subscription Identifier 5 in three bytes, a user property and a Content Type. -/
theorem lazy_eq_eager_mixed :
    ∃ es, Parses [0x0B, 0x85, 0x80, 0x00, 0x26, 0, 1, 0x6B, 0, 0, 0x03, 0, 1, 0x63] es ∧
      (∀ es', Parses [0x0B, 0x85, 0x80, 0x00, 0x26, 0, 1, 0x6B, 0, 0, 0x03, 0, 1, 0x63] es' →
        es' = es) ∧
      Agrees ⟨[0x0B, 0x85, 0x80, 0x00, 0x26, 0, 1, 0x6B, 0, 0, 0x03, 0, 1, 0x63]⟩ es :=
  lazy_eq_eager (t := .PUBLISH) (show validateProps _ _ publishProps = none by decide +kernel)

/-! ## Variable byte integers -/

/-- `ReadVarint` over a stream finds what `DecodeVarint` finds at its start, and takes just that. -/
def SameVarint (r : Reader UInt8) : Prop :=
  match decodeVarint r.content with
  | some (v, n) => v ≤ maxVarintValue ∧
      ∃ r', readVarint r = (.ok (v, n), r') ∧ r'.content = r.content.drop n
  | none => ∃ err r', readVarint r = (.error err, r')

theorem sameVarint (r : Reader UInt8) : SameVarint r := by
  unfold SameVarint
  cases h : decodeVarint r.content with
  | none =>
    obtain ⟨r', hr⟩ := readVarint_of_none h
    exact ⟨_, r', hr⟩
  | some d =>
    obtain ⟨v, n⟩ := d
    have hpow : 128 ^ n ≤ 128 ^ 4 :=
      Nat.pow_le_pow_right (by decide) (decodeVarint_length h).2.2
    have hv := decodeVarint_value h
    obtain ⟨r', hr, hrest⟩ := readVarint_of_some h
    exact ⟨by unfold maxVarintValue; omega, r', hr, hrest.content⟩

/-- The encoding of a number has the size `VarintSize` says, both decoders read it back and take
no more; they agree on every stream, on whether it starts with a variable byte integer too; and
of the encodings they accept for a number, the one of that size is the one that is written. -/
theorem varint_codec :
    (∀ v ≤ maxVarintValue, ∃ e, encodeVarint v = .ok e ∧ e.length = varintSize v ∧
      (∀ t, decodeVarint (e ++ t) = some (v, e.length)) ∧
      (∀ (r : Reader UInt8) (t : Bytes), r.content = e ++ t →
        ∃ r', readVarint r = (.ok (v, e.length), r') ∧ r'.content = t) ∧
      ∀ (r : Reader UInt8) (n : ℕ),
        decodeVarint r.content = some (v, n) ∨ (readVarint r).1 = .ok (v, n) →
        e.length ≤ n ∧ (n = varintSize v ↔ r.content.take n = e)) ∧
    (∀ b : Bytes, (decodeVarint b).isSome ↔
      ∃ e t v, b = e ++ t ∧ e.length ≤ 4 ∧ Groups e v) ∧
    ∀ r : Reader UInt8, SameVarint r := by
  refine ⟨fun v hv => ?_, fun b => ?_, sameVarint⟩
  · refine ⟨varint v, encodeVarint_of_le hv, varint_length hv, decodeVarint_varint hv, ?_, ?_⟩
    · intro r t hr
      have hd := decodeVarint_varint hv t
      rw [← hr] at hd
      obtain ⟨r', hread, hrest⟩ := readVarint_of_some hd
      exact ⟨r', hread, by rw [hrest.content, hr, List.drop_left]⟩
    · intro r n h
      have hd : decodeVarint r.content = some (v, n) := by
        rcases h with h | h
        · exact h
        · have heq := sameVarint r
          unfold SameVarint at heq
          split at heq
          · next w m hd =>
            obtain ⟨-, r', hr, -⟩ := heq
            rw [hr] at h
            rw [hd, ← Except.ok.inj h]
          · obtain ⟨err, r', hr⟩ := heq
            rw [hr] at h
            cases h
      obtain ⟨hle, huniq⟩ := varint_le_decoded hd
      have hn := (decodeVarint_length hd).2.1
      rw [← varint_length hv]
      refine ⟨hle, fun h => huniq h.symm, fun h => ?_⟩
      rw [← h, List.length_take, Nat.min_eq_left hn]
  · constructor
    · intro h
      obtain ⟨⟨v, k⟩, hd⟩ := Option.isSome_iff_exists.mp h
      obtain ⟨e, t, hb, hg, hl, -⟩ := decodeVarint_iff.mp hd
      exact ⟨e, t, v, hb, hl, hg⟩
    · rintro ⟨e, t, v, hb, hl, hg⟩
      rw [decodeVarint_iff.mpr ⟨e, t, hb, hg, hl, rfl⟩]
      rfl

end Mqttv5.Guarantees.Wire
