import Mqttv5.Analysis.Wire.Values

/-!
# Decoding what an encoder sends

The body decoders on the bodies of the frames, and `ReadPacket` on a frame with anything after
it.
-/

set_option autoImplicit false

namespace Mqttv5.Analysis.Wire

open Interface.Wire
open Model (Bytes ReasonCode)
open Model.Wire
open Program (decodeVarint uint16)
open Program.Wire List

variable {f : Frame} {es : List Entry} {p : Packet} {t : PacketType} {flags : UInt8}
  {o : PublishOpts} {rc reason : ReasonCode}

/-- A property section is no longer than the body it is in. -/
theorem entryBytes_le_body (h : .props es ∈ f.items) : (entryBytes es).length ≤ f.body.length := by
  obtain ⟨a, b, hab⟩ := append_of_mem h
  simp only [Frame.body, hab, flatMap_append, flatMap_cons, Item.bytes,
    length_append]
  omega

theorem writtenBody_of_body_le (h : f.body.length ≤ maxVarintValue) :
    writtenBody f.items = f.body := by
  unfold writtenBody Frame.body
  apply flatMap_congr
  intro i hi
  cases i with
  | raw bs => rfl
  | text s => rfl
  | props es =>
    have := entryBytes_le_body hi
    simp only [Item.written, Item.bytes]
    rw [propertiesPrefix_of_le (by omega)]

/-- `ReadPacket` takes exactly the bytes of a frame from the stream and decodes its body. -/
theorem readPacket_frame {d : Decoder} {suffix : Bytes}
    (hcontent : d.br.content = f.bytes ++ suffix) (hlen : f.body.length ≤ maxVarintValue)
    (hlimit : d.maxPacket = 0)
    (hhead : checkHeader (typeOf f.first) (flagsOf f.first) f.body.length true = (none, false))
    (hbody : bodyResult (typeOf f.first) (flagsOf f.first) f.body = .ok p) :
    (readPacket d).1 = .ok p ∧ (readPacket d).2.br.content = suffix := by
  have hc : d.br.content = f.first :: (varint f.body.length ++ (f.body ++ suffix)) := by
    rw [hcontent]
    simp [Frame.bytes]
  have hv := decodeVarint_varint hlen (f.body ++ suffix)
  have hdrop : (varint f.body.length ++ (f.body ++ suffix)).drop (varint f.body.length).length =
      f.body ++ suffix := drop_left
  have ha : admitted d.lenient f.first f.body.length (varint f.body.length).length =
      .ok (flagsOf f.first) := by
    have hmin : decide ((varint f.body.length).length = varintSize f.body.length) = true :=
      decide_eq_true (varint_length hlen)
    unfold admitted
    rw [hmin, hhead]
  obtain ⟨h1, h2⟩ := readPacket_of_admitted hc hv (by omega) ha
  rw [hdrop] at h1 h2
  rw [if_pos (by simp), take_left, hbody] at h1
  rw [drop_left] at h2
  exact ⟨h1, h2⟩

theorem bodyResult_of {body : Bytes} (hd : decodeBody body t flags = .ok p)
    (hv : validatePacket p = none) : bodyResult t flags body = .ok p := by
  simp [bodyResult, hd, hv]

/-- `readProperties` reads a section back, whatever follows it. -/
theorem readProperties_props (es : List Entry) (h : (entryBytes es).length ≤ maxVarintValue)
    (rest : Bytes) (hrest : (entryBytes es ++ rest).length < 2 ^ 32) :
    readProperties (Item.bytes (.props es) ++ rest) =
      .ok (sectionOf es, (Item.bytes (.props es)).length) := by
  have hv := decodeVarint_varint h (entryBytes es ++ rest)
  simp only [readProperties, Item.bytes, append_assoc, hv, length_append]
  have hsub : (varint (entryBytes es).length).length + ((entryBytes es).length + rest.length) -
      (varint (entryBytes es).length).length = (entryBytes es ++ rest).length := by
    rw [length_append]
    omega
  rw [hsub, toUint32, Nat.mod_eq_of_lt hrest, if_neg (by simp), drop_left, take_left]
  rfl

/-- INTERNAL: The properties behind the packet identifier of a body that fits are read back. -/
theorem readProperties_body {buf rest : Bytes} {id : ℕ}
    (hbody : buf = putUint16 id ++ (Item.bytes (.props es) ++ rest))
    (hlen : buf.length ≤ maxVarintValue) : readProperties (Item.bytes (.props es) ++ rest) =
      .ok (sectionOf es, (Item.bytes (.props es)).length) := by
  have hsize := congrArg List.length hbody
  simp only [Item.bytes, length_append] at hsize
  unfold maxVarintValue at hlen
  refine readProperties_props _ ?_ rest ?_
  · unfold maxVarintValue
    omega
  · rw [length_append]
    omega

/-! ## PUBLISH -/

/-- The first byte of a PUBLISH gives its type and flags back. -/
theorem publishFirst_bits (hq : ¬2 < o.qos) :
    typeOf (publishFirst o) = .PUBLISH ∧ (flagsOf (publishFirst o) >>> 1) &&& 0x03 = o.qos ∧
      decide (flagsOf (publishFirst o) &&& 0x08 ≠ 0) = o.dup ∧
      decide (flagsOf (publishFirst o) &&& 0x01 ≠ 0) = o.retain := by
  unfold publishFirst
  rcases qos_cases hq with h | h | h <;> rw [h] <;> cases o.dup <;> cases o.retain <;> decide

/-- The PUBLISH that options are decoded to. -/
def publishOf (o : PublishOpts) : Publish where
  topic := o.topic
  payload := o.payload
  properties := sectionOf (publishEntries o)
  qos := o.qos
  retain := o.retain
  dup := o.dup
  packetID := if 0 < o.qos then o.packetID else 0

theorem decodePublish_frame (h : validatePublishOpts o = .ok ())
    (hlen : (publishFrame o).body.length ≤ maxVarintValue) :
    decodePublish (publishFrame o).body (flagsOf (publishFirst o)) = .ok (publishOf o) := by
  obtain ⟨hq, -, hdup, -, htopic, -⟩ := validatePublishOpts_ok.mp h
  obtain ⟨-, hbq, hbd, hbr⟩ := publishFirst_bits hq
  have hq3 : o.qos ≠ 3 := by rcases qos_cases hq with h | h | h <;> rw [h] <;> decide
  have hes : (entryBytes (publishEntries o)).length ≤ maxVarintValue :=
    (entryBytes_le_body (f := publishFrame o) (by simp [publishFrame, publishHeader])).trans hlen
  have hbody : (publishFrame o).body = putUint16 o.topic.length ++ (o.topic ++
      ((if 0 < o.qos then putUint16 o.packetID.toNat else []) ++
        (varint (entryBytes (publishEntries o)).length ++
          (entryBytes (publishEntries o) ++ o.payload)))) := by
    simp [publishFrame, publishHeader, Frame.body, Item.bytes, text]
  have hsum : (entryBytes (publishEntries o) ++ o.payload).length < 2 ^ 32 := by
    have := congrArg List.length hbody
    simp only [length_append] at this
    unfold maxVarintValue at hlen
    rw [length_append]
    omega
  have hv := decodeVarint_varint hes (entryBytes (publishEntries o) ++ o.payload)
  have hsmall : ¬toUint32 (entryBytes (publishEntries o) ++ o.payload).length <
      (entryBytes (publishEntries o)).length := by
    rw [toUint32, Nat.mod_eq_of_lt hsum, length_append]
    omega
  rw [hbody]
  unfold decodePublish
  simp only [hbq, hbd, hbr, hq3, hdup, if_false, uint16_put htopic.1.1]
  rw [if_neg (not_short _ _), drop_left' (putUint16_length _), if_neg (by simp),
    take_left' rfl, drop_left' rfl]
  by_cases hpos : 0 < o.qos
  · simp only [hpos, if_true, uint16_toNat]
    rw [if_neg (not_short _ _), drop_left' (putUint16_length _)]
    simp only [ok_bind, hv, drop_left, hsmall, if_false, take_left]
    simp [publishOf, hpos, sectionOf]
  · simp only [hpos, if_false, nil_append, ok_bind, hv, drop_left, hsmall,
      take_left]
    simp [publishOf, hpos, sectionOf]

/-- The properties of a PUBLISH, read back one by one. -/
theorem publishOf_opts (h : validatePublishOpts o = .ok ()) :
    Publish.opts (publishOf o) = { o with packetID := if 0 < o.qos then o.packetID else 0 } := by
  have hp := parses_section fun e he => (publishEntries_good h e he).1
  cases o
  simp only [Publish.opts, publishOf, PublishOpts.mk.injEq, true_and]
  refine ⟨byte_of_lookup hp ?_, uint32_of_lookup hp ?_, getD_string_of_lookup hp ?_,
    getD_string_of_lookup hp ?_, string_of_lookup hp ?_, getD_uint16_of_lookup hp ?_,
    (userProperties_eq hp).trans ?_⟩ <;>
    simp +decide [publishEntries, lookup_userEntries]

theorem validatePublish_none {x : Publish} : validatePublish x = none ↔
    scanTopicName x.topic = (true, false) ∧ ¬(0 < x.qos ∧ x.packetID = 0) ∧
      validateProps .PUBLISH x.properties.raw publishProps = none ∧
      ¬(x.topic = [] ∧ Properties.uint16 x.properties propTopicAlias = none) := by
  unfold validatePublish
  obtain ⟨valid, wildcard⟩ := scanTopicName x.topic
  cases valid <;> cases wildcard <;> simp only [Bool.not_true, Bool.not_false, if_true,
    Bool.false_eq_true, if_false, Prod.mk.injEq, reduceCtorEq, and_true, false_and, true_and]
  by_cases hid : 0 < x.qos ∧ x.packetID = 0
  · simp [hid]
  · rw [if_neg hid]
    cases validateProps .PUBLISH x.properties.raw publishProps <;> simp [hid]

theorem validatePublish_publishOf (h : validatePublishOpts o = .ok ()) :
    validatePublish (publishOf o) = none := by
  obtain ⟨-, hid, -, halias, htopic, -⟩ := validatePublishOpts_ok.mp h
  have hgood := publishEntries_good h
  refine validatePublish_none.mpr ⟨(scanTopicName_ok htopic.1.1).mpr htopic, ?_,
    validateProps_none (publishEntries_within o) (by decide) (by decide) (by decide) hgood, ?_⟩
  · rintro ⟨hpos, h0⟩
    have hpos' : 0 < o.qos := hpos
    simp only [publishOf, hpos', if_true] at h0
    exact hid ⟨hpos', h0⟩
  · rintro ⟨ht, hnone⟩
    have hread : Properties.uint16 (sectionOf (publishEntries o)) propTopicAlias =
        presentUint16 o.topicAlias :=
      uint16_of_lookup (parses_section fun e he => (hgood e he).1)
        (by simp +decide [publishEntries, lookup_userEntries])
    have hnone' := hread.symm.trans hnone
    unfold presentUint16 at hnone'
    split at hnone'
    · next h0 => exact halias ⟨ht, h0⟩
    · cases hnone'

/-! ## Reason codes and properties left out from the end -/

/-- The bytes of a reason code and properties that may be left out. -/
theorem trimmed_bytes (reason : ReasonCode) (es : List Entry) :
    (trimmed reason es).flatMap Item.bytes =
      if es = [] then if reason = ReasonCode.success then [] else [reason]
      else reason :: Item.bytes (.props es) := by
  unfold trimmed
  split
  · split <;> rfl
  · simp [Item.bytes]

/-- What the decoders make of them: an absent reason code is 0, an absent section empty. -/
theorem readLastProperties_trimmed (t : PacketType) (reason : ReasonCode)
    (hes : (entryBytes es).length ≤ maxVarintValue) {buf : Bytes}
    (hbuf : buf = (trimmed reason es).flatMap Item.bytes) :
    (0 < buf.length → readLastProperties t (buf.drop 1) = .ok (sectionOf es) ∧
        buf.getD 0 0 = reason) ∧
      (¬0 < buf.length → reason = .success ∧ sectionOf es = .none) := by
  rw [trimmed_bytes] at hbuf
  by_cases hnil : es = []
  · rw [if_pos hnil] at hbuf
    subst hnil
    split at hbuf
    · next hsuccess =>
      subst hbuf
      exact ⟨fun h => absurd h (by simp), fun _ => ⟨hsuccess, rfl⟩⟩
    · subst hbuf
      exact ⟨fun _ => ⟨rfl, rfl⟩, fun h => absurd h (by simp)⟩
  · rw [if_neg hnil] at hbuf
    subst hbuf
    refine ⟨fun _ => ⟨?_, rfl⟩, fun h => absurd h (by simp)⟩
    have hread := readProperties_props _ hes [] (by
      unfold maxVarintValue at hes
      rw [append_nil]
      omega)
    rw [append_nil] at hread
    have hpos : 0 < (Item.bytes (.props es)).length := by
      have := entryBytes_pos.mpr hnil
      simp only [Item.bytes, length_append]
      omega
    rw [drop_succ_cons, drop_zero, readLastProperties, if_pos hpos, hread]
    simp

theorem checkReason_none (h : rc ∈ reasonCodes t) : checkReason t rc = none := by
  simp [checkReason, h]

theorem validateReason_none {ids : List UInt8} (hrc : rc ∈ reasonCodes t) (hw : Within es ids)
    (hids : ids.Nodup) (hallowed : ids ⊆ allowedProps t) (huser : propUserProperty ∈ allowedProps t)
    (hgood : ∀ e ∈ es, Good t e) : validateReason t rc (sectionOf es) = none := by
  unfold validateReason
  rw [checkReason_none hrc]
  exact validateProps_none hw hids hallowed huser hgood

/-- The types of the four acknowledgements of a PUBLISH, with the flags they are sent with. -/
def AckType (t : PacketType) (flags : UInt8) : Prop :=
  (t = .PUBACK ∧ flags = 0) ∨ (t = .PUBREC ∧ flags = 0) ∨ (t = .PUBREL ∧ flags = 2) ∨
    (t = .PUBCOMP ∧ flags = 0)

/-- The acknowledgement that options are decoded to. -/
def pubRespOf (t : PacketType) (o : PubRespOpts) : PubResp where
  packetID := o.packetID
  reasonCode := o.reasonCode
  properties := sectionOf (reasonEntries o.reasonString o.userProperties)
  pktType := t

theorem decodePubResp_frame {o : PubRespOpts} (ht : AckType t flags)
    (hlen : (pubRespFrame t flags o).body.length ≤ maxVarintValue) :
    decodePubResp (pubRespFrame t flags o).body t flags = .ok (pubRespOf t o) := by
  have hbody : (pubRespFrame t flags o).body = putUint16 o.packetID.toNat ++
      (trimmed o.reasonCode
        (reasonEntries o.reasonString o.userProperties)).flatMap Item.bytes := by
    simp [pubRespFrame, Frame.body, Item.bytes]
  have hes : (entryBytes (reasonEntries o.reasonString o.userProperties)).length ≤
      maxVarintValue := by
    by_cases hnil : reasonEntries o.reasonString o.userProperties = []
    · rw [hnil]
      exact Nat.zero_le _
    · exact (entryBytes_le_body (f := pubRespFrame t flags o)
        (by simp [pubRespFrame, trimmed, hnil])).trans hlen
  obtain ⟨hsome, hnone⟩ := readLastProperties_trimmed t o.reasonCode hes rfl
  have hflags : flags = if t = .PUBREL then 0x02 else 0x00 := by
    rcases ht with ⟨rfl, rfl⟩ | ⟨rfl, rfl⟩ | ⟨rfl, rfl⟩ | ⟨rfl, rfl⟩ <;> rfl
  rw [hbody]
  unfold decodePubResp
  simp only [uint16_toNat, drop_left' (putUint16_length _), ← hflags, ne_eq, not_true_eq_false,
    if_false]
  rw [if_neg (not_short _ _)]
  by_cases hpos : 0 < ((trimmed o.reasonCode
      (reasonEntries o.reasonString o.userProperties)).flatMap Item.bytes).length
  · obtain ⟨h1, h2⟩ := hsome hpos
    rw [if_pos hpos, h1, h2]
    rfl
  · obtain ⟨h1, h2⟩ := hnone hpos
    rw [if_neg hpos, ← h1, ← h2]
    rfl

theorem decodeReasonBody_trimmed (hes : (entryBytes es).length ≤ maxVarintValue) :
    decodeReasonBody t ((trimmed reason es).flatMap Item.bytes) 0 = .ok (reason, sectionOf es) := by
  obtain ⟨hsome, hnone⟩ := readLastProperties_trimmed t reason hes rfl
  unfold decodeReasonBody
  simp only [ne_eq, not_true_eq_false, if_false]
  by_cases hpos : 0 < ((trimmed reason es).flatMap Item.bytes).length
  · obtain ⟨h1, h2⟩ := hsome hpos
    rw [if_pos hpos, h1, h2]
    rfl
  · obtain ⟨h1, h2⟩ := hnone hpos
    rw [if_neg hpos, ← h1, ← h2]
    rfl

/-- A section in a body that leaves it out when it is empty. -/
theorem entryBytes_le_trimmed {n : ℕ} (h : ((trimmed reason es).flatMap Item.bytes).length ≤ n) :
    (entryBytes es).length ≤ n := by
  rw [trimmed_bytes] at h
  by_cases hnil : es = []
  · rw [hnil]
    exact Nat.zero_le _
  · rw [if_neg hnil] at h
    simp only [Item.bytes, length_cons, length_append] at h
    omega

/-! ## CONNACK, AUTH and DISCONNECT -/

def connackOf (o : ConnackOpts) : Connack where
  sessionPresent := o.sessionPresent
  reasonCode := o.reasonCode
  properties := sectionOf (connackEntries o)

theorem decodeConnack_frame {o : ConnackOpts}
    (hlen : (connackFrame o).body.length ≤ maxVarintValue) :
    decodeConnack (connackFrame o).body 0 = .ok (connackOf o) := by
  have hbody : (connackFrame o).body = (if o.sessionPresent then 0x01 else 0x00) ::
      o.reasonCode :: Item.bytes (.props (connackEntries o)) := by
    simp [connackFrame, Frame.body, Item.bytes]
  have hes : (entryBytes (connackEntries o)).length ≤ maxVarintValue :=
    (entryBytes_le_body (f := connackFrame o) (by simp [connackFrame])).trans hlen
  have hread := readProperties_props _ hes [] (by
    unfold maxVarintValue at hes
    rw [append_nil]
    omega)
  rw [append_nil] at hread
  have hflag : ∀ b : Bool, (if b then (0x01 : UInt8) else 0x00) &&& 0xFE = 0 ∧
      decide ((if b then (0x01 : UInt8) else 0x00) &&& 0x01 ≠ 0) = b := by decide
  obtain ⟨hf1, hf2⟩ := hflag o.sessionPresent
  rw [hbody]
  unfold decodeConnack
  simp only [getD_cons_zero, getD_cons_succ, drop_succ_cons, drop_zero, hf1,
    hf2, hread, ne_eq, not_true_eq_false, if_false, Except.mapError, ok_bind]
  rw [if_neg (by simp)]
  rfl

/-! ## SUBSCRIBE, UNSUBSCRIBE and their acknowledgements -/

def ackListOf (o : AckListOpts) : AckList where
  packetID := o.packetID
  properties := sectionOf (reasonEntries o.reasonString o.userProperties)
  reasonCodes := o.reasonCodes

theorem decodeAckList_frame {o : AckListOpts} (hne : o.reasonCodes ≠ [])
    (hlen : (ackListFrame t o).body.length ≤ maxVarintValue) :
    decodeAckList t (ackListFrame t o).body 0 = .ok (ackListOf o) := by
  have hbody : (ackListFrame t o).body = putUint16 o.packetID.toNat ++
      (Item.bytes (.props (reasonEntries o.reasonString o.userProperties)) ++ o.reasonCodes) := by
    simp [ackListFrame, Frame.body, Item.bytes]
  have hread := readProperties_body hbody hlen
  rw [hbody]
  unfold decodeAckList readSubAckLike
  simp only [uint16_toNat, drop_left' (putUint16_length _), hread, ne_eq, not_true_eq_false,
    if_false, Except.mapError, ok_bind, drop_left, length_eq_zero_iff, hne]
  rw [if_neg (not_short _ _)]
  rfl

theorem checkReasons_none {codes : List ReasonCode} (h : ∀ rc ∈ codes, rc ∈ reasonCodes t) :
    checkReasons t codes = none := by
  induction codes with
  | nil => rfl
  | cons rc codes ih =>
    simp only [checkReasons, checkReason_none (h rc mem_cons_self)]
    exact ih fun rc' hrc' => h rc' (mem_cons_of_mem rc hrc')

/-- The options byte of a filter gives its options back. -/
theorem decodeSubscribeFilter_options {f : SubscribeFilter} (hf : GoodFilter f) :
    decodeSubscribeFilter f.topic (filterOptions f) = f := by
  obtain ⟨topic, qos, noLocal, rap, handling⟩ := f
  obtain ⟨-, hq, hr, -⟩ := hf
  rcases qos_cases hq with h | h | h <;> rcases qos_cases hr with h' | h' | h' <;>
    (simp only at h h'; subst h h'; cases noLocal <;> cases rap <;>
      simp +decide [decodeSubscribeFilter, filterOptions])

/-- The bytes of a filter. -/
def filterBytes (f : SubscribeFilter) : Bytes := text f.topic ++ [filterOptions f]

theorem decodeFilters_eq : ∀ (filters : List SubscribeFilter) (fuel : ℕ),
    (∀ f ∈ filters, GoodFilter f) → (filters.flatMap filterBytes).length ≤ fuel →
    decodeFilters fuel (filters.flatMap filterBytes) = .ok filters := by
  intro filters
  induction filters with
  | nil =>
    intro fuel _ _
    cases fuel <;> rfl
  | cons f filters ih =>
    intro fuel hgood hfuel
    have hf := hgood f mem_cons_self
    have hsplit : (f :: filters).flatMap filterBytes =
        text f.topic ++ (filterOptions f :: filters.flatMap filterBytes) := by
      simp [filterBytes]
    rw [hsplit] at hfuel ⊢
    rw [length_append, length_cons, text_length] at hfuel
    cases fuel with
    | zero => omega
    | succ fuel =>
      have hread := readPrefixed_text (validTopicFilter_length hf.1)
        (filterOptions f :: filters.flatMap filterBytes)
      have hrest := ih fuel (fun f' hf' => hgood f' (mem_cons_of_mem f hf')) (by omega)
      have hnonempty : text f.topic ++ (filterOptions f :: filters.flatMap filterBytes) ≠ [] := by
        simp
      rw [decodeFilters]
      · simp only [readUTF8String, hread, Except.mapError, ok_bind, drop_text,
          drop_succ_cons, drop_zero, hrest, getD_cons_zero,
          decodeSubscribeFilter_options hf]
        rw [if_neg (by simp)]
        rfl
      · exact hnonempty

def subscribeOf (o : SubscribeOpts) : Subscribe where
  packetID := o.packetID
  properties := sectionOf (subscribeEntries o)
  filters := o.filters

theorem decodeSubscribe_frame {o : SubscribeOpts} (h : validateSubscribeOpts o = .ok ())
    (hlen : (subscribeFrame o).body.length ≤ maxVarintValue) :
    decodeSubscribe (subscribeFrame o).body 2 = .ok (subscribeOf o) := by
  obtain ⟨-, hne, hgood, -⟩ := validateSubscribeOpts_ok.mp h
  have hbody : (subscribeFrame o).body = putUint16 o.packetID.toNat ++
      (Item.bytes (.props (subscribeEntries o)) ++ o.filters.flatMap filterBytes) := by
    simp [subscribeFrame, Frame.body, Item.bytes, flatMap_assoc]
    rfl
  have hread := readProperties_body hbody hlen
  rw [hbody]
  unfold decodeSubscribe
  simp only [uint16_toNat, drop_left' (putUint16_length _), hread, ne_eq, not_true_eq_false,
    if_false, Except.mapError, ok_bind, drop_left, length_eq_zero_iff, hne,
    decodeFilters_eq o.filters _ hgood le_rfl]
  rw [if_neg (not_short _ _)]
  rfl

theorem validateFilters_none {filters : List SubscribeFilter} (h : ∀ f ∈ filters, GoodFilter f) :
    validateFilters filters = none := by
  induction filters with
  | nil => rfl
  | cons f filters ih =>
    obtain ⟨hf, -, -, hl⟩ := h f mem_cons_self
    simp only [validateFilters, hf]
    rw [if_neg hl]
    exact ih fun f' hf' => h f' (mem_cons_of_mem f hf')

theorem decodeTopics_eq : ∀ (topics : List Bytes) (fuel : ℕ),
    (∀ t ∈ topics, t.length ≤ 0xffff) → (topics.flatMap text).length ≤ fuel →
    decodeTopics fuel (topics.flatMap text) = .ok topics := by
  intro topics
  induction topics with
  | nil =>
    intro fuel _ _
    cases fuel <;> rfl
  | cons t topics ih =>
    intro fuel hgood hfuel
    rw [flatMap_cons] at hfuel ⊢
    rw [length_append, text_length] at hfuel
    cases fuel with
    | zero => omega
    | succ fuel =>
      have hread := readPrefixed_text (hgood t mem_cons_self) (topics.flatMap text)
      have hrest := ih fuel (fun t' ht' => hgood t' (mem_cons_of_mem t ht')) (by omega)
      rw [decodeTopics]
      · simp only [readUTF8String, hread, Except.mapError, ok_bind, drop_text, hrest]
        rfl
      · simp [text, putUint16]

def unsubscribeOf (o : UnsubscribeOpts) : Unsubscribe where
  packetID := o.packetID
  properties := sectionOf (userEntries o.userProperties)
  topics := o.topics

theorem decodeUnsubscribe_frame {o : UnsubscribeOpts} (h : validateUnsubscribeOpts o = .ok ())
    (hlen : (unsubscribeFrame o).body.length ≤ maxVarintValue) :
    decodeUnsubscribe (unsubscribeFrame o).body 2 = .ok (unsubscribeOf o) := by
  obtain ⟨-, hne, hgood, -⟩ := validateUnsubscribeOpts_ok.mp h
  have hbody : (unsubscribeFrame o).body = putUint16 o.packetID.toNat ++
      (Item.bytes (.props (userEntries o.userProperties)) ++ o.topics.flatMap text) := by
    simp [unsubscribeFrame, Frame.body, Item.bytes, flatMap_map]
  have hread := readProperties_body hbody hlen
  rw [hbody]
  unfold decodeUnsubscribe
  simp only [uint16_toNat, drop_left' (putUint16_length _), hread, ne_eq, not_true_eq_false,
    if_false, Except.mapError, ok_bind, drop_left, length_eq_zero_iff, hne,
    decodeTopics_eq o.topics _ (fun t ht => validTopicFilter_length (hgood t ht)) le_rfl]
  rw [if_neg (not_short _ _)]
  rfl

theorem validateTopics_none {topics : List Bytes}
    (h : ∀ t ∈ topics, validTopicFilter t = .ok ()) : validateTopics topics = none := by
  induction topics with
  | nil => rfl
  | cons t topics ih =>
    simp only [validateTopics, h t mem_cons_self]
    exact ih fun t' ht' => h t' (mem_cons_of_mem t ht')

/-! ## CONNECT -/

def willOf (w : WillOpts) : Will where
  topic := w.topic
  payload := w.payload
  qos := w.qos
  retain := w.retain
  properties := sectionOf (willEntries w)

def connectOf (o : ConnectOpts) : Connect where
  protocolName := protocolName
  protocolVersion := protocolVersion
  cleanStart := o.cleanStart
  keepAlive := o.keepAlive
  properties := sectionOf (connectEntries o)
  clientID := o.clientID
  username := o.username
  password := o.password
  will := o.will.map willOf

/-- The Connect Flags give back what they were made of. -/
theorem connectFlags_bits {o : ConnectOpts} (hq : ∀ w ∈ o.will, ¬2 < w.qos) :
    connectFlags o &&& 0x01 = 0 ∧ decide (connectFlags o &&& 0x02 ≠ 0) = o.cleanStart ∧
      (connectFlags o &&& 0x04 ≠ 0 ↔ o.will ≠ none) ∧
      (∀ w ∈ o.will, (connectFlags o >>> 3) &&& 0x03 = w.qos ∧
        decide (connectFlags o &&& 0x20 ≠ 0) = w.retain) ∧
      (o.will = none → (connectFlags o >>> 3) &&& 0x03 = 0 ∧
        decide (connectFlags o &&& 0x20 ≠ 0) = false) ∧
      (connectFlags o &&& 0x40 ≠ 0 ↔ o.password.isSome = true) ∧
      (connectFlags o &&& 0x80 ≠ 0 ↔ ¬o.username = []) := by
  unfold connectFlags
  generalize o.password.isSome = hasPassword
  by_cases hu : o.username = []
  all_goals
    simp only [hu, if_true, if_false, not_true_eq_false, not_false_eq_true]
    cases hw : o.will with
    | none =>
      cases o.cleanStart <;> cases hasPassword <;> simp +decide
    | some w =>
      rcases qos_cases (hq w hw) with h | h | h <;> cases hr : w.retain <;>
        cases o.cleanStart <;> cases hasPassword <;> simp +decide [h, hr]

theorem decodeWill_items {w : WillOpts} (h : validateWillOpts w = .ok ()) (rest : Bytes)
    (hlen : ((willItems (some w)).flatMap Item.bytes ++ rest).length ≤ maxVarintValue)
    {qos : UInt8} {retain : Bool} (hq : qos = w.qos) (hr : retain = w.retain) :
    decodeWill ((willItems (some w)).flatMap Item.bytes ++ rest) qos retain =
      .ok (willOf w, rest) := by
  obtain ⟨hne, htopic, -, -, -, -, hpay, -⟩ := validateWillOpts_ok.mp h
  have hbytes : (willItems (some w)).flatMap Item.bytes ++ rest =
      Item.bytes (.props (willEntries w)) ++ (text w.topic ++ (text w.payload ++ rest)) := by
    simp [willItems, Item.bytes]
  have hsum : (entryBytes (willEntries w) ++ (text w.topic ++ (text w.payload ++ rest))).length ≤
      maxVarintValue := by
    rw [hbytes] at hlen
    simp only [Item.bytes, length_append] at hlen ⊢
    omega
  have hread := readProperties_props (willEntries w) (by rw [length_append] at hsum; omega)
    (text w.topic ++ (text w.payload ++ rest)) (by unfold maxVarintValue at hsum; omega)
  rw [hbytes]
  unfold decodeWill
  simp only [hread, Except.mapError, ok_bind, drop_left, readUTF8String, readBinaryData,
    readPrefixed_text (htopic hne).1.1, drop_text, readPrefixed_text hpay, hq, hr]
  rfl

/-- The user name and the password of a CONNECT. -/
def credentials (o : ConnectOpts) : List Item :=
  (if o.username = [] then [] else [.text o.username]) ++ o.password.toList.map .text

theorem decodeCredentials_eq {o : ConnectOpts} (h : validateConnectOpts o = .ok ())
    (hq : ∀ w ∈ o.will, ¬2 < w.qos) :
    decodeCredentials ((credentials o).flatMap Item.bytes) (connectFlags o) =
      .ok (o.username, o.password) := by
  obtain ⟨-, hu, hp, -⟩ := validateConnectOpts_ok.mp h
  obtain ⟨-, -, -, -, -, hbp, hbu⟩ := connectFlags_bits hq
  have hpass : ∀ username : Bytes, (if connectFlags o &&& 0x40 ≠ 0 then do
        let x ← (readBinaryData ((o.password.toList.map Item.text).flatMap Item.bytes)).mapError
          (connectError "CONNECT password")
        return (username, some x.1)
      else return (username, none) : Except Err (Bytes × Option Bytes)) =
        .ok (username, o.password) := by
    intro username
    cases hsome : o.password with
    | none =>
      rw [hsome] at hbp
      rw [if_neg (fun hc => by simpa using hbp.mp hc)]
      rfl
    | some p =>
      rw [hsome] at hbp
      have hread := readPrefixed_text (hp p hsome) []
      rw [append_nil] at hread
      rw [if_pos (hbp.mpr rfl)]
      simp only [Option.toList_some, map_cons, map_nil, flatMap_cons,
        flatMap_nil, append_nil, Item.bytes, readBinaryData, hread, Except.mapError,
        ok_bind]
      rfl
  unfold decodeCredentials credentials
  by_cases hempty : o.username = []
  · rw [if_neg (fun hc => hbu.mp hc hempty)]
    simp only [hempty, if_true, nil_append, ok_bind]
    exact hpass []
  · rw [if_pos (hbu.mpr hempty)]
    simp only [hempty, if_false, cons_append, nil_append, flatMap_cons, Item.bytes,
      readUTF8String, readPrefixed_text hu.1, Except.mapError, ok_bind, drop_text]
    exact hpass o.username

theorem decodeConnect_frame {o : ConnectOpts} (h : validateConnectOpts o = .ok ())
    (hlen : (connectFrame o).body.length ≤ maxVarintValue) :
    decodeConnect (connectFrame o).body 0 = .ok (connectOf o) := by
  obtain ⟨hclient, -, -, hwill, -⟩ := validateConnectOpts_ok.mp h
  have hq : ∀ w ∈ o.will, ¬2 < w.qos := fun w hw => (validateWillOpts_ok.mp (hwill w hw)).2.2.1
  obtain ⟨hb0, hbc, hbw, hbs, hbn, -, -⟩ := connectFlags_bits hq
  generalize hcreds : (credentials o).flatMap Item.bytes = creds
  have hdecodeCreds := decodeCredentials_eq h hq
  rw [hcreds] at hdecodeCreds
  have hbody : (connectFrame o).body = text protocolName ++ (protocolVersion :: connectFlags o ::
      (putUint16 o.keepAlive.toNat ++ (Item.bytes (.props (connectEntries o)) ++
        (text o.clientID ++ ((willItems o.will).flatMap Item.bytes ++ creds))))) := by
    rw [← hcreds]
    simp [connectFrame, credentials, Frame.body, Item.bytes]
  have hall := congrArg List.length hbody
  simp only [Item.bytes, length_append, length_cons] at hall
  have hread := readProperties_props (connectEntries o) (by omega)
    (text o.clientID ++ ((willItems o.will).flatMap Item.bytes ++ creds)) (by
      unfold maxVarintValue at hlen
      simp only [length_append]
      omega)
  rw [hbody]
  unfold decodeConnect
  simp only [readUTF8String, readPrefixed_text (s := protocolName) (by decide), drop_text,
    Except.mapError, ok_bind, ne_eq, not_true_eq_false, if_false, getD_cons_zero,
    drop_succ_cons, drop_zero, hb0, hbc, uint16_toNat,
    drop_left' (putUint16_length _), hread, drop_left, readPrefixed_text hclient.1]
  rw [if_neg (by simp), if_neg (by simp), if_neg (not_short _ _)]
  cases hw : o.will with
  | none =>
    obtain ⟨hn1, hn2⟩ := hbn hw
    have hflag : ¬(connectFlags o &&& 0x04 ≠ 0) := fun hc => hbw.mp hc hw
    rw [if_neg hflag]
    simp only [hn1, hn2, willItems, flatMap_nil, nil_append, ok_bind, hdecodeCreds]
    simp [connectOf, hw]
    rfl
  | some w =>
    obtain ⟨hs1, hs2⟩ := hbs w hw
    have hflag : connectFlags o &&& 0x04 ≠ 0 := hbw.mpr (by rw [hw]; simp)
    have hdecodeWill := decodeWill_items (hwill w hw) creds (by
      rw [hw] at hall
      rw [length_append]
      omega) hs1 hs2
    rw [if_pos hflag, hdecodeWill]
    simp only [ok_bind, hdecodeCreds]
    simp [connectOf, hw]
    rfl

theorem validateConnect_connectOf {o : ConnectOpts} (h : validateConnectOpts o = .ok ()) :
    validateConnect (connectOf o) = none := by
  obtain ⟨hclient, huser, -, hwill, -⟩ := validateConnectOpts_ok.mp h
  have hprops : validateProps .CONNECT (connectOf o).properties.raw (allowedProps .CONNECT) =
      none :=
    validateProps_none (connectEntries_within o) (by decide) (by decide) (by decide)
      (connectEntries_good h)
  have hutf8 : (!validUTF8 (connectOf o).clientID || !validUTF8 (connectOf o).username) =
    false := by
    have h1 : validUTF8 o.clientID = true := hclient.2
    have h2 : validUTF8 o.username = true := huser.2
    simp [connectOf, h1, h2]
  unfold validateConnect
  rw [hutf8, hprops]
  cases hw : o.will with
  | none => simp [connectOf, hw]
  | some w =>
    have hwv := hwill w hw
    obtain ⟨hne, htopic, -⟩ := validateWillOpts_ok.mp hwv
    have hname : validTopicName w.topic = .ok () := validTopicName_ok.mpr (htopic hne)
    have hwprops : validateProps .CONNECT (sectionOf (willEntries w)).raw willProps = none :=
      validateProps_none (willEntries_within w) (by decide) (by decide) (by decide)
        (willEntries_good hwv)
    simp [connectOf, hw, willOf, hname, hne, hwprops, Except.toOption]

end Mqttv5.Analysis.Wire
