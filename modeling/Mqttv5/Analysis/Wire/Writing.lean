import Mqttv5.Analysis.Wire.Accepted
import Mqttv5.Analysis.Wire.Varint

/-!
# The encoders send the frames of their options

One `Fills` lemma for each field writer; the lengths the encoders compute are the lengths of
what these write; and so each packet writer, on options that pass its check, is `send` of the
frame of the options.
-/

set_option autoImplicit false

namespace Mqttv5.Analysis.Wire

open Mqttv5.Computation
open Interface.Wire
open Model (Bytes ReasonCode)
open Model.Wire
open Program (putUint32)
open Program.Wire List

variable {w : Filler UInt8} {es : List Entry} {t : PacketType} {q : UInt8} {o : PublishOpts}
  {f : SubscribeFilter}

/-! ## Field writers -/

theorem fills_text (s : Bytes) : Fills (fun buf off => writePrefixed buf off s) (text s) := by
  have h := (fills_store (putUint16 s.length)).andThen (fills_copyAt s)
  refine Fills.of_eq h fun buf off => ?_
  simp only [writePrefixed, putUint16_mod, putUint16_length]
  cases buf.store off (putUint16 s.length) with
  | none => rfl
  | some b =>
    simp only [Option.map_some, Option.bind_some, bind]
    cases b.copyAt (off + 2) s <;> rfl

theorem fills_propertiesPrefix (n : ℕ) :
    Fills (fun buf off => writePropertiesPrefix buf off n) (propertiesPrefix n) := by
  unfold writePropertiesPrefix propertiesPrefix
  cases encodeVarint (toUint32 n) with
  | error e => exact fills_nothing
  | ok bs => exact fills_store bs

theorem entryBytes_append (a b : List Entry) :
    entryBytes (a ++ b) = entryBytes a ++ entryBytes b := flatMap_append

section

variable (id : UInt8)

theorem fills_property1 (v : Option UInt8) :
    Fills (fun buf off => writeProperty1 buf off id v) (entryBytes (optByte id v)) := by
  cases v with
  | none => exact fills_nothing
  | some v => exact fills_store [id, v]

theorem fills_property2P (v : Option UInt16) :
    Fills (fun buf off => writeProperty2P buf off id v) (entryBytes (optUint16 id v)) := by
  cases v with
  | none => exact fills_nothing
  | some v => exact fills_store (id :: putUint16 v.toNat)

theorem fills_property2 (v : UInt16) :
    Fills (fun buf off => writeProperty2 buf off id v) (entryBytes (nonzeroUint16 id v)) := by
  unfold writeProperty2 nonzeroUint16
  by_cases h : v = 0
  · simp only [h, if_true]
    exact fills_nothing
  · simp only [h, if_false]
    exact fills_store (id :: putUint16 v.toNat)

theorem fills_property4 (v : Option UInt32) :
    Fills (fun buf off => writeProperty4 buf off id v) (entryBytes (optUint32 id v)) := by
  cases v with
  | none => exact fills_nothing
  | some v => exact fills_store (id :: putUint32 v.toNat)

/-- A string property that is present. -/
theorem fills_idText (s : Bytes) :
    Fills (fun buf off => (buf.store off [id]).bind fun buf => writePrefixed buf (off + 1) s)
      (id :: text s) := by
  exact Fills.of_eq ((fills_text s).afterStore [id]) fun _ _ => rfl

theorem fills_propertyString (s : Bytes) :
    Fills (fun buf off => writePropertyString buf off id s) (entryBytes (optString id s)) := by
  unfold writePropertyString optString
  by_cases h : s = []
  · simp only [h, if_true]
    exact fills_nothing
  · simp only [h, if_false]
    exact (fills_idText id s).congr (by simp [entryBytes, Entry.bytes, PropVal.bytes])

theorem fills_propertyBinary (v : Option Bytes) :
    Fills (fun buf off => writePropertyBinary buf off id v) (entryBytes (optBinary id v)) := by
  cases v with
  | none => exact fills_nothing
  | some s =>
    exact (fills_idText id s).congr
      (by simp [optBinary, entryBytes, Entry.bytes, PropVal.bytes])

end

theorem fills_userProp (up : UserProperty) :
    Fills (writeUserProp up) (Entry.bytes ⟨propUserProperty, .pair up.key up.value⟩) := by
  refine Fills.of_eq ((fills_idText propUserProperty up.key).andThen (fills_text up.value))
    fun buf off => ?_
  simp only [writeUserProp]
  cases buf.store off [propUserProperty] <;> rfl

theorem fills_userProps (ups : List UserProperty) :
    Fills (fun buf off => writePropertyUserProps buf off ups) (entryBytes (userEntries ups)) := by
  refine (fills_foldlM writeUserProp _ ups fun up _ => fills_userProp up).congr ?_
  simp [entryBytes, userEntries, flatMap_map]

/-- INTERNAL: What two bytes write. -/
theorem fills_uint16 (v : UInt16) : Fills (writeUint16 v) (putUint16 v.toNat) :=
  fills_store (putUint16 v.toNat)

/-! ## Lengths -/

section

variable (id : UInt8)

theorem entryBytes_optByte (v : Option UInt8) :
    (entryBytes (optByte id v)).length = fixedPropLen v 2 := by
  cases v <;> rfl

theorem entryBytes_optUint16 (v : Option UInt16) :
    (entryBytes (optUint16 id v)).length = fixedPropLen v 3 := by
  cases v <;> rfl

theorem entryBytes_optUint32 (v : Option UInt32) :
    (entryBytes (optUint32 id v)).length = fixedPropLen v 5 := by
  cases v <;> rfl

theorem entryBytes_nonzero (v : UInt16) :
    (entryBytes (nonzeroUint16 id v)).length = if v ≠ 0 then 3 else 0 := by
  unfold nonzeroUint16
  by_cases h : v = 0
  · simp [h, entryBytes]
  · simp [h, entryBytes, Entry.bytes, PropVal.bytes]

theorem entryBytes_optString (s : Bytes) :
    (entryBytes (optString id s)).length = stringPropLen s := by
  unfold optString stringPropLen
  by_cases h : s = []
  · simp [h, entryBytes]
  · simp [h, entryBytes, Entry.bytes, PropVal.bytes, text_length]
    omega

theorem entryBytes_optBinary (v : Option Bytes) :
    (entryBytes (optBinary id v)).length = binaryPropLen v := by
  cases v with
  | none => rfl
  | some s =>
    simp [optBinary, binaryPropLen, entryBytes, Entry.bytes, PropVal.bytes, text_length]
    omega

end

/-- A sum accumulated over a list. -/
theorem foldl_add {β : Type} (f : β → ℕ) (bs : List β) :
    ∀ n, bs.foldl (fun n b => n + f b) n = n + (bs.map f).sum := by
  induction bs with
  | nil => intro n; simp
  | cons b bs ih => intro n; simp [ih, Nat.add_assoc]

theorem entryBytes_userEntries (ups : List UserProperty) :
    (entryBytes (userEntries ups)).length = userPropertiesLen ups := by
  unfold userPropertiesLen
  rw [foldl_add, Nat.zero_add]
  simp only [entryBytes, userEntries, length_flatMap, map_map]
  congr 1
  apply map_congr_left
  intro up _
  simp [Entry.bytes, PropVal.bytes, text_length]
  omega

/-! ## Packets -/

/-- The end of a writer: the body is written everywhere, and is as long as was computed. -/
theorem emit_eq {first : UInt8} (items : List Item) {bodyLen : ℕ} (hw : Fills w (writtenBody items))
    (hlen : bodyLen = (writtenBody items).length) : emit first bodyLen w = send ⟨first, items⟩ := by
  unfold emit send
  rw [hw.fresh hlen, ← hlen]
  simp only
  cases encodeVarint (toUint32 bodyLen) with
  | error e => rfl
  | ok vbi => simp

theorem writtenBody_cons (i : Item) (is : List Item) :
    writtenBody (i :: is) = i.written ++ writtenBody is := flatMap_cons

theorem fills_reasonProps (reasonString : Bytes) (ups : List UserProperty) :
    Fills (writeReasonProps reasonString ups) (entryBytes (reasonEntries reasonString ups)) := by
  refine Fills.congr (Fills.of_eq ((fills_propertyString propReasonString reasonString).andThen
    (fills_userProps ups)) fun _ _ => rfl) ?_
  simp [reasonEntries, entryBytes_append]

theorem reasonPropsLen_eq (reasonString : Bytes) (ups : List UserProperty) :
    reasonPropsLen reasonString ups = (entryBytes (reasonEntries reasonString ups)).length := by
  simp [reasonEntries, entryBytes_append, entryBytes_optString, entryBytes_userEntries,
    reasonPropsLen, stringPropLen]

theorem entryBytes_pos : 0 < (entryBytes es).length ↔ es ≠ [] := by
  cases es with
  | nil => simp [entryBytes]
  | cons e es => simp [entryBytes, Entry.bytes]

/-- The trimmed end of an acknowledgement, a DISCONNECT or an AUTH. -/
theorem fills_trimmed (reason : ReasonCode) (hw : Fills w (entryBytes es)) :
    Fills (writeTrimmed reason (entryBytes es).length w) (writtenBody (trimmed reason es)) := by
  unfold writeTrimmed trimmed
  simp only [entryBytes_pos]
  by_cases hes : es = []
  · by_cases hr : reason = ReasonCode.success
    · simp only [hes, hr, ne_eq, not_true_eq_false, or_self, if_false, if_true]
      exact fills_nothing
    · simp only [hes, hr, ne_eq, not_true_eq_false, not_false_eq_true, or_true, if_false, if_true]
      refine Fills.of_eq (fills_store [reason]) fun buf off => ?_
      cases buf.store off [reason] <;> rfl
  · simp only [hes, ne_eq, not_false_eq_true, true_or, if_false, if_true]
    have h := ((fills_propertiesPrefix (entryBytes es).length).andThen hw).afterStore [reason]
    refine Fills.congr (Fills.of_eq h fun _ _ => rfl) ?_
    simp [writtenBody, Item.written]

theorem trimmedLen_eq (reason : ReasonCode) (es : List Entry) :
    trimmedLen reason (entryBytes es).length = (writtenBody (trimmed reason es)).length := by
  unfold trimmedLen trimmed
  simp only [entryBytes_pos]
  by_cases hes : es = []
  · by_cases hr : reason = ReasonCode.success
    · simp [hes, hr, writtenBody]
    · simp [hes, hr, writtenBody, Item.written]
  · simp [hes, writtenBody, Item.written, propertiesPrefix_length]
    omega

theorem writePubResp_eq {flags : UInt8} {o : PubRespOpts} (h : validatePubRespOpts t o = .ok ()) :
    writePubResp t flags o = send (pubRespFrame t flags o) := by
  unfold writePubResp
  simp only [h, reasonPropsLen_eq]
  refine emit_eq ((pubRespFrame t flags o).items) (Fills.congr (Fills.of_eq
    ((fills_uint16 o.packetID).andThen (fills_trimmed o.reasonCode
      (fills_reasonProps o.reasonString o.userProperties))) fun _ _ => rfl) ?_) ?_
  · simp [pubRespFrame, writtenBody_cons, Item.written]
  · simp [pubRespFrame, writtenBody_cons, Item.written, trimmedLen_eq]

theorem fills_authProps (o : AuthOpts) :
    Fills (writeAuthProps o) (entryBytes (authEntries o)) := by
  refine Fills.congr (Fills.of_eq
    ((fills_propertyString propAuthMethod o.authenticationMethod).andThen
    ((fills_propertyBinary propAuthData o.authenticationData).andThen
      ((fills_propertyString propReasonString o.reasonString).andThen
        (fills_userProps o.userProperties)))) fun _ _ => rfl) ?_
  simp [authEntries, entryBytes_append]

theorem authPropsLen_eq (o : AuthOpts) : authPropsLen o = (entryBytes (authEntries o)).length := by
  simp only [authEntries, entryBytes_append, length_append, entryBytes_optString,
    entryBytes_optBinary, entryBytes_userEntries, authPropsLen]

theorem writeAuth_eq {o : AuthOpts} (h : validateAuthOpts o = .ok ()) :
    writeAuth o = send (authFrame o) := by
  unfold writeAuth
  simp only [h, authPropsLen_eq]
  exact emit_eq ((authFrame o).items) (fills_trimmed o.reasonCode (fills_authProps o))
    (trimmedLen_eq o.reasonCode (authEntries o))

theorem fills_disconnectProps (o : DisconnectOpts) :
    Fills (writeDisconnectProps o) (entryBytes (disconnectEntries o)) := by
  refine Fills.congr (Fills.of_eq
    ((fills_property4 propSessionExpiryInterval o.sessionExpiryInterval).andThen
      ((fills_propertyString propReasonString o.reasonString).andThen
        ((fills_propertyString propServerReference o.serverReference).andThen
          (fills_userProps o.userProperties)))) fun _ _ => rfl) ?_
  simp [disconnectEntries, entryBytes_append]

theorem disconnectPropsLen_eq (o : DisconnectOpts) :
    disconnectPropsLen o = (entryBytes (disconnectEntries o)).length := by
  simp only [disconnectEntries, entryBytes_append, length_append, entryBytes_optString,
    entryBytes_optUint32, entryBytes_userEntries, disconnectPropsLen]

theorem writeDisconnect_eq {o : DisconnectOpts} (h : validateDisconnectOpts o = .ok ()) :
    writeDisconnect o = send (disconnectFrame o) := by
  unfold writeDisconnect
  simp only [h, disconnectPropsLen_eq]
  exact emit_eq ((disconnectFrame o).items)
    (fills_trimmed o.reasonCode (fills_disconnectProps o))
    (trimmedLen_eq o.reasonCode (disconnectEntries o))

theorem fills_connackProps (o : ConnackOpts) :
    Fills (writeConnackProps o) (entryBytes (connackEntries o)) := by
  refine Fills.congr (Fills.of_eq
    ((fills_property4 propSessionExpiryInterval o.sessionExpiryInterval).andThen
    ((fills_property2P propReceiveMaximum o.receiveMaximum).andThen
    ((fills_property1 propMaximumQoS o.maximumQoS).andThen
    ((fills_property1 propRetainAvailable o.retainAvailable).andThen
    ((fills_property4 propMaximumPacketSize o.maximumPacketSize).andThen
    ((fills_propertyString propAssignedClientID o.assignedClientIdentifier).andThen
    ((fills_property2 propTopicAliasMaximum o.topicAliasMaximum).andThen
    ((fills_propertyString propReasonString o.reasonString).andThen
    ((fills_userProps o.userProperties).andThen
    ((fills_property1 propWildcardSubAvailable o.wildcardSubscriptionAvailable).andThen
    ((fills_property1 propSubscriptionIDAvailable o.subscriptionIdentifierAvailable).andThen
    ((fills_property1 propSharedSubAvailable o.sharedSubscriptionAvailable).andThen
    ((fills_property2P propServerKeepAlive o.serverKeepAlive).andThen
    ((fills_propertyString propResponseInformation o.responseInformation).andThen
    ((fills_propertyString propServerReference o.serverReference).andThen
    ((fills_propertyString propAuthMethod o.authenticationMethod).andThen
    (fills_propertyBinary propAuthData o.authenticationData)))))))))))))))))
    fun _ _ => rfl) ?_
  simp only [connackEntries, entryBytes_append, append_assoc]

theorem connackPropsLen_eq (o : ConnackOpts) :
    connackPropsLen o = (entryBytes (connackEntries o)).length := by
  simp only [connackEntries, entryBytes_append, length_append, entryBytes_optString,
    entryBytes_optUint32, entryBytes_optUint16, entryBytes_optByte, entryBytes_optBinary,
    entryBytes_nonzero, entryBytes_userEntries, connackPropsLen]
  omega

theorem writeConnack_eq {o : ConnackOpts} (h : validateConnackOpts o = .ok ()) :
    writeConnack o = send (connackFrame o) := by
  unfold writeConnack
  simp only [h, connackPropsLen_eq]
  refine emit_eq ((connackFrame o).items) (Fills.congr (Fills.of_eq
    ((((fills_propertiesPrefix (entryBytes (connackEntries o)).length).andThen
      (fills_connackProps o)).afterStore [o.reasonCode]).afterStore
        [if o.sessionPresent then 0x01 else 0x00]) fun _ _ => rfl) ?_) ?_
  · simp [connackFrame, writtenBody, Item.written]
  · simp [connackFrame, writtenBody, Item.written, propertiesPrefix_length]
    omega

theorem fills_connectProps (o : ConnectOpts) :
    Fills (writeConnectProps o) (entryBytes (connectEntries o)) := by
  refine Fills.congr (Fills.of_eq
    ((fills_property4 propSessionExpiryInterval o.sessionExpiryInterval).andThen
    ((fills_property2P propReceiveMaximum o.receiveMaximum).andThen
    ((fills_property4 propMaximumPacketSize o.maximumPacketSize).andThen
    ((fills_property2 propTopicAliasMaximum o.topicAliasMaximum).andThen
    ((fills_property1 propRequestResponseInfo o.requestResponseInformation).andThen
    ((fills_property1 propRequestProblemInfo o.requestProblemInformation).andThen
    ((fills_propertyString propAuthMethod o.authenticationMethod).andThen
    ((fills_propertyBinary propAuthData o.authenticationData).andThen
    (fills_userProps o.userProperties))))))))) fun _ _ => rfl) ?_
  simp only [connectEntries, entryBytes_append, append_assoc]

theorem connectPropsLen_eq (o : ConnectOpts) :
    connectPropsLen o = (entryBytes (connectEntries o)).length := by
  simp only [connectEntries, entryBytes_append, length_append, entryBytes_optString,
    entryBytes_optUint32, entryBytes_optUint16, entryBytes_optByte, entryBytes_optBinary,
    entryBytes_nonzero, entryBytes_userEntries, connectPropsLen]

theorem fills_willProps (w : WillOpts) :
    Fills (writeWillProps w) (entryBytes (willEntries w)) := by
  refine Fills.congr (Fills.of_eq
    ((fills_property4 propWillDelayInterval w.willDelayInterval).andThen
    ((fills_property1 propPayloadFormat w.payloadFormatIndicator).andThen
    ((fills_property4 Program.propMessageExpiryInterval w.messageExpiryInterval).andThen
    ((fills_propertyString propContentType w.contentType).andThen
    ((fills_propertyString propResponseTopic w.responseTopic).andThen
    ((fills_propertyBinary propCorrelationData w.correlationData).andThen
    (fills_userProps w.userProperties))))))) fun _ _ => rfl) ?_
  simp only [willEntries, entryBytes_append, append_assoc]

theorem willPropsLength_eq (w : WillOpts) :
    willPropsLength w = (entryBytes (willEntries w)).length := by
  simp only [willEntries, entryBytes_append, length_append, entryBytes_optString,
    entryBytes_optUint32, entryBytes_optByte, entryBytes_optBinary, entryBytes_userEntries,
    willPropsLength]

theorem writtenBody_append (a b : List Item) :
    writtenBody (a ++ b) = writtenBody a ++ writtenBody b := flatMap_append

theorem fills_will (will : Option WillOpts) :
    Fills (writeWill will (willLen will)) (writtenBody (willItems will)) := by
  cases will with
  | none => exact fills_nothing
  | some w =>
    simp only [willLen, willPropsLength_eq, willItems]
    refine Fills.congr (Fills.of_eq ((fills_propertiesPrefix
      (entryBytes (willEntries w)).length).andThen
      ((fills_willProps w).andThen ((fills_text w.topic).andThen (fills_text w.payload))))
      fun _ _ => rfl) ?_
    simp [writtenBody, Item.written]

theorem fills_username (username : Bytes) :
    Fills (writeUsername username)
      (writtenBody (if username = [] then [] else [.text username])) := by
  unfold writeUsername
  by_cases h : username = []
  · simp only [h, ne_eq, not_true_eq_false, if_false, if_true]
    exact fills_nothing
  · simp only [h, ne_eq, not_false_eq_true, if_false, if_true]
    exact (fills_text username).congr (by simp [writtenBody, Item.written])

theorem fills_password (password : Option Bytes) :
    Fills (writePassword password) (writtenBody (password.toList.map .text)) := by
  cases password with
  | none => exact fills_nothing
  | some p => exact (fills_text p).congr (by simp [writtenBody, Item.written])

/-- A QoS that passes the check. -/
theorem qos_cases (h : ¬2 < q) : q = 0 ∨ q = 1 ∨ q = 2 := by
  have hq : q.toNat ≤ 2 := by simpa [UInt8.lt_iff_toNat_lt] using h
  have : q.toNat = 0 ∨ q.toNat = 1 ∨ q.toNat = 2 := by omega
  simpa [← UInt8.toNat_inj] using this

theorem qos_mask (h : ¬2 < q) : q &&& 0x03 = q := by
  rcases qos_cases h with rfl | rfl | rfl <;> decide

theorem encodeConnectFlags_eq {o : ConnectOpts} (h : ∀ w ∈ o.will, ¬2 < w.qos) :
    encodeConnectFlags o = connectFlags o := by
  unfold encodeConnectFlags connectFlags
  cases hw : o.will with
  | none =>
    by_cases hu : o.username = [] <;> cases o.cleanStart <;> cases o.password <;> simp [hu]
  | some w =>
    have hq := qos_mask (h w hw)
    by_cases hu : o.username = [] <;> cases o.cleanStart <;> cases o.password <;>
      cases hr : w.retain <;> simp [hu, hq, hr, UInt8.or_assoc]

theorem connectPayloadLen_eq (o : ConnectOpts) :
    connectPayloadLen o (willLen o.will) = (writtenBody (.text o.clientID :: (willItems o.will ++
        ((if o.username = [] then [] else [.text o.username]) ++
          o.password.toList.map .text)))).length := by
  unfold connectPayloadLen
  simp only [writtenBody_cons, writtenBody_append, length_append, Item.written, text_length]
  cases o.will <;> cases o.password <;> by_cases hu : o.username = [] <;>
    simp [hu, willItems, willLen, writtenBody, Item.written, text_length, propertiesPrefix_length,
      willPropsLength_eq] <;> omega

theorem writeConnect_eq {o : ConnectOpts} (h : validateConnectOpts o = .ok ()) :
    writeConnect o = send (connectFrame o) := by
  have hflags : encodeConnectFlags o = connectFlags o := by
    refine encodeConnectFlags_eq fun w hw => ?_
    have hv := (validateConnectOpts_ok.mp h).2.2.2.1 w hw
    exact (validateWillOpts_ok.mp hv).2.2.1
  unfold writeConnect
  simp only [h, connectPropsLen_eq, connectPayloadLen_eq]
  have hbody := (fills_text protocolName).andThen
    ((((fills_uint16 o.keepAlive).andThen
      ((fills_propertiesPrefix (entryBytes (connectEntries o)).length).andThen
        ((fills_connectProps o).andThen ((fills_text o.clientID).andThen
          ((fills_will o.will).andThen ((fills_username o.username).andThen
            (fills_password o.password))))))).afterStore [encodeConnectFlags o]).afterStore
              [protocolVersion])
  refine emit_eq ((connectFrame o).items) (Fills.congr (Fills.of_eq hbody fun _ _ => rfl) ?_) ?_
  · simp [connectFrame, writtenBody, Item.written, hflags]
  · simp [connectFrame, writtenBody_cons, writtenBody_append, Item.written, text_length,
      propertiesPrefix_length]
    omega

theorem fills_subscriptionIdentifier {v : Option UInt32} (h : ∀ id ∈ v, id.toNat ≤ maxVarintValue) :
    Fills (fun buf off => writeSubscriptionIdentifier buf off v)
      (entryBytes (optVarint propSubscriptionIdentifier v)) := by
  cases v with
  | none => exact fills_nothing
  | some id =>
    unfold writeSubscriptionIdentifier
    simp only [encodeVarint_of_le (h id rfl)]
    refine Fills.congr (Fills.of_eq ((fills_store (varint id.toNat)).afterStore
      [propSubscriptionIdentifier]) fun _ _ => rfl) ?_
    simp [entryBytes, optVarint, Entry.bytes, PropVal.bytes]

theorem subscribePropsLen_eq {o : SubscribeOpts}
    (h : ∀ id ∈ o.subscriptionIdentifier, id.toNat ≤ maxVarintValue) :
    subscribePropsLen o = (entryBytes (subscribeEntries o)).length := by
  unfold subscribePropsLen subscribeEntries
  rw [entryBytes_append, length_append, entryBytes_userEntries]
  cases hid : o.subscriptionIdentifier with
  | none => rfl
  | some id =>
    simp [optVarint, entryBytes, Entry.bytes, PropVal.bytes, varint_length (h id hid)]
    omega

theorem encodeSubscribeOptions_eq (hq : ¬2 < f.qos) (hr : ¬2 < f.retainHandling) :
    encodeSubscribeOptions f = filterOptions f := by
  unfold encodeSubscribeOptions filterOptions
  rw [qos_mask hq, qos_mask hr]
  cases f.noLocal <;> cases f.retainAsPublished <;> simp

theorem fills_filter (hf : GoodFilter f) :
    Fills (writeFilter f) (text f.topic ++ [filterOptions f]) := by
  rw [← encodeSubscribeOptions_eq hf.2.1 hf.2.2.1]
  refine Fills.of_eq ((fills_text f.topic).andThen (fills_store [encodeSubscribeOptions f]))
    fun buf off => ?_
  simp only [writeFilter, writeUTF8String]
  cases writePrefixed buf off f.topic with
  | none => rfl
  | some r => cases hs : r.1.store r.2 [encodeSubscribeOptions f] <;> simp [hs, bind]

theorem writeSubscribe_eq {o : SubscribeOpts} (h : validateSubscribeOpts o = .ok ()) :
    writeSubscribe o = send (subscribeFrame o) := by
  obtain ⟨-, hne, hfilters, hid, -⟩ := validateSubscribeOpts_ok.mp h
  have hid' : ∀ id ∈ o.subscriptionIdentifier, id.toNat ≤ maxVarintValue :=
    fun id hm => (hid id hm).2
  unfold writeSubscribe
  simp only [h, subscribePropsLen_eq hid', length_eq_zero_iff, hne, if_false]
  have hfill := fills_foldlM writeFilter (fun f => text f.topic ++ [filterOptions f]) o.filters
    fun f hf => fills_filter (hfilters f hf)
  have hbody := (fills_uint16 o.packetID).andThen
    ((fills_propertiesPrefix (entryBytes (subscribeEntries o)).length).andThen
      ((fills_subscriptionIdentifier hid').andThen
        ((fills_userProps o.userProperties).andThen hfill)))
  refine emit_eq ((subscribeFrame o).items) (Fills.congr (Fills.of_eq hbody fun _ _ => rfl) ?_) ?_
  · simp [subscribeFrame, subscribeEntries, entryBytes_append, writtenBody, Item.written,
      flatMap_assoc]
  · rw [foldl_add]
    simp [subscribeFrame, writtenBody, Item.written, flatMap_assoc, length_flatMap,
      text_length, propertiesPrefix_length, Nat.add_assoc]

theorem writeSubAckLike_eq {o : AckListOpts} (h : o.reasonCodes ≠ []) :
    writeSubAckLike t o = send (ackListFrame t o) := by
  unfold writeSubAckLike
  simp only [length_eq_zero_iff, h, if_false, reasonPropsLen_eq]
  have hcodes : Fills (fun buf off => o.reasonCodes.foldlM
      (fun r c => (r.1.store r.2 [c]).map (·, r.2 + 1)) (buf, off))
      (o.reasonCodes.flatMap fun c => [c]) :=
    fills_foldlM (fun c buf off => (buf.store off [c]).map (·, off + 1)) _ o.reasonCodes
      fun c _ => fills_store [c]
  have hbody := (fills_uint16 o.packetID).andThen
    ((fills_propertiesPrefix (entryBytes
      (reasonEntries o.reasonString o.userProperties)).length).andThen
      ((fills_reasonProps o.reasonString o.userProperties).andThen hcodes))
  refine emit_eq ((ackListFrame t o).items) (Fills.congr (Fills.of_eq hbody fun _ _ => rfl) ?_) ?_
  · simp [ackListFrame, writtenBody, Item.written]
  · simp [ackListFrame, writtenBody, Item.written, propertiesPrefix_length]
    omega

theorem writeUnsubscribe_eq {o : UnsubscribeOpts} (h : validateUnsubscribeOpts o = .ok ()) :
    writeUnsubscribe o = send (unsubscribeFrame o) := by
  have hne := (validateUnsubscribeOpts_ok.mp h).2.1
  unfold writeUnsubscribe
  simp only [h, length_eq_zero_iff, hne, if_false, ← entryBytes_userEntries]
  have hbody := (fills_uint16 o.packetID).andThen
    ((fills_propertiesPrefix (entryBytes (userEntries o.userProperties)).length).andThen
      ((fills_userProps o.userProperties).andThen
        (fills_foldlM (fun t buf off => writeUTF8String buf off t) text o.topics
          fun t _ => fills_text t)))
  refine emit_eq ((unsubscribeFrame o).items) (Fills.congr (Fills.of_eq hbody fun _ _ => rfl) ?_) ?_
  · simp [unsubscribeFrame, writtenBody, Item.written, flatMap_map]
  · rw [foldl_add]
    simp [unsubscribeFrame, writtenBody, Item.written, flatMap_map, length_flatMap,
      text_length, propertiesPrefix_length]
    omega

/-! ## PUBLISH -/

theorem fills_publishProps (o : PublishOpts) :
    Fills (writePublishProps o) (entryBytes (publishEntries o)) := by
  refine Fills.congr (Fills.of_eq
    ((fills_property1 propPayloadFormat o.payloadFormatIndicator).andThen
    ((fills_property4 Program.propMessageExpiryInterval o.messageExpiryInterval).andThen
    ((fills_propertyString propContentType o.contentType).andThen
    ((fills_propertyString propResponseTopic o.responseTopic).andThen
    ((fills_propertyBinary propCorrelationData o.correlationData).andThen
    ((fills_property2 propTopicAlias o.topicAlias).andThen
    (fills_userProps o.userProperties))))))) fun _ _ => rfl) ?_
  simp only [publishEntries, entryBytes_append, append_assoc]

theorem publishPropsLen_eq (o : PublishOpts) :
    publishPropsLen o = (entryBytes (publishEntries o)).length := by
  simp only [publishEntries, entryBytes_append, length_append, entryBytes_optString,
    entryBytes_optUint32, entryBytes_optByte, entryBytes_optBinary, entryBytes_nonzero,
    entryBytes_userEntries, publishPropsLen, fixedPropLen, stringPropLen]
  cases o.payloadFormatIndicator <;> cases o.messageExpiryInterval <;>
    cases o.correlationData <;> simp [binaryPropLen] <;> split_ifs <;> omega

theorem fills_publishVarHdr (o : PublishOpts) :
    Fills (encodePublishVarHdr o (publishPropsLen o)) (writtenBody (publishHeader o)) := by
  rw [publishPropsLen_eq]
  have hid : Fills (writePacketID (0 < o.qos) o.packetID)
      (if 0 < o.qos then putUint16 o.packetID.toNat else []) :=
    (fills_uint16 o.packetID).ite (0 < o.qos) fills_nothing
  refine Fills.congr (Fills.of_eq ((fills_text o.topic).andThen (hid.andThen
    ((fills_propertiesPrefix (entryBytes (publishEntries o)).length).andThen
      (fills_publishProps o))))
    fun _ _ => rfl) ?_
  simp [publishHeader, writtenBody, Item.written]

/-- A writer over a slice of a buffer. -/
theorem inSlice_eq {xs : Bytes} (hw : Fills w xs) (pre mid post : Cells UInt8)
    (h : mid.length = xs.length) :
    inSlice pre.length (pre.length + xs.length) w (pre ++ mid ++ post) =
      some (pre ++ xs.map some ++ post) := by
  have hmid : ((pre ++ mid ++ post).take (pre.length + xs.length)).drop pre.length = mid := by
    rw [take_left' (by simp [h]), drop_left' rfl]
  have hpre : (pre ++ mid ++ post).take pre.length = pre := by
    rw [append_assoc, take_left' rfl]
  have hpost : (pre ++ mid ++ post).drop (pre.length + xs.length) = post :=
    drop_left' (by simp [h])
  have hrun := hw [] mid (by omega)
  rw [drop_eq_nil_of_le (by omega)] at hrun
  unfold inSlice
  rw [if_pos ⟨by omega, by simp [h]⟩, hmid, hpre, hpost]
  simp only [nil_append, length_nil] at hrun
  simp [hrun]

theorem publishFirst_eq (hq : ¬2 < o.qos) :
    PacketType.PUBLISH.toByte <<< 4 ||| publishFlags o = publishFirst o := by
  unfold publishFlags publishFirst
  rw [qos_mask hq]
  cases o.dup <;> cases o.retain <;>
    simp [show PacketType.PUBLISH.toByte <<< 4 = 0x30 by decide, UInt8.or_assoc]

theorem varHdrSize_eq (o : PublishOpts) :
    (publishLayoutOf o).varHdrSize = (writtenBody (publishHeader o)).length := by
  simp only [publishLayoutOf, publishPropsLen_eq]
  by_cases h : 0 < o.qos <;>
    simp [h, publishHeader, writtenBody, Item.written, text_length, propertiesPrefix_length] <;>
    omega

theorem remaining_eq (o : PublishOpts) :
    (publishLayoutOf o).remaining = (writtenBody (publishFrame o).items).length := by
  have h := varHdrSize_eq o
  simp only [publishFrame, writtenBody_append, length_append, ← h]
  simp [publishLayoutOf, writtenBody, Item.written]

/-- The header of a PUBLISH, written into a buffer with room for `k` bytes more. -/
theorem encodeHeader_eq (hq : ¬2 < o.qos) (k : ℕ) :
    (publishLayoutOf o).encodeHeader (Cells.fresh ((publishLayoutOf o).headerSize + k)) o =
      match encodeVarint (toUint32 (publishLayoutOf o).remaining) with
      | .error e => .error (.error e)
      | .ok vbi => .ok ((publishFirst o :: vbi ++ writtenBody (publishHeader o)).map some ++
          Cells.fresh k) := by
  have hstore : Cells.store (Cells.fresh ((publishLayoutOf o).headerSize + k)) 0 [publishFirst o] =
      some (some (publishFirst o) ::
        Cells.fresh ((publishLayoutOf o).vbiSize + (publishLayoutOf o).varHdrSize + k)) := by
    have := store_eq [] (Cells.fresh ((publishLayoutOf o).headerSize + k)) [publishFirst o]
      (by simp [Cells.fresh, PublishLayout.headerSize]; omega)
    simp only [nil_append, length_nil, map_cons, map_nil,
      length_cons] at this
    rw [this]
    simp only [Cells.fresh, PublishLayout.headerSize, drop_replicate, singleton_append]
    congr 3
    omega
  unfold PublishLayout.encodeHeader
  simp only [publishFirst_eq hq, hstore]
  cases hv : encodeVarint (toUint32 (publishLayoutOf o).remaining) with
  | error e => rfl
  | ok vbi =>
    have hvbi : vbi.length = (publishLayoutOf o).vbiSize := by
      by_cases hle : toUint32 (publishLayoutOf o).remaining ≤ maxVarintValue
      · rw [encodeVarint_of_le hle] at hv
        cases hv
        exact varint_length hle
      · rw [encodeVarint_of_gt (by omega)] at hv
        cases hv
    have hslice := inSlice_eq (fills_store vbi) [some (publishFirst o)] (Cells.fresh vbi.length)
      (Cells.fresh ((publishLayoutOf o).varHdrSize + k)) (Cells.fresh_length _)
    -- The variable header goes behind the Remaining Length.
    have hvar := inSlice_eq (fills_publishVarHdr o) ([some (publishFirst o)] ++ vbi.map some)
      (Cells.fresh (publishLayoutOf o).varHdrSize) (Cells.fresh k)
      (by rw [Cells.fresh_length, varHdrSize_eq])
    rw [← varHdrSize_eq, append_assoc, ← Cells.fresh_add] at hvar
    have hpre : ([some (publishFirst o)] ++ vbi.map some : Cells UInt8).length =
        1 + vbi.length := by
      rw [length_append, length_map, length_singleton]
    rw [hpre] at hvar
    rw [length_singleton] at hslice
    have hcells : (some (publishFirst o) ::
        Cells.fresh (vbi.length + (publishLayoutOf o).varHdrSize + k) : Cells UInt8) =
        [some (publishFirst o)] ++ Cells.fresh vbi.length ++
          Cells.fresh ((publishLayoutOf o).varHdrSize + k) := by
      rw [append_assoc, ← Cells.fresh_add, Nat.add_assoc]
      rfl
    have hprops : (publishLayoutOf o).propsLen = publishPropsLen o := rfl
    simp only [← hvbi, hcells, hslice, hprops, hvar]
    simp

section

variable (h : validatePublishOpts o = .ok ())
include h

theorem writePublish_eq :
    writePublish o = send (publishFrame o) := by
  have hq := (validatePublishOpts_ok.mp h).1
  have hhdr := encodeHeader_eq hq 0
  unfold writePublish appendPublishHeader send
  simp only [h]
  rw [Nat.add_zero, remaining_eq] at hhdr
  rw [hhdr]
  cases encodeVarint (toUint32 (writtenBody (publishFrame o).items).length) with
  | error e => rfl
  | ok vbi =>
    by_cases hp : o.payload = []
    · simp [hp, publishFrame, writtenBody, Item.written, Cells.fresh]
    · simp [hp, publishFrame, writtenBody, Item.written, Cells.fresh]

/-- `AppendPublishHeader`, and the payload after what it appends. -/
theorem appendPublishHeader_eq :
    (appendPublishHeader o).map (· ++ o.payload.map some) = send (publishFrame o) := by
  have hq := (validatePublishOpts_ok.mp h).1
  have hhdr := encodeHeader_eq hq 0
  unfold appendPublishHeader send
  simp only [h]
  rw [Nat.add_zero, remaining_eq] at hhdr
  rw [hhdr]
  cases encodeVarint (toUint32 (writtenBody (publishFrame o).items).length) with
  | error e => rfl
  | ok vbi =>
    simp [Except.map, publishFrame, writtenBody, Item.written, Cells.fresh]

/-- `EncodePublish` and `MarshalPublish`. -/
theorem encodeWhole_eq :
    encodeWhole o = send (publishFrame o) := by
  have hq := (validatePublishOpts_ok.mp h).1
  have htotal : (publishLayoutOf o).total = (publishLayoutOf o).headerSize + o.payload.length := by
    simp only [publishLayoutOf, PublishLayout.headerSize]
    omega
  have hhdr := encodeHeader_eq hq o.payload.length
  unfold encodeWhole send
  simp only [h, PublishLayout.encode, htotal, hhdr, remaining_eq]
  cases hv : encodeVarint (toUint32 (writtenBody (publishFrame o).items).length) with
  | error e => rfl
  | ok vbi =>
    have hlen : (publishLayoutOf o).headerSize =
        ((publishFirst o :: vbi ++ writtenBody (publishHeader o)).map some).length := by
      by_cases hle : toUint32 (writtenBody (publishFrame o).items).length ≤ maxVarintValue
      · rw [encodeVarint_of_le hle] at hv
        cases hv
        have hvbi : (publishLayoutOf o).vbiSize =
          varintSize (toUint32 (publishLayoutOf o).remaining) :=
          rfl
        simp only [PublishLayout.headerSize, hvbi, remaining_eq, varHdrSize_eq, length_map,
          length_cons, length_append, cons_append, varint_length hle]
        omega
      · rw [encodeVarint_of_gt (by omega)] at hv
        cases hv
    have hcopy := copyAt_eq ((publishFirst o :: vbi ++ writtenBody (publishHeader o)).map some)
      (Cells.fresh o.payload.length) o.payload (by simp [Cells.fresh])
    simp only [hlen, hcopy]
    simp [publishFrame, writtenBody, Item.written, Cells.fresh]

end

end Mqttv5.Analysis.Wire
