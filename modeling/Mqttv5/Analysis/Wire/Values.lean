import Mqttv5.Analysis.Wire.Props
import Mqttv5.Analysis.Wire.Utf8

/-!
# The decoder's check of the values an encoder writes

The encoders' checks of their options are what the decoder's check of a property section asks
for, property by property.
-/

set_option autoImplicit false

namespace Mqttv5.Analysis.Wire

open Interface.Wire
open Model (Bytes ReasonCode)
open Model.Wire
open Program (decodeVarint propLayout PropLayout uint16 putUint32)
open Program.Wire List
open Option (mem_toList)

variable {v : Option UInt32} {s : Bytes}

/-- A property the check of a `t` packet lets through wherever its identifier is permitted. -/
def Good (t : PacketType) (e : Entry) : Prop := Fits e ∧ checkPropValue t e.id e.val.bytes = none

/-- The identifiers whose values are checked. -/
def checkedProps : List UInt8 :=
  booleanProps ++ stringProps ++ [propUserProperty, propTopicAlias, propReceiveMaximum,
    propMaximumPacketSize, propSubscriptionIdentifier]

theorem checkPropValue_unchecked {t : PacketType} {id : UInt8} (h : id ∉ checkedProps) (v : Bytes) :
    checkPropValue t id v = none := by
  simp only [checkedProps, mem_append, mem_cons, not_mem_nil, or_false,
    not_or] at h
  obtain ⟨⟨hb, hs⟩, hu, ha, hr, hm, hi⟩ := h
  simp [checkPropValue, hb, hs, hu, ha, hr, hm, hi]

/-! ## The check of each kind of value -/

section Checks

variable {t : PacketType} {id : UInt8}

theorem check_boolean (hb : id ∈ booleanProps) {b : UInt8} :
    checkPropValue t id (PropVal.byte b).bytes = none ↔ b ≤ 1 := by
  change checkPropValue t id [b] = none ↔ b ≤ 1
  unfold checkPropValue
  rw [if_pos hb, ← UInt8.not_lt]
  change (if 1 < b then _ else none) = none ↔ _
  split <;> simp_all

/-- A string; a Response Topic must be a topic name besides. -/
theorem check_string (hs : id ∈ stringProps) :
    checkPropValue t id (PropVal.text s).bytes = none ↔
      validUTF8Bytes s = true ∧ (id = propResponseTopic → containsWildcard s = false) := by
  have hb : id ∉ booleanProps := forall_iff_forall_mem.mp
    (show stringProps.Forall (· ∉ booleanProps) by decide) id hs
  have hdrop : (text s).drop 2 = s := rfl
  simp only [checkPropValue, hb, hs, if_false, if_true, PropVal.bytes, hdrop]
  cases validUTF8Bytes s <;> cases containsWildcard s <;> by_cases hid : id = propResponseTopic <;>
    simp [hid]

theorem check_user {k v : Bytes} (hk : k.length ≤ 0xffff) :
    checkPropValue t propUserProperty (PropVal.pair k v).bytes = none ↔
      validUTF8Bytes k = true ∧ validUTF8Bytes v = true := by
  have hcheck : ∀ bs, checkPropValue t propUserProperty bs =
      if !validUTF8Bytes ((bs.take (2 + uint16 bs)).drop 2) ||
          !validUTF8Bytes (bs.drop (4 + uint16 bs)) then
        some (malformed t "user property is not well-formed UTF-8" []) else none := fun _ => rfl
  have hlen : uint16 (text k ++ text v) = k.length := by
    rw [text, append_assoc, uint16_put hk]
  have hkey : ((text k ++ text v).take (2 + k.length)).drop 2 = k := by
    rw [take_left' (text_length k)]
    rfl
  have hval : (text k ++ text v).drop (4 + k.length) = v := by
    rw [show 4 + k.length = (2 + k.length) + 2 by omega, ← drop_drop, drop_text]
    rfl
  rw [hcheck, PropVal.bytes, hlen, hkey, hval]
  cases validUTF8Bytes k <;> cases validUTF8Bytes v <;> simp

theorem putUint16_zero {v : UInt16} :
    ((putUint16 v.toNat).getD 0 0 = 0 ∧ (putUint16 v.toNat).getD 1 0 = 0) ↔ v = 0 := by
  constructor
  · rintro ⟨h0, h1⟩
    have hput := uint16_put (v := v.toNat) (by have := v.toNat_lt; omega) []
    have h0' : UInt8.ofNat (v.toNat / 2 ^ 8) = 0 := h0
    have h1' : UInt8.ofNat v.toNat = 0 := h1
    rw [putUint16, h0', h1'] at hput
    exact UInt16.toNat_inj.mp hput.symm
  · rintro rfl
    decide

/-- A Topic Alias and a Receive Maximum must not be 0. -/
theorem check_nonzeroUint16 (hid : id = propTopicAlias ∨ id = propReceiveMaximum) {v : UInt16} :
    checkPropValue t id (PropVal.uint16 v).bytes = none ↔ v ≠ 0 := by
  have hcheck : ∃ e, ∀ bs, checkPropValue t id bs =
      if bs.getD 0 0 = 0 ∧ bs.getD 1 0 = 0 then some e else none := by
    rcases hid with rfl | rfl <;> exact ⟨_, fun _ => rfl⟩
  obtain ⟨e, he⟩ := hcheck
  rw [he, PropVal.bytes, ne_eq, ← putUint16_zero]
  split <;> simp_all

theorem putUint32_zero {v : UInt32} :
    ((putUint32 v.toNat).getD 0 0 ||| (putUint32 v.toNat).getD 1 0 |||
      (putUint32 v.toNat).getD 2 0 ||| (putUint32 v.toNat).getD 3 0 = 0) ↔ v = 0 := by
  constructor
  · intro h0
    obtain ⟨h0, h3⟩ := UInt8.or_eq_zero_iff.mp h0
    obtain ⟨h0, h2⟩ := UInt8.or_eq_zero_iff.mp h0
    obtain ⟨h0, h1⟩ := UInt8.or_eq_zero_iff.mp h0
    have hput := uint32_put v.toNat_lt []
    unfold putUint32 at hput h0 h1 h2 h3
    simp only [getD_cons_zero, getD_cons_succ] at h0 h1 h2 h3
    rw [h0, h1, h2, h3] at hput
    exact UInt32.toNat_inj.mp hput.symm
  · rintro rfl
    decide

theorem check_maximumPacketSize {v : UInt32} :
    checkPropValue t propMaximumPacketSize (PropVal.uint32 v).bytes = none ↔ v ≠ 0 := by
  have hcheck : ∀ bs, checkPropValue t propMaximumPacketSize bs =
      if bs.getD 0 0 ||| bs.getD 1 0 ||| bs.getD 2 0 ||| bs.getD 3 0 = 0 then
        some (protocolError t "Maximum Packet Size is 0" []) else none := fun _ => rfl
  rw [hcheck, PropVal.bytes, ne_eq, ← putUint32_zero]
  split <;> simp_all

theorem check_subscriptionIdentifier {i : UInt32} (hi : i.toNat ≤ maxVarintValue) :
    checkPropValue t propSubscriptionIdentifier (PropVal.varint i).bytes = none ↔ i ≠ 0 := by
  have hdecode := decodeVarint_varint hi []
  rw [append_nil] at hdecode
  rw [checkPropValue_identifier, PropVal.bytes, hdecode]
  have hzero : i.toNat = 0 ↔ i = 0 := UInt32.toNat_inj (b := 0)
  simp only [hzero]
  split <;> simp_all

end Checks

/-! ## The properties an encoder writes -/

section Kinds

variable {t : PacketType} {id : UInt8}

theorem good_optByte {v : Option UInt8} (hl : propLayout id = .fixed 1) (hb : id ∈ booleanProps)
    (hv : ∀ b ∈ v, b ≤ 1) : ∀ e ∈ optByte id v, Good t e := by
  intro e he
  simp only [optByte, mem_map, mem_toList] at he
  obtain ⟨b, hbv, rfl⟩ := he
  exact ⟨⟨hl, trivial⟩, (check_boolean hb).mpr (hv b hbv)⟩

theorem good_optUint16 {v : Option UInt16} (hl : propLayout id = .fixed 2)
    (hid : id ∉ checkedProps) : ∀ e ∈ optUint16 id v, Good t e := by
  intro e he
  simp only [optUint16, mem_map, mem_toList] at he
  obtain ⟨x, -, rfl⟩ := he
  exact ⟨⟨hl, trivial⟩, checkPropValue_unchecked hid _⟩

theorem good_receiveMaximum {v : Option UInt16} (hv : v ≠ some 0) :
    ∀ e ∈ optUint16 propReceiveMaximum v, Good t e := by
  intro e he
  simp only [optUint16, mem_map, mem_toList] at he
  obtain ⟨x, hx, rfl⟩ := he
  refine ⟨⟨rfl, trivial⟩, (check_nonzeroUint16 (.inr rfl)).mpr fun h0 => hv ?_⟩
  rw [← h0]
  exact hx

theorem good_topicAlias {v : UInt16} : ∀ e ∈ nonzeroUint16 propTopicAlias v, Good t e := by
  intro e he
  unfold nonzeroUint16 at he
  split at he
  · cases he
  · next hne =>
    cases mem_singleton.mp he
    exact ⟨⟨rfl, trivial⟩, (check_nonzeroUint16 (.inl rfl)).mpr hne⟩

theorem good_nonzeroUint16 {v : UInt16} (hl : propLayout id = .fixed 2)
    (hid : id ∉ checkedProps) : ∀ e ∈ nonzeroUint16 id v, Good t e := by
  intro e he
  unfold nonzeroUint16 at he
  split at he
  · cases he
  · cases mem_singleton.mp he
    exact ⟨⟨hl, trivial⟩, checkPropValue_unchecked hid _⟩

theorem good_optUint32 (hl : propLayout id = .fixed 4)
    (hid : id ∉ checkedProps) : ∀ e ∈ optUint32 id v, Good t e := by
  intro e he
  simp only [optUint32, mem_map, mem_toList] at he
  obtain ⟨x, -, rfl⟩ := he
  exact ⟨⟨hl, trivial⟩, checkPropValue_unchecked hid _⟩

theorem good_maximumPacketSize (hv : v ≠ some 0) :
    ∀ e ∈ optUint32 propMaximumPacketSize v, Good t e := by
  intro e he
  simp only [optUint32, mem_map, mem_toList] at he
  obtain ⟨x, hx, rfl⟩ := he
  refine ⟨⟨rfl, trivial⟩, check_maximumPacketSize.mpr fun h0 => hv ?_⟩
  rw [← h0]
  exact hx

theorem good_subscriptionIdentifier (hv : ∀ i ∈ v, i ≠ 0 ∧ i.toNat ≤ maxVarintValue) :
    ∀ e ∈ optVarint propSubscriptionIdentifier v, Good t e := by
  intro e he
  simp only [optVarint, mem_map, mem_toList] at he
  obtain ⟨x, hx, rfl⟩ := he
  obtain ⟨hne, hle⟩ := hv x hx
  exact ⟨⟨rfl, hle⟩, (check_subscriptionIdentifier hle).mpr hne⟩

section

variable (hl : propLayout id = .prefixed)
include hl

theorem good_optBinary {v : Option Bytes}
    (hid : id ∉ checkedProps) (hv : ∀ d ∈ v, d.length ≤ 0xffff) :
    ∀ e ∈ optBinary id v, Good t e := by
  intro e he
  simp only [optBinary, mem_map, mem_toList] at he
  obtain ⟨x, hx, rfl⟩ := he
  exact ⟨⟨hl, hv x hx⟩, checkPropValue_unchecked hid _⟩

/-- A string; a Response Topic must be a topic name besides. -/
theorem good_optString (hs : id ∈ stringProps) (hgood : s ≠ [] → GoodString s)
    (htopic : id = propResponseTopic → s ≠ [] → containsWildcard s = false) :
    ∀ e ∈ optString id s, Good t e := by
  intro e he
  unfold optString at he
  split at he
  · cases he
  · next hne =>
    cases mem_singleton.mp he
    exact ⟨⟨hl, (hgood hne).1⟩,
      (check_string hs).mpr ⟨(hgood hne).2, fun hid => htopic hid hne⟩⟩

/-- A string that is not a Response Topic. -/
theorem good_string (hs : id ∈ stringProps)
    (hid : id ≠ propResponseTopic) (hgood : GoodString s) : ∀ e ∈ optString id s, Good t e :=
  good_optString hl hs (fun _ => hgood) fun h => absurd h hid

end

theorem good_userEntries {ups : List UserProperty} (h : ∀ up ∈ ups, GoodUser up) :
    ∀ e ∈ userEntries ups, Good t e := by
  intro e he
  obtain ⟨up, hup, rfl⟩ := mem_map.mp he
  obtain ⟨hk, hv⟩ := h up hup
  exact ⟨⟨rfl, hk.1, hv.1⟩, (check_user hk.1).mpr ⟨hk.2, hv.2⟩⟩

end Kinds

/-- All of two lists of properties. -/
theorem good_append {t : PacketType} {a b : List Entry} (ha : ∀ e ∈ a, Good t e)
    (hb : ∀ e ∈ b, Good t e) : ∀ e ∈ a ++ b, Good t e := by
  intro e he
  rcases mem_append.mp he with h | h
  · exact ha e h
  · exact hb e h

/-! ## The properties of each packet -/

theorem publishEntries_good {o : PublishOpts} (h : validatePublishOpts o = .ok ()) :
    ∀ e ∈ publishEntries o, Good .PUBLISH e := by
  obtain ⟨-, -, -, -, -, hrt, hpf, hct, hcd, hup⟩ := validatePublishOpts_ok.mp h
  refine good_append (good_append (good_append (good_append (good_append (good_append
    (good_optByte (by decide) (by decide) hpf) (good_optUint32 (by decide) (by decide)))
    (good_string (by decide) (by decide) (by decide) hct))
    (good_optString (by decide) (by decide) (fun hne => (hrt hne).1)
      (fun _ hne => (hrt hne).2)))
    (good_optBinary (by decide) (by decide) hcd)) good_topicAlias) (good_userEntries hup)

theorem publishEntries_within (o : PublishOpts) :
    Within (publishEntries o) [propPayloadFormat, Program.propMessageExpiryInterval,
      propContentType, propResponseTopic, propCorrelationData, propTopicAlias] :=
  ((((((within_opt _ _ _).append (within_opt _ _ _)).append (within_optString _ _)).append
    (within_optString _ _)).append (within_opt _ _ _)).append (within_nonzero _ _)).append
    (within_users _)

theorem reasonEntries_good {t : PacketType} {ups : List UserProperty}
    (hs : GoodString s) (hup : ∀ up ∈ ups, GoodUser up) :
    ∀ e ∈ reasonEntries s ups, Good t e :=
  good_append (good_string (by decide) (by decide) (by decide) hs) (good_userEntries hup)

theorem reasonEntries_within (s : Bytes) (ups : List UserProperty) :
    Within (reasonEntries s ups) [propReasonString] :=
  (within_optString _ _).append (within_users _)

theorem connackEntries_good {o : ConnackOpts} (h : validateConnackOpts o = .ok ()) :
    ∀ e ∈ connackEntries o, Good .CONNACK e := by
  obtain ⟨-, hmq, hra, hws, hsi, hss, hrm, hmp, hac, hrs, hri, hsr, ham, had, hup⟩ :=
    validateConnackOpts_ok.mp h
  refine good_append (good_append (good_append (good_append (good_append (good_append (good_append
    (good_append (good_append (good_append (good_append (good_append (good_append (good_append
    (good_append (good_append (good_optUint32 (by decide) (by decide)) (good_receiveMaximum hrm))
    (good_optByte (by decide) (by decide) hmq)) (good_optByte (by decide) (by decide) hra))
    (good_maximumPacketSize hmp)) ?_) (good_nonzeroUint16 (by decide) (by decide))) ?_)
    (good_userEntries hup)) (good_optByte (by decide) (by decide) hws))
    (good_optByte (by decide) (by decide) hsi)) (good_optByte (by decide) (by decide) hss))
    (good_optUint16 (by decide) (by decide))) ?_) ?_) ?_)
    (good_optBinary (by decide) (by decide) had)
  · exact good_string (by decide) (by decide) (by decide) hac
  · exact good_string (by decide) (by decide) (by decide) hrs
  · exact good_string (by decide) (by decide) (by decide) hri
  · exact good_string (by decide) (by decide) (by decide) hsr
  · exact good_string (by decide) (by decide) (by decide) ham

theorem connackEntries_within (o : ConnackOpts) :
    Within (connackEntries o) [propSessionExpiryInterval, propReceiveMaximum, propMaximumQoS,
      propRetainAvailable, propMaximumPacketSize, propAssignedClientID, propTopicAliasMaximum,
      propReasonString, propWildcardSubAvailable, propSubscriptionIDAvailable,
      propSharedSubAvailable, propServerKeepAlive, propResponseInformation, propServerReference,
      propAuthMethod, propAuthData] :=
  ((((((((((((((((within_opt _ _ _).append (within_opt _ _ _)).append
    (within_opt _ _ _)).append (within_opt _ _ _)).append (within_opt _ _ _)).append
    (within_optString _ _)).append (within_nonzero _ _)).append (within_optString _ _)).append
    (within_users _)).append (within_opt _ _ _)).append (within_opt _ _ _)).append
    (within_opt _ _ _)).append (within_opt _ _ _)).append (within_optString _ _)).append
    (within_optString _ _)).append (within_optString _ _)).append (within_opt _ _ _)

theorem authEntries_good {o : AuthOpts} (h : validateAuthOpts o = .ok ()) :
    ∀ e ∈ authEntries o, Good .AUTH e := by
  obtain ⟨-, ham, had, hrs, hup⟩ := validateAuthOpts_ok.mp h
  refine good_append (good_append (good_append ?_ (good_optBinary (by decide) (by decide) had)) ?_)
    (good_userEntries hup)
  · exact good_string (by decide) (by decide) (by decide) ham
  · exact good_string (by decide) (by decide) (by decide) hrs

theorem authEntries_within (o : AuthOpts) :
    Within (authEntries o) [propAuthMethod, propAuthData, propReasonString] :=
  (((within_optString _ _).append (within_opt _ _ _)).append (within_optString _ _)).append
    (within_users _)

theorem disconnectEntries_good {o : DisconnectOpts} (h : validateDisconnectOpts o = .ok ()) :
    ∀ e ∈ disconnectEntries o, Good .DISCONNECT e := by
  obtain ⟨-, hrs, hsr, hup⟩ := validateDisconnectOpts_ok.mp h
  refine good_append (good_append (good_append (good_optUint32 (by decide) (by decide)) ?_) ?_)
    (good_userEntries hup)
  · exact good_string (by decide) (by decide) (by decide) hrs
  · exact good_string (by decide) (by decide) (by decide) hsr

theorem disconnectEntries_within (o : DisconnectOpts) :
    Within (disconnectEntries o) [propSessionExpiryInterval, propReasonString,
      propServerReference] :=
  (((within_opt _ _ _).append (within_optString _ _)).append (within_optString _ _)).append
    (within_users _)

theorem subscribeEntries_good {o : SubscribeOpts} (h : validateSubscribeOpts o = .ok ()) :
    ∀ e ∈ subscribeEntries o, Good .SUBSCRIBE e := by
  obtain ⟨-, -, -, hid, hup⟩ := validateSubscribeOpts_ok.mp h
  exact good_append (good_subscriptionIdentifier hid) (good_userEntries hup)

theorem subscribeEntries_within (o : SubscribeOpts) :
    Within (subscribeEntries o) [propSubscriptionIdentifier] :=
  (within_opt _ _ _).append (within_users _)

theorem connectEntries_good {o : ConnectOpts} (h : validateConnectOpts o = .ok ()) :
    ∀ e ∈ connectEntries o, Good .CONNECT e := by
  obtain ⟨-, -, -, -, hrm, hmp, hri, hpi, ham, -, had, hup⟩ := validateConnectOpts_ok.mp h
  refine good_append (good_append (good_append (good_append (good_append (good_append (good_append
    (good_append (good_optUint32 (by decide) (by decide)) (good_receiveMaximum hrm))
    (good_maximumPacketSize hmp)) (good_nonzeroUint16 (by decide) (by decide)))
    (good_optByte (by decide) (by decide) hri)) (good_optByte (by decide) (by decide) hpi)) ?_)
    (good_optBinary (by decide) (by decide) had)) (good_userEntries hup)
  exact good_string (by decide) (by decide) (by decide) ham

theorem connectEntries_within (o : ConnectOpts) :
    Within (connectEntries o) [propSessionExpiryInterval, propReceiveMaximum,
      propMaximumPacketSize, propTopicAliasMaximum, propRequestResponseInfo,
      propRequestProblemInfo, propAuthMethod, propAuthData] :=
  ((((((((within_opt _ _ _).append (within_opt _ _ _)).append
    (within_opt _ _ _)).append (within_nonzero _ _)).append (within_opt _ _ _)).append
    (within_opt _ _ _)).append (within_optString _ _)).append (within_opt _ _ _)).append
    (within_users _)

theorem willEntries_good {w : WillOpts} (h : validateWillOpts w = .ok ()) :
    ∀ e ∈ willEntries w, Good .CONNECT e := by
  obtain ⟨-, -, -, hrt, hpf, hct, -, hcd, hup⟩ := validateWillOpts_ok.mp h
  refine good_append (good_append (good_append (good_append (good_append (good_append
    (good_optUint32 (by decide) (by decide)) (good_optByte (by decide) (by decide) hpf))
    (good_optUint32 (by decide) (by decide))) ?_) ?_)
    (good_optBinary (by decide) (by decide) hcd)) (good_userEntries hup)
  · exact good_string (by decide) (by decide) (by decide) hct
  · exact good_optString (by decide) (by decide) (fun hne => (hrt hne).1)
      fun _ hne => (hrt hne).2

theorem willEntries_within (w : WillOpts) :
    Within (willEntries w) [propWillDelayInterval, propPayloadFormat,
      Program.propMessageExpiryInterval, propContentType, propResponseTopic,
      propCorrelationData] :=
  ((((((within_opt _ _ _).append (within_opt _ _ _)).append (within_opt _ _ _)).append
    (within_optString _ _)).append (within_optString _ _)).append (within_opt _ _ _)).append
    (within_users _)

/-! ### Every string of an accepted packet fits its length field -/

variable {t : PacketType} {es : List Entry} {f : Frame}

/-- Every value of a property section fits. -/
def EntriesSized (es : List Entry) : Prop := ∀ e ∈ es, e.val.Sized

theorem sized_of_good (h : ∀ e ∈ es, Good t e) :
    EntriesSized es := fun e he => (h e he).1.2

/-- Every string of a body fits. -/
def TextsSized (items : List Item) : Prop := ∀ i ∈ items, i.TextsSized

@[simp] theorem textsSized_nil : TextsSized [] := by simp [TextsSized]

@[simp] theorem textsSized_cons (i : Item) (is : List Item) :
    TextsSized (i :: is) ↔ i.TextsSized ∧ TextsSized is := forall_mem_cons

@[simp] theorem textsSized_append (a b : List Item) :
    TextsSized (a ++ b) ↔ TextsSized a ∧ TextsSized b := forall_mem_append

@[simp] theorem textsSized_raw (bs : Bytes) : (Item.raw bs).TextsSized := trivial

@[simp] theorem textsSized_props (es : List Entry) :
    (Item.props es).TextsSized ↔ EntriesSized es := Iff.rfl

theorem trimmed_sized (reason : ReasonCode) (h : EntriesSized es) :
    TextsSized (trimmed reason es) := by
  unfold trimmed
  split
  · split <;> simp
  · simpa using h

theorem publishFrame_sized {o : PublishOpts} (h : validatePublishOpts o = .ok ()) :
    TextsSized (publishFrame o).items := by
  have ht := (validatePublishOpts_ok.mp h).2.2.2.2.1
  simp only [publishFrame, publishHeader, textsSized_append, textsSized_cons, textsSized_raw,
    textsSized_nil, and_true, true_and]
  exact ⟨ht.1.1, sized_of_good (publishEntries_good h)⟩

theorem pubRespFrame_sized {flags : UInt8} {o : PubRespOpts}
    (h : validatePubRespOpts t o = .ok ()) :
    TextsSized (pubRespFrame t flags o).items := by
  obtain ⟨-, -, hrs, hup⟩ := validatePubRespOpts_ok.mp h
  exact (textsSized_cons _ _).mpr
    ⟨trivial, trimmed_sized o.reasonCode (sized_of_good (t := t) (reasonEntries_good hrs hup))⟩

theorem connectFrame_sized {o : ConnectOpts} (h : validateConnectOpts o = .ok ()) :
    TextsSized (connectFrame o).items := by
  obtain ⟨hcid, hun, hpw, hwill, -⟩ := validateConnectOpts_ok.mp h
  simp only [connectFrame, textsSized_append, textsSized_cons, textsSized_raw, textsSized_nil,
    and_true, true_and]
  refine ⟨⟨⟨⟨(by decide : protocolName.length ≤ 0xffff), sized_of_good (connectEntries_good h),
    hcid.1⟩, ?_⟩, ?_⟩, ?_⟩
  · cases hw : o.will with
    | none => simp [willItems]
    | some w =>
      have hv := hwill w hw
      obtain ⟨hne, ht, -, -, -, -, hpl, -⟩ := validateWillOpts_ok.mp hv
      simp only [willItems, textsSized_cons, textsSized_nil, and_true]
      exact ⟨sized_of_good (willEntries_good hv), (ht hne).1.1, hpl⟩
  · split
    · simp
    · exact (textsSized_cons _ _).mpr ⟨hun.1, textsSized_nil⟩
  · cases hp : o.password with
    | none => simp
    | some p => exact (textsSized_cons _ _).mpr ⟨hpw p hp, textsSized_nil⟩

theorem connackFrame_sized {o : ConnackOpts} (h : validateConnackOpts o = .ok ()) :
    TextsSized (connackFrame o).items := by
  simpa [connackFrame] using sized_of_good (connackEntries_good h)

theorem authFrame_sized {o : AuthOpts} (h : validateAuthOpts o = .ok ()) :
    TextsSized (authFrame o).items :=
  trimmed_sized o.reasonCode (sized_of_good (authEntries_good h))

theorem disconnectFrame_sized {o : DisconnectOpts} (h : validateDisconnectOpts o = .ok ()) :
    TextsSized (disconnectFrame o).items :=
  trimmed_sized o.reasonCode (sized_of_good (disconnectEntries_good h))

theorem subscribeFrame_sized {o : SubscribeOpts} (h : validateSubscribeOpts o = .ok ()) :
    TextsSized (subscribeFrame o).items := by
  have hf := (validateSubscribeOpts_ok.mp h).2.2.1
  simp only [subscribeFrame, textsSized_append, textsSized_cons, textsSized_raw, textsSized_nil,
    and_true, true_and]
  refine ⟨sized_of_good (subscribeEntries_good h), ?_⟩
  intro i hi
  obtain ⟨f, hmem, hi⟩ := mem_flatMap.mp hi
  simp only [mem_cons, not_mem_nil, or_false] at hi
  rcases hi with rfl | rfl
  · exact validTopicFilter_length (hf f hmem).1
  · trivial

theorem ackListFrame_sized {o : AckListOpts} (h : validateAckList t o = .ok ()) :
    TextsSized (ackListFrame t o).items := by
  obtain ⟨-, -, -, hrs, hup⟩ := validateAckList_ok.mp h
  simp only [ackListFrame, textsSized_cons, textsSized_raw, textsSized_nil, and_true, true_and]
  exact sized_of_good (t := t) (reasonEntries_good hrs hup)

theorem unsubscribeFrame_sized {o : UnsubscribeOpts} (h : validateUnsubscribeOpts o = .ok ()) :
    TextsSized (unsubscribeFrame o).items := by
  obtain ⟨-, -, ht, hup⟩ := validateUnsubscribeOpts_ok.mp h
  simp only [unsubscribeFrame, textsSized_append, textsSized_cons, textsSized_raw, textsSized_nil,
    and_true, true_and]
  refine ⟨sized_of_good (t := .UNSUBSCRIBE) (good_userEntries hup), ?_⟩
  intro i hi
  obtain ⟨t, hmem, rfl⟩ := mem_map.mp hi
  exact validTopicFilter_length (ht t hmem)

/-! ## Sending a frame -/

theorem entryBytes_le_writtenBody {items : List Item} (h : .props es ∈ items) :
    (entryBytes es).length ≤ (writtenBody items).length := by
  obtain ⟨a, b, rfl⟩ := append_of_mem h
  rw [writtenBody_append, writtenBody_cons]
  simp only [Item.written, length_append]
  omega

section

variable (h : (writtenBody f.items).length ≤ maxVarintValue)
include h

/-- A body whose length is written as it is has its property lengths written as they are. -/
theorem writtenBody_eq :
    writtenBody f.items = f.body := by
  unfold writtenBody Frame.body
  apply flatMap_congr
  intro i hi
  cases i with
  | raw bs => rfl
  | text s => rfl
  | props es =>
    have := entryBytes_le_writtenBody hi
    simp only [Item.written, Item.bytes]
    rw [propertiesPrefix_of_le (by omega)]

theorem sized_of_texts (ht : TextsSized f.items) :
    f.Sized := by
  refine ⟨by rw [← writtenBody_eq h]; exact h, fun i hi => ?_⟩
  cases i with
  | raw bs => trivial
  | text s => exact ht _ hi
  | props es => exact ⟨(entryBytes_le_writtenBody hi).trans h, ht _ hi⟩

/-- A frame within the limit is sent as it is. -/
theorem send_of_le :
    send f = .ok (f.bytes.map some) := by
  unfold send
  rw [toUint32_of_le h, encodeVarint_of_le h, writtenBody_eq h]
  rfl

end

end Mqttv5.Analysis.Wire
