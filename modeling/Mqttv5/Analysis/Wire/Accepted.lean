import Mqttv5.Program.Wire.Codec
import Mqttv5.Interface.Frame

/-!
# What the encoders' checks let through

Each check of an option as a condition on the option, and the conditions of each packet's check
that bear on the lengths of its frame.
-/

set_option autoImplicit false

namespace Mqttv5.Analysis.Wire

open Interface.Wire
open Model (Bytes ReasonCode)
open Model.Wire
open Program.Wire

variable {α : Type} {m : Except Err α} {field : String} {topic : Bytes} {t : PacketType}

/-- INTERNAL: A check that fails ends what follows it. -/
@[simp] theorem error_bind {α β : Type} (e : Err) (f : α → Except Err β) :
    ((.error e : Except Err α) >>= f) = .error e := rfl

/-- INTERNAL: A check that passes hands its value on. -/
@[simp] theorem ok_bind {α β : Type} (a : α) (f : α → Except Err β) :
    ((.ok a : Except Err α) >>= f) = f a := rfl

/-- INTERNAL: A sequence of checks passes when both of its parts do. -/
@[simp] theorem bind_eq_ok {β : Type} {f : α → Except Err β} {b : β} :
    (m >>= f) = .ok b ↔ ∃ a, m = .ok a ∧ f a = .ok b := by
  cases m with
  | error e => simp
  | ok a => simp

@[simp] theorem ite_error_eq_ok {c : Prop} [Decidable c] {e : Err} {a : α} :
    (if c then .error e else m) = .ok a ↔ ¬c ∧ m = .ok a := by
  by_cases h : c <;> simp [h]

theorem exists_unit {P : Unit → Prop} : (∃ u, P u) ↔ P () := ⟨fun ⟨(), h⟩ => h, fun h => ⟨(), h⟩⟩

/-- A string an encoder may write. -/
def GoodString (s : Bytes) : Prop := s.length ≤ 0xffff ∧ validUTF8Bytes s = true

/-- A topic name. -/
def GoodTopic (s : Bytes) : Prop := GoodString s ∧ containsWildcard s = false

/-- A user property. -/
def GoodUser (up : UserProperty) : Prop := GoodString up.key ∧ GoodString up.value

theorem checkString_ok {s : Bytes} : checkString field s = .ok () ↔ GoodString s := by
  simp [checkString, GoodString, validUTF8]

theorem checkBinary_ok {b : Bytes} : checkBinary field b = .ok () ↔ b.length ≤ 0xffff := by
  simp [checkBinary]

theorem checkBinaryP_ok {b : Option Bytes} :
    checkBinaryP field b = .ok () ↔ ∀ d ∈ b, d.length ≤ 0xffff := by
  cases b <;> simp [checkBinaryP, checkBinary_ok]

theorem checkUserProps_ok {ups : List UserProperty} :
    checkUserProps ups = .ok () ↔ ∀ up ∈ ups, GoodUser up := by
  induction ups with
  | nil => simp [checkUserProps]
  | cons up ups ih =>
    simp only [checkUserProps, bind_eq_ok, exists_unit, checkString_ok, ih, List.forall_mem_cons,
      GoodUser, and_assoc]

theorem checkBool_ok {b : Option UInt8} : checkBool field b = .ok () ↔ ∀ v ∈ b, v ≤ 1 := by
  cases b <;> simp [checkBool]

theorem checkNonzero_ok [DecidableEq α] [OfNat α 0] {text : String} {v : Option α} :
    checkNonzero text v = .ok () ↔ v ≠ some 0 := by
  cases v <;> simp [checkNonzero]

theorem validTopicName_ok : validTopicName topic = .ok () ↔ GoodTopic topic := by
  simp [validTopicName, GoodTopic, GoodString, validUTF8, and_assoc]

theorem checkTopicP_ok {context : String} :
    checkTopicP context topic = .ok () ↔ (topic ≠ [] → GoodTopic topic) := by
  unfold checkTopicP
  by_cases h : topic = []
  · simp [h]
  · rw [if_neg h, ← validTopicName_ok]
    cases validTopicName topic <;> simp [h]

theorem checkReasonCode_ok {rc : ReasonCode} :
    checkReasonCode t rc = .ok () ↔ rc ∈ reasonCodes t := by
  unfold checkReasonCode checkReason
  by_cases h : rc ∈ reasonCodes t <;> simp [h]

theorem checkReasonList_ok {codes : List ReasonCode} :
    checkReasonList t codes = .ok () ↔ ∀ rc ∈ codes, rc ∈ reasonCodes t := by
  induction codes with
  | nil => simp [checkReasonList]
  | cons rc codes ih =>
    simp only [checkReasonList, bind_eq_ok, exists_unit, checkReasonCode_ok, ih,
      List.forall_mem_cons]

/-- The checks of the options, as conditions. -/
theorem validatePublishOpts_ok {o : PublishOpts} :
    validatePublishOpts o = .ok () ↔
      ¬2 < o.qos ∧ ¬(0 < o.qos ∧ o.packetID = 0) ∧ ¬(o.dup = true ∧ o.qos = 0) ∧
        ¬(o.topic = [] ∧ o.topicAlias = 0) ∧ GoodTopic o.topic ∧
        (o.responseTopic ≠ [] → GoodTopic o.responseTopic) ∧
        (∀ v ∈ o.payloadFormatIndicator, v ≤ 1) ∧ GoodString o.contentType ∧
        (∀ d ∈ o.correlationData, d.length ≤ 0xffff) ∧ ∀ up ∈ o.userProperties, GoodUser up := by
  simp only [validatePublishOpts, error_bind, ite_error_eq_ok, bind_eq_ok, exists_unit,
    validTopicName_ok, checkTopicP_ok, checkBool_ok, checkString_ok, checkBinaryP_ok,
    checkUserProps_ok]

theorem validateWillOpts_ok {w : WillOpts} :
    validateWillOpts w = .ok () ↔
      w.topic ≠ [] ∧ (w.topic ≠ [] → GoodTopic w.topic) ∧ ¬2 < w.qos ∧
        (w.responseTopic ≠ [] → GoodTopic w.responseTopic) ∧
        (∀ v ∈ w.payloadFormatIndicator, v ≤ 1) ∧ GoodString w.contentType ∧
        w.payload.length ≤ 0xffff ∧ (∀ d ∈ w.correlationData, d.length ≤ 0xffff) ∧
        ∀ up ∈ w.userProperties, GoodUser up := by
  simp only [validateWillOpts, error_bind, ite_error_eq_ok, bind_eq_ok, exists_unit,
    checkTopicP_ok, checkBool_ok, checkString_ok, checkBinaryP_ok, checkBinary_ok,
    checkUserProps_ok, ne_eq]

theorem validateConnectOpts_ok {o : ConnectOpts} :
    validateConnectOpts o = .ok () ↔
      GoodString o.clientID ∧ GoodString o.username ∧ (∀ p ∈ o.password, p.length ≤ 0xffff) ∧
        (∀ w ∈ o.will, validateWillOpts w = .ok ()) ∧ o.receiveMaximum ≠ some 0 ∧
        o.maximumPacketSize ≠ some 0 ∧ (∀ v ∈ o.requestResponseInformation, v ≤ 1) ∧
        (∀ v ∈ o.requestProblemInformation, v ≤ 1) ∧ GoodString o.authenticationMethod ∧
        ¬(o.authenticationData ≠ none ∧ o.authenticationMethod = []) ∧
        (∀ d ∈ o.authenticationData, d.length ≤ 0xffff) ∧ ∀ up ∈ o.userProperties, GoodUser up := by
  unfold validateConnectOpts
  cases o.will with
  | none | some w =>
    simp [exists_unit, checkNonzero_ok, checkBool_ok, checkString_ok, checkBinaryP_ok,
      checkUserProps_ok]

theorem validateConnackOpts_ok {o : ConnackOpts} :
    validateConnackOpts o = .ok () ↔
      o.reasonCode ∈ reasonCodes .CONNACK ∧ (∀ v ∈ o.maximumQoS, v ≤ 1) ∧
        (∀ v ∈ o.retainAvailable, v ≤ 1) ∧ (∀ v ∈ o.wildcardSubscriptionAvailable, v ≤ 1) ∧
        (∀ v ∈ o.subscriptionIdentifierAvailable, v ≤ 1) ∧
        (∀ v ∈ o.sharedSubscriptionAvailable, v ≤ 1) ∧ o.receiveMaximum ≠ some 0 ∧
        o.maximumPacketSize ≠ some 0 ∧ GoodString o.assignedClientIdentifier ∧
        GoodString o.reasonString ∧ GoodString o.responseInformation ∧
        GoodString o.serverReference ∧ GoodString o.authenticationMethod ∧
        (∀ d ∈ o.authenticationData, d.length ≤ 0xffff) ∧ ∀ up ∈ o.userProperties, GoodUser up := by
  simp only [validateConnackOpts, bind_eq_ok, exists_unit, checkReasonCode_ok, checkBool_ok,
    checkNonzero_ok, checkString_ok, checkBinaryP_ok, checkUserProps_ok]

theorem validateAuthOpts_ok {o : AuthOpts} :
    validateAuthOpts o = .ok () ↔
      o.reasonCode ∈ reasonCodes .AUTH ∧ GoodString o.authenticationMethod ∧
        (∀ d ∈ o.authenticationData, d.length ≤ 0xffff) ∧ GoodString o.reasonString ∧
        ∀ up ∈ o.userProperties, GoodUser up := by
  simp only [validateAuthOpts, bind_eq_ok, exists_unit, checkReasonCode_ok, checkString_ok,
    checkBinaryP_ok, checkUserProps_ok]

theorem validateDisconnectOpts_ok {o : DisconnectOpts} :
    validateDisconnectOpts o = .ok () ↔
      o.reasonCode ∈ reasonCodes .DISCONNECT ∧ GoodString o.reasonString ∧
        GoodString o.serverReference ∧ ∀ up ∈ o.userProperties, GoodUser up := by
  simp only [validateDisconnectOpts, bind_eq_ok, exists_unit, checkReasonCode_ok, checkString_ok,
    checkUserProps_ok]

theorem validatePubRespOpts_ok {o : PubRespOpts} :
    validatePubRespOpts t o = .ok () ↔
      o.packetID ≠ 0 ∧ o.reasonCode ∈ reasonCodes t ∧ GoodString o.reasonString ∧
        ∀ up ∈ o.userProperties, GoodUser up := by
  simp only [validatePubRespOpts, error_bind, ite_error_eq_ok, bind_eq_ok, exists_unit,
    checkReasonCode_ok, checkString_ok, checkUserProps_ok, ne_eq]

theorem validateAckList_ok {o : AckListOpts} :
    validateAckList t o = .ok () ↔
      o.packetID ≠ 0 ∧ o.reasonCodes ≠ [] ∧ (∀ rc ∈ o.reasonCodes, rc ∈ reasonCodes t) ∧
        GoodString o.reasonString ∧ ∀ up ∈ o.userProperties, GoodUser up := by
  simp only [validateAckList, error_bind, ite_error_eq_ok, bind_eq_ok, exists_unit,
    checkReasonList_ok, checkString_ok, checkUserProps_ok, ne_eq]

theorem validTopicFilter_length {f : Bytes} (h : validTopicFilter f = .ok ()) :
    f.length ≤ 0xffff := by
  unfold validTopicFilter at h
  simp only [ite_error_eq_ok] at h
  omega

/-- A topic filter of a SUBSCRIBE. -/
def GoodFilter (f : SubscribeFilter) : Prop :=
  validTopicFilter f.topic = .ok () ∧ ¬2 < f.qos ∧ ¬2 < f.retainHandling ∧
    ¬(f.noLocal = true ∧ isSharedFilter f.topic = true)

theorem checkFilters_ok {filters : List SubscribeFilter} :
    checkFilters filters = .ok () ↔ ∀ f ∈ filters, GoodFilter f := by
  induction filters with
  | nil => simp [checkFilters]
  | cons f filters ih =>
    simp only [checkFilters, error_bind, ite_error_eq_ok, bind_eq_ok, exists_unit, ih,
      List.forall_mem_cons, GoodFilter, and_assoc]

theorem checkTopics_ok {topics : List Bytes} :
    checkTopics topics = .ok () ↔ ∀ t ∈ topics, validTopicFilter t = .ok () := by
  induction topics with
  | nil => simp [checkTopics]
  | cons f topics ih =>
    simp only [checkTopics, bind_eq_ok, exists_unit, ih, List.forall_mem_cons]

theorem validateSubscribeOpts_ok {o : SubscribeOpts} :
    validateSubscribeOpts o = .ok () ↔
      o.packetID ≠ 0 ∧ o.filters ≠ [] ∧ (∀ f ∈ o.filters, GoodFilter f) ∧
        (∀ id ∈ o.subscriptionIdentifier, id ≠ 0 ∧ id.toNat ≤ maxVarintValue) ∧
        ∀ up ∈ o.userProperties, GoodUser up := by
  unfold validateSubscribeOpts
  cases o.subscriptionIdentifier with
  | none | some id => simp [exists_unit, checkFilters_ok, checkUserProps_ok]

theorem validateUnsubscribeOpts_ok {o : UnsubscribeOpts} :
    validateUnsubscribeOpts o = .ok () ↔
      o.packetID ≠ 0 ∧ o.topics ≠ [] ∧ (∀ t ∈ o.topics, validTopicFilter t = .ok ()) ∧
        ∀ up ∈ o.userProperties, GoodUser up := by
  simp only [validateUnsubscribeOpts, error_bind, ite_error_eq_ok, bind_eq_ok, exists_unit,
    checkTopics_ok, checkUserProps_ok, ne_eq]

end Mqttv5.Analysis.Wire
