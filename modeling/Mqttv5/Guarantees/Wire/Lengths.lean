import Mqttv5.Analysis.Wire.Values

/-!
# No encoder truncates a length, below 4 GiB

Every packet writer, over every options value. The lengths are computed as `int` and narrowed
to `uint32` before they are checked, so a body of 4 GiB or more whose low 32 bits happen to be
a permitted length is sent under that length; every other options value is refused or sent with
every length equal to the number of bytes that follow.
-/

set_option autoImplicit false

namespace Mqttv5.Guarantees.Wire

open Analysis.Wire
open Mqttv5.Computation
open Interface.Wire
open Model (Bytes ReasonCode)
open Model.Wire
open Program.Wire List

/-- A packet writer and the options it is called with. -/
inductive Writer
  | connect (o : ConnectOpts)
  | connack (o : ConnackOpts)
  | appendPublishHeader (o : PublishOpts)
  | publish (o : PublishOpts)
  | encodePublish (o : PublishOpts)
  | marshalPublish (o : PublishOpts)
  | puback (o : PubRespOpts)
  | pubrec (o : PubRespOpts)
  | pubrel (o : PubRespOpts)
  | pubcomp (o : PubRespOpts)
  | appendPubResp (t : PacketType) (id : UInt16) (rc : ReasonCode)
  | subscribe (o : SubscribeOpts)
  | suback (o : SubackOpts)
  | unsubscribe (o : UnsubscribeOpts)
  | unsuback (o : UnsubackOpts)
  | disconnect (o : DisconnectOpts)
  | auth (o : AuthOpts)
  | pingreq
  | pingresp

variable {x : Writer}

/-- What is sent when the low 32 bits of the length are a permitted one. -/
theorem send_of_mod {f : Frame} {v : ℕ} (h : toUint32 (writtenBody f.items).length = v)
    (hv : v ≤ maxVarintValue) :
    send f = .ok ((f.first :: varint v ++ writtenBody f.items).map some) := by
  simp only [send, h, encodeVarint_of_le hv]

namespace Writer

/-- What the writer emits; a PUBLISH header is followed by its payload. -/
def emits : Writer → Except Failure (Cells UInt8)
  | connect o => writeConnect o
  | connack o => writeConnack o
  | appendPublishHeader o => (Program.Wire.appendPublishHeader o).map (· ++ o.payload.map some)
  | publish o => writePublish o
  | encodePublish o => Program.Wire.encodePublish o
  | marshalPublish o => Program.Wire.marshalPublish o
  | puback o => writePuback o
  | pubrec o => writePubrec o
  | pubrel o => writePubrel o
  | pubcomp o => writePubcomp o
  | appendPubResp t id rc => .ok ((Program.Wire.appendPubResp t id rc).map some)
  | subscribe o => writeSubscribe o
  | suback o => writeSuback o
  | unsubscribe o => writeUnsubscribe o
  | unsuback o => writeUnsuback o
  | disconnect o => writeDisconnect o
  | auth o => writeAuth o
  | pingreq => .ok (writePingreq.map some)
  | pingresp => .ok (writePingresp.map some)

/-- The check the writer makes of its options. -/
def check : Writer → Except Err Unit
  | connect o => validateConnectOpts o
  | connack o => validateConnackOpts o
  | appendPublishHeader o => validatePublishOpts o
  | publish o => validatePublishOpts o
  | encodePublish o => validatePublishOpts o
  | marshalPublish o => validatePublishOpts o
  | puback o => validatePubRespOpts .PUBACK o
  | pubrec o => validatePubRespOpts .PUBREC o
  | pubrel o => validatePubRespOpts .PUBREL o
  | pubcomp o => validatePubRespOpts .PUBCOMP o
  | appendPubResp _ _ _ => .ok ()
  | subscribe o => validateSubscribeOpts o
  | suback o => validateAckList .SUBACK o
  | unsubscribe o => validateUnsubscribeOpts o
  | unsuback o => validateAckList .UNSUBACK o
  | disconnect o => validateDisconnectOpts o
  | auth o => validateAuthOpts o
  | pingreq => .ok ()
  | pingresp => .ok ()

/-- The packet the options describe. -/
def frame : Writer → Frame
  | connect o => connectFrame o
  | connack o => connackFrame o
  | appendPublishHeader o => publishFrame o
  | publish o => publishFrame o
  | encodePublish o => publishFrame o
  | marshalPublish o => publishFrame o
  | puback o => pubRespFrame .PUBACK 0x00 o
  | pubrec o => pubRespFrame .PUBREC 0x00 o
  | pubrel o => pubRespFrame .PUBREL 0x02 o
  | pubcomp o => pubRespFrame .PUBCOMP 0x00 o
  | appendPubResp t id rc =>
    ⟨t.toByte <<< 4 ||| (if t = .PUBREL then 0x02 else 0),
      [.raw (putUint16 id.toNat), .raw (if rc = ReasonCode.success then [] else [rc])]⟩
  | subscribe o => subscribeFrame o
  | suback o => ackListFrame .SUBACK o
  | unsubscribe o => unsubscribeFrame o
  | unsuback o => ackListFrame .UNSUBACK o
  | disconnect o => disconnectFrame o
  | auth o => authFrame o
  | pingreq => ⟨0xC0, []⟩
  | pingresp => ⟨0xD0, []⟩

/-- The length of the body, as the writer computes it. -/
def bodyLen (x : Writer) : ℕ := (writtenBody x.frame.items).length

/-- A writer whose options are refused emits nothing. -/
theorem emits_of_refused {e : Err} (h : x.check = .error e) :
    x.emits = .error (.error e) := by
  cases x <;> simp only [check] at h <;>
    simp [emits, writeConnect, writeConnack, Program.Wire.appendPublishHeader, writePublish,
      Program.Wire.encodePublish, Program.Wire.marshalPublish, encodeWhole, writePuback,
      writePubrec, writePubrel, writePubcomp, writePubResp, writeSubscribe, writeSuback,
      writeUnsubscribe, writeUnsuback, writeDisconnect, writeAuth, h, Except.map] <;> cases h

/-- A writer whose options are accepted sends the frame of the options. -/
theorem emits_of_accepted (h : x.check = .ok ()) : x.emits = send x.frame := by
  cases x with
  | connect o => exact writeConnect_eq h
  | connack o => exact writeConnack_eq h
  | appendPublishHeader o => exact appendPublishHeader_eq h
  | publish o => exact writePublish_eq h
  | encodePublish o => exact encodeWhole_eq h
  | marshalPublish o => exact encodeWhole_eq h
  | puback o | pubrec o | pubrel o | pubcomp o => exact writePubResp_eq h
  | appendPubResp t id rc =>
    by_cases hrc : rc = ReasonCode.success
    · simp [emits, frame, Program.Wire.appendPubResp, send, writtenBody, Item.written, hrc,
        putUint16, toUint32, encodeVarint, maxVarintValue, encodeVarintLoop]
    · simp [emits, frame, Program.Wire.appendPubResp, send, writtenBody, Item.written, hrc,
        putUint16, toUint32, encodeVarint, maxVarintValue, encodeVarintLoop]
  | subscribe o => exact writeSubscribe_eq h
  | suback o =>
    simp only [check] at h
    simp only [emits, writeSuback, h]
    exact writeSubAckLike_eq (validateAckList_ok.mp h).2.1
  | unsubscribe o => exact writeUnsubscribe_eq h
  | unsuback o =>
    simp only [check] at h
    simp only [emits, writeUnsuback, h]
    exact writeSubAckLike_eq (validateAckList_ok.mp h).2.1
  | disconnect o => exact writeDisconnect_eq h
  | auth o => exact writeAuth_eq h
  | pingreq => decide
  | pingresp => decide

theorem frame_textsSized (h : x.check = .ok ()) : TextsSized x.frame.items := by
  cases x with
  | connect o => exact connectFrame_sized h
  | connack o => exact connackFrame_sized h
  | appendPublishHeader o | publish o | encodePublish o | marshalPublish o =>
    exact publishFrame_sized h
  | puback o | pubrec o | pubrel o | pubcomp o => exact pubRespFrame_sized h
  | appendPubResp t id rc | pingreq | pingresp => simp [frame]
  | subscribe o => exact subscribeFrame_sized h
  | suback o | unsuback o => exact ackListFrame_sized h
  | unsubscribe o => exact unsubscribeFrame_sized h
  | disconnect o => exact disconnectFrame_sized h
  | auth o => exact authFrame_sized h

/-- The writer returns an error, or emits the packet of its options with every length equal to
the number of bytes that follow. -/
def Truthful (x : Writer) : Prop :=
  match x.emits with
  | .error (.error _) => True
  | .error .panic => False
  | .ok cells => cells = x.frame.bytes.map some ∧ x.frame.Sized

/-- The size check lets a packet of the writer through only if it is within the limit. -/
def SizeChecked (x : Writer) : Prop :=
  ∀ cells maximumPacketSize, x.emits = .ok cells →
    checkPacketSize maximumPacketSize cells.length = .ok () →
      maximumPacketSize = 0 ∨ cells.length ≤ maximumPacketSize

/-- The body is 4 GiB or more, and its length in 32 bits is a permitted one. -/
def Wraps (x : Writer) : Prop :=
  x.check = .ok () ∧ 2 ^ 32 ≤ x.bodyLen ∧ x.bodyLen % 2 ^ 32 ≤ maxVarintValue

/-- What is emitted is as long as its body at least. -/
theorem bodyLen_le {cells : Cells UInt8} (h : x.check = .ok ())
    (hx : x.emits = .ok cells) : x.bodyLen ≤ cells.length := by
  rw [emits_of_accepted h] at hx
  unfold send at hx
  split at hx
  · cases hx
  · cases hx
    simp only [bodyLen, length_map, length_append, length_cons]
    omega

theorem not_truthful_of_wraps (h : x.Wraps) : ¬x.Truthful := by
  obtain ⟨hc, hbig, hlow⟩ := h
  have hx : ∃ cells, x.emits = .ok cells := by
    have hle : toUint32 (writtenBody x.frame.items).length ≤ maxVarintValue := hlow
    rw [emits_of_accepted hc]
    exact ⟨_, send_of_mod rfl hle⟩
  obtain ⟨cells, hx⟩ := hx
  have hlen := bodyLen_le hc hx
  unfold Truthful
  rw [hx]
  rintro ⟨rfl, hsized⟩
  -- A packet whose lengths are right has less than 2³² bytes.
  have hvar := varint_length_le _ hsized.1
  have hbody := hsized.1
  simp only [Frame.bytes, length_map, length_cons, length_append] at hlen
  unfold maxVarintValue at hbody
  omega

theorem truthful_of_not_wraps (h : ¬x.Wraps) : x.Truthful ∧ x.SizeChecked := by
  cases hc : x.check with
  | error e =>
    have hx := emits_of_refused hc
    refine ⟨by simp [Truthful, hx], fun cells m hcells => ?_⟩
    rw [hx] at hcells
    cases hcells
  | ok u =>
    by_cases hle : x.bodyLen ≤ maxVarintValue
    · have hx : x.emits = .ok (x.frame.bytes.map some) := by
        rw [emits_of_accepted hc, send_of_le hle]
      have hsized := sized_of_texts hle (frame_textsSized hc)
      refine ⟨by simpa [Truthful, hx] using hsized, fun cells m hcells hcheck => ?_⟩
      rw [hx] at hcells
      cases hcells
      have hvar := varint_length_le _ hsized.1
      have hbody := hsized.1
      unfold maxVarintValue at hbody
      have hlen : (x.frame.bytes.map some).length < 2 ^ 32 := by
        simp only [Frame.bytes, length_map, length_cons, length_append]
        omega
      simp only [checkPacketSize, toUint32, Nat.mod_eq_of_lt hlen, ite_error_eq_ok] at hcheck
      omega
    · -- Too large for 28 bits, and not a permitted length in 32 either.
      have hgt : maxVarintValue < toUint32 (writtenBody x.frame.items).length := by
        by_contra hno
        refine h ⟨hc, ?_, not_lt.mp hno⟩
        by_contra hsmall
        have heq : toUint32 (writtenBody x.frame.items).length = x.bodyLen :=
          Nat.mod_eq_of_lt (not_le.mp hsmall)
        omega
      have hx : x.emits = .error (.error (.sentinel .varintTooLarge)) := by
        rw [emits_of_accepted hc]
        simp only [send, encodeVarint_of_gt hgt]
      refine ⟨by simp [Truthful, hx], fun cells m hcells => ?_⟩
      rw [hx] at hcells
      cases hcells

end Writer

/-- Every writer, on every options value: an error and nothing emitted, or every length right
and every size check sound, exactly unless the body wraps around. -/
theorem no_length_truncated_iff (x : Writer) : (x.Truthful ∧ x.SizeChecked) ↔ ¬x.Wraps :=
  ⟨fun h hw => Writer.not_truthful_of_wraps hw h.1, Writer.truthful_of_not_wraps⟩

/-- A QoS 0 PUBLISH on topic `t` with a payload of 4 GiB. -/
def fourGiB : PublishOpts where
  topic := [0x74]
  payload := List.replicate (2 ^ 32) 0
  qos := 0
  retain := false
  dup := false
  packetID := 0
  payloadFormatIndicator := none
  messageExpiryInterval := none
  contentType := []
  responseTopic := []
  correlationData := none
  topicAlias := 0
  userProperties := []

theorem four_then (body : Bytes) : (0x30 :: varint 4 ++ body : Bytes) = 0x30 :: 0x04 :: body := rfl

/-- Its body is sent under a Remaining Length of four bytes. -/
theorem fourGiB_truncated :
    (writtenBody (publishFrame fourGiB).items).length = 2 ^ 32 + 4 ∧
      (∃ body, writePublish fourGiB = .ok ((0x30 :: 0x04 :: body).map some) ∧
        body.length = 2 ^ 32 + 4) ∧
      ¬(Writer.publish fourGiB).Truthful := by
  have hlen : (writtenBody (publishFrame fourGiB).items).length = 2 ^ 32 + 4 := by
    have hpayload : fourGiB.payload.length = 2 ^ 32 := List.length_replicate
    have hvar : (publishLayoutOf fourGiB).varHdrSize = 4 := rfl
    have hsum : ∀ o, (publishLayoutOf o).remaining =
        (publishLayoutOf o).varHdrSize + o.payload.length := fun _ => rfl
    rw [← remaining_eq, hsum, hvar, hpayload]
    exact Nat.add_comm 4 (2 ^ 32)
  have hc : validatePublishOpts fourGiB = .ok () := by
    have hups : fourGiB.userProperties = [] := rfl
    have hindicator : fourGiB.payloadFormatIndicator = none := rfl
    have hdata : fourGiB.correlationData = none := rfl
    rw [validatePublishOpts_ok, hups, hindicator, hdata]
    exact ⟨by decide, by decide, by decide, by decide, ⟨⟨by decide, by decide⟩, by decide⟩,
      fun h => absurd rfl h, by simp, ⟨by decide, by decide⟩, by simp, by simp⟩
  have hfour : toUint32 (2 ^ 32 + 4) = 4 := by decide
  have hfirst : (publishFrame fourGiB).first = 0x30 := by decide
  refine ⟨hlen, ⟨writtenBody (publishFrame fourGiB).items, ?_, hlen⟩, ?_⟩
  · rw [writePublish_eq hc]
    have hsend := send_of_mod (f := publishFrame fourGiB) (v := 4) (by rw [hlen, hfour]) (by decide)
    rw [hsend, hfirst, four_then]
  · refine Writer.not_truthful_of_wraps ⟨hc, ?_, ?_⟩
    · exact (by decide : 2 ^ 32 ≤ 2 ^ 32 + 4).trans_eq hlen.symm
    · have : (Writer.publish fourGiB).bodyLen = 2 ^ 32 + 4 := hlen
      rw [this]
      decide

end Mqttv5.Guarantees.Wire
