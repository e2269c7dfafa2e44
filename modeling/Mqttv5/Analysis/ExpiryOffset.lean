import Mqttv5.Analysis.Wire.Varint
import Mqttv5.Program.Connection
import Mqttv5.Program.Wire.Publish

/-!
# The Message Expiry Interval of an encoded PUBLISH

Rewriting the interval of a packet, and sending the packet with a lower QoS, leave the interval
where it is: the walk to it reads nothing behind it, and of the first byte only whether the
packet has an identifier. So a packet that carries an interval carries the one written last, and
it is the interval that the decoder of PUBLISH finds there (`messageExpiry_eq_interval`).
-/

set_option autoImplicit false

namespace Mqttv5.Analysis

open Model Program List

variable {off : ℕ}

/-- The interval at the place in an encoded PUBLISH that the session rewrites, in seconds. -/
def messageExpiry (frame : Bytes) : Option ℕ :=
  (messageExpiryOffset frame).map fun off => Wire.uint32 (frame.drop off)

/-- The PUBLISH that its decoder reads from an encoded packet: the first byte, the Remaining Length
and, in the bytes after it, the body. -/
def decoded : Bytes → Option Model.Wire.Publish
  | [] => none
  | b :: rest =>
    if b >>> 4 ≠ 3 then none
    else match decodeVarint rest with
      | none => none
      | some (_, n) => (Wire.decodePublish (rest.drop n) (b &&& 0x0F)).toOption

/-- The Message Expiry Interval of the PUBLISH that the decoder reads, in seconds. -/
def interval (frame : Bytes) : Option ℕ :=
  (decoded frame).bind fun x =>
    (Wire.Properties.uint32 x.properties propMessageExpiryInterval).map UInt32.toNat

/-- The frame has the packet identifier of a QoS 1 or 2 PUBLISH. -/
def hasPacketID (frame : Bytes) : Bool := (0 : UInt8) < (frame.getD 0 0 >>> 1) &&& 0x03

/-! ### Frames that agree up to a byte -/

/-- Two frames of one length with the same first `k` bytes. -/
structure Agree (k : ℕ) (f g : Bytes) : Prop where
  length : g.length = f.length
  bytes : ∀ i < k, g.getD i 0 = f.getD i 0

namespace Agree

variable {k : ℕ} {f g : Bytes}

theorem mono {j : ℕ} (h : Agree k f g) (hj : j ≤ k) : Agree j f g :=
  ⟨h.length, fun i hi => h.bytes i (hi.trans_le hj)⟩

theorem drop (h : Agree k f g) (n : ℕ) : Agree (k - n) (f.drop n) (g.drop n) := by
  refine ⟨by simp [h.length], fun i hi => ?_⟩
  have := h.bytes (n + i) (by omega)
  simpa [getD_eq_getElem?_getD, List.getElem?_drop] using this

theorem take (h : Agree k f g) (n : ℕ) : Agree k (f.take n) (g.take n) := by
  refine ⟨by simp [h.length], fun i hi => ?_⟩
  have := h.bytes i hi
  by_cases hin : i < n
  · simpa [getD_eq_getElem?_getD, List.getElem?_take, hin] using this
  · simp [getD_eq_getElem?_getD, hin]

theorem tail {a b : UInt8} (h : Agree (k + 1) (a :: f) (b :: g)) : b = a ∧ Agree k f g := by
  refine ⟨by simpa using h.bytes 0 (Nat.succ_pos k), by simpa using h.length, fun i hi => ?_⟩
  simpa using h.bytes (i + 1) (by omega)

theorem uint16_eq (h : Agree 2 f g) : uint16 g = uint16 f := by
  match f, g, h with
  | [], [], _ => rfl
  | [], _ :: _, h => cases h.length
  | _ :: _, [], h => cases h.length
  | [_], [_], _ => rfl
  | [_], _ :: _ :: _, h => cases h.length
  | _ :: _ :: _, [_], h => cases h.length
  | a :: b :: f, c :: d :: g, h =>
    obtain ⟨hca, h⟩ := h.tail
    obtain ⟨hdb, -⟩ := h.tail
    rw [hca, hdb]
    rfl

theorem take_eq (h : Agree k f g) : g.take k = f.take k := by
  apply ext_getElem (by simp [h.length])
  intro i hg hf
  rw [length_take] at hg hf
  have := h.bytes i (by omega)
  simpa [getD_eq_getElem?_getD, show i < g.length by omega, show i < f.length by omega]
    using this

theorem decodeVarint_eq {v m : ℕ} (hf : decodeVarint f = some (v, m)) (hm : m ≤ k)
    (h : Agree k f g) : decodeVarint g = some (v, m) ∧ 0 < m := by
  have := Wire.decodeVarint_take hf (g.drop m)
  rw [← (h.mono hm).take_eq, take_append_drop] at this
  exact ⟨this, (Wire.decodeVarint_length hf).1⟩

theorem propValueSize_eq {id : UInt8} {size : ℕ} (hf : propValueSize id f = some size)
    (hsize : size ≤ k) (h : Agree k f g) : propValueSize id g = some size := by
  unfold propValueSize at hf ⊢
  split at hf
  · exact hf
  · obtain ⟨⟨v, m⟩, hv, rfl⟩ := Option.map_eq_some_iff.mp hf
    rw [(decodeVarint_eq hv hsize h).1]
    rfl
  · obtain ⟨hlen, ⟨⟩⟩ := Option.ite_none_left_eq_some.mp hf
    rw [if_neg (by rw [h.length]; exact hlen), (h.mono (by omega)).uint16_eq]
  · split at hf
    · cases hf
    · rename_i hlen
      obtain ⟨hlen', ⟨⟩⟩ := Option.ite_none_left_eq_some.mp hf
      have hfirst : uint16 g = uint16 f := (h.mono (by omega)).uint16_eq
      have hsecond : uint16 (g.drop (2 + uint16 f)) = uint16 (f.drop (2 + uint16 f)) :=
        ((h.drop (2 + uint16 f)).mono (by omega)).uint16_eq
      rw [if_neg (by rw [h.length]; exact hlen), hfirst,
        if_neg (by rw [h.length]; exact hlen'), hsecond]
  · cases hf

/-- The property walk reads what is in front of the interval. -/
theorem expiryOffsetLoop_eq (end_ fuel : ℕ) : ∀ {o off : ℕ},
    expiryOffsetLoop f end_ fuel o = some off → Agree off f g →
    expiryOffsetLoop g end_ fuel o = some off ∧ o < off ∧ off + 4 ≤ end_ := by
  induction fuel with
  | zero =>
    intro o off hf
    simp [expiryOffsetLoop] at hf
  | succ fuel ih =>
    intro o off hf h
    unfold expiryOffsetLoop at hf ⊢
    split at hf
    · rename_i hin
      simp only at hf ⊢
      rw [if_pos hin]
      split at hf
      · rename_i hid
        obtain ⟨hroom, ⟨⟩⟩ := Option.ite_none_left_eq_some.mp hf
        rw [h.bytes o (Nat.lt_succ_self o), if_pos hid, if_neg hroom]
        exact ⟨rfl, Nat.lt_succ_self o, by omega⟩
      · rename_i hid
        split at hf
        · cases hf
        · rename_i size hsize
          obtain ⟨hg, hlt, hroom⟩ := ih hf h
          rw [h.bytes o (by omega), if_neg hid]
          have hbuf : Agree (off - (o + 1)) ((f.take end_).drop (o + 1))
            ((g.take end_).drop (o + 1)) :=
            (h.take end_).drop (o + 1)
          rw [propValueSize_eq hsize (by omega) hbuf]
          exact ⟨hg, by omega, hroom⟩
    · cases hf

/-- INTERNAL: **The walk to the interval reads what is in front of it.** -/
theorem messageExpiryOffset_eq (hf : messageExpiryOffset f = some off) (h : Agree off f g) :
    messageExpiryOffset g = some off ∧ 1 ≤ off ∧ off + 4 ≤ f.length := by
  unfold messageExpiryOffset at hf ⊢
  split at hf
  · cases hf
  · rename_i hhead
    simp only at hf ⊢
    split at hf
    · cases hf
    · rename_i v n hv
      generalize hq : (if (0 : UInt8) < (f.getD 0 0 >>> 1) &&& 0x03 then 2 else 0) = q at hf
      split at hf
      · cases hf
      · rename_i htopic
        split at hf
        · cases hf
        · rename_i hid
          split at hf
          · cases hf
          · rename_i propsLen m hm
            split at hf
            · cases hf
            · rename_i hend
              obtain ⟨hloop, hlt, hroom⟩ := expiryOffsetLoop_eq _ _ hf h
              have hfirst : g.getD 0 0 = f.getD 0 0 := h.bytes 0 (by omega)
              have htop : uint16 (g.drop (1 + n)) = uint16 (f.drop (1 + n)) :=
                ((h.drop (1 + n)).mono (by omega)).uint16_eq
              rw [h.length, hfirst, if_neg hhead,
                (decodeVarint_eq hv (by omega) (h.drop 1)).1]
              simp only
              rw [if_neg htopic, htop, hq, if_neg hid,
                (decodeVarint_eq hm (by omega) (h.drop _)).1]
              simp only
              rw [if_neg hend]
              exact ⟨hloop, by omega, by omega⟩

end Agree

/-! ### Rewriting the interval -/

theorem messageExpiryOffset_bounds {f : Bytes} (h : messageExpiryOffset f = some off) :
    1 ≤ off ∧ off + 4 ≤ f.length :=
  (Agree.messageExpiryOffset_eq h ⟨rfl, fun _ _ => rfl⟩).2

/-- A rewritten frame agrees with the frame up to its interval. -/
theorem agree_withMessageExpiry {f : Bytes} (h : messageExpiryOffset f = some off)
    (v : ℕ) : Agree off f (withMessageExpiry f v) := by
  obtain ⟨-, hroom⟩ := messageExpiryOffset_bounds h
  unfold withMessageExpiry
  rw [h]
  refine ⟨?_, fun i hi => ?_⟩
  · simp only [length_append, length_take, Wire.putUint32_length, length_drop]
    omega
  · simp only [getD_eq_getElem?_getD, append_assoc]
    rw [List.getElem?_append_left (by simp only [length_take]; omega),
      List.getElem?_take_of_lt hi]

theorem uint32_putUint32 (v : ℕ) (rest : Bytes) :
    Wire.uint32 (putUint32 v ++ rest) = v % 2 ^ 32 := by
  simp only [putUint32, cons_append, nil_append, Wire.uint32, UInt8.toNat_ofNat']
  omega

/-- INTERNAL: **A packet that carries an interval carries the one written last.** -/
theorem messageExpiry_withMessageExpiry (f : Bytes) (v : ℕ) :
    messageExpiry (withMessageExpiry f v) = (messageExpiryOffset f).map fun _ => v % 2 ^ 32 := by
  cases h : messageExpiryOffset f with
  | none =>
    unfold messageExpiry withMessageExpiry
    simp only [h, Option.map_none]
  | some off =>
    obtain ⟨-, hroom⟩ := messageExpiryOffset_bounds h
    have hoff := (Agree.messageExpiryOffset_eq h (agree_withMessageExpiry h v)).1
    unfold messageExpiry
    rw [hoff]
    unfold withMessageExpiry
    simp only [h, Option.map_some, append_assoc]
    rw [drop_left' (by simp only [length_take]; omega), uint32_putUint32]

theorem hasPacketID_withMessageExpiry (f : Bytes) (v : ℕ) :
    hasPacketID (withMessageExpiry f v) = hasPacketID f := by
  cases h : messageExpiryOffset f with
  | none =>
    unfold withMessageExpiry
    rw [h]
  | some off =>
    obtain ⟨hpos, -⟩ := messageExpiryOffset_bounds h
    unfold hasPacketID
    rw [(agree_withMessageExpiry h v).bytes 0 (by omega)]

/-! ### Lowering the QoS -/

/-- The first byte of a packet sent as QoS 1. -/
def lowered (b : UInt8) : UInt8 := (b &&& 0xF9) ||| 0x02

theorem lowered_type (b : UInt8) : lowered b >>> 4 = b >>> 4 := by
  have hall : ∀ i : Fin 256, lowered (.ofNat i) >>> 4 = UInt8.ofNat i >>> 4 := by decide +kernel
  have hb := hall ⟨b.toNat, b.toNat_lt⟩
  rwa [UInt8.ofNat_toNat] at hb

theorem lowered_qos (b : UInt8) : (0 : UInt8) < (lowered b >>> 1) &&& 0x03 := by
  have hall : ∀ i : Fin 256, (0 : UInt8) < (lowered (.ofNat i) >>> 1) &&& 0x03 := by
    decide +kernel
  have hb := hall ⟨b.toNat, b.toNat_lt⟩
  rwa [UInt8.ofNat_toNat] at hb

/-- The property walk starts behind the first byte. -/
theorem expiryOffsetLoop_head (b c : UInt8) (rest : Bytes) (end_ fuel : ℕ) : ∀ o, 1 ≤ o →
    expiryOffsetLoop (b :: rest) end_ fuel o = expiryOffsetLoop (c :: rest) end_ fuel o := by
  induction fuel with
  | zero => exact fun _ _ => rfl
  | succ fuel ih =>
    intro o ho
    obtain ⟨i, rfl⟩ : ∃ i, o = i + 1 := ⟨o - 1, by omega⟩
    have hbuf : ∀ d : UInt8, ((d :: rest).take end_).drop (i + 1 + 1) =
        (rest.drop (i + 1)).take (end_ - (i + 1 + 1)) := by
      intro d
      rw [drop_take]
      rfl
    unfold expiryOffsetLoop
    simp only [getD_cons_succ, hbuf]
    split
    · split
      · rfl
      · split
        · rfl
        · exact ih _ (by omega)
    · rfl

/-- The first byte says the packet type and whether there is an identifier. -/
theorem messageExpiryOffset_head {b c : UInt8} (rest : Bytes) (htype : c >>> 4 = b >>> 4)
    (hb : (0 : UInt8) < (b >>> 1) &&& 0x03) (hc : (0 : UInt8) < (c >>> 1) &&& 0x03) :
    messageExpiryOffset (c :: rest) = messageExpiryOffset (b :: rest) := by
  have hdrop : ∀ (d : UInt8) (n : ℕ), (d :: rest).drop (1 + n) = rest.drop n := by
    intro d n
    rw [Nat.add_comm]
    rfl
  unfold messageExpiryOffset
  simp only [length_cons, getD_cons_zero, drop_succ_cons, drop_zero, htype, hb,
    hc, if_true]
  split
  · rfl
  · split
    · rfl
    · rename_i v n hv
      have hassoc : 1 + n + 2 + uint16 (rest.drop n) + 2 =
          1 + (n + 2 + uint16 (rest.drop n) + 2) := by omega
      simp only [hdrop, hassoc]
      split
      · rfl
      · split
        · rfl
        · split
          · rfl
          · split
            · rfl
            · exact expiryOffsetLoop_head c b rest _ _ _ (by omega)

/-- A packet sent with a lower QoS says the same. -/
theorem messageExpiry_downgraded (o : Out) (h : hasPacketID o.packet = true) :
    messageExpiry (downgraded o).packet = messageExpiry o.packet ∧
      hasPacketID (downgraded o).packet = true := by
  cases hp : o.packet with
  | nil =>
    rw [hp] at h
    cases h
  | cons b rest =>
    have hb : (0 : UInt8) < (b >>> 1) &&& 0x03 := by
      rw [hp] at h
      exact of_decide_eq_true h
    have hpacket : (downgraded o).packet = lowered b :: rest := by
      unfold downgraded
      rw [hp]
      rfl
    have hoff := messageExpiryOffset_head rest (lowered_type b) hb (lowered_qos b)
    rw [hpacket]
    refine ⟨?_, decide_eq_true (lowered_qos b)⟩
    unfold messageExpiry
    rw [hoff]
    cases hsome : messageExpiryOffset (b :: rest) with
    | none => rfl
    | some off =>
      obtain ⟨hpos, -⟩ := messageExpiryOffset_bounds hsome
      obtain ⟨i, rfl⟩ : ∃ i, off = i + 1 := ⟨off - 1, by omega⟩
      rfl

/-! ### What the decoder finds -/

/-- INTERNAL: The property section from `off` on, which is not at its end: an identifier, and the
section behind it. -/
theorem section_cons {frame : Bytes} {end_ off : ℕ} (hlt : off < end_)
    (hend : end_ ≤ frame.length) :
    (frame.take end_).drop off = frame.getD off 0 :: (frame.take end_).drop (off + 1) := by
  have hlen : off < (frame.take end_).length := by rw [length_take]; omega
  have hin : off < frame.length := by omega
  rw [drop_eq_getElem_cons hlen, getElem_take, getD_eq_getElem?_getD, getElem?_eq_getElem hin]
  rfl

/-- INTERNAL: Four bytes are the same number with anything behind them. -/
theorem uint32_take {l : Bytes} {k : ℕ} (hk : 4 ≤ k) : Wire.uint32 (l.take k) = Wire.uint32 l := by
  obtain ⟨k, rfl⟩ : ∃ i, k = i + 4 := ⟨k - 4, by omega⟩
  rcases l with _ | ⟨a, _ | ⟨b, _ | ⟨c, _ | ⟨d, l⟩⟩⟩⟩ <;> rfl

/-- INTERNAL: **The walk to the interval is the decoder's search for it**, from any place of the
property section on. -/
theorem expiryOffsetLoop_find {frame : Bytes} {end_ : ℕ} (hend : end_ ≤ frame.length) (fuel : ℕ) :
    ∀ {off fuel' : ℕ}, end_ - off ≤ fuel → end_ - off ≤ fuel' →
      (expiryOffsetLoop frame end_ fuel off).map (fun o => Wire.uint32 (frame.drop o)) =
        (Wire.findLoop propMessageExpiryInterval fuel' ((frame.take end_).drop off)).bind
          fun v => if v.length < 4 then none else some (Wire.uint32 v) := by
  induction fuel with
  | zero =>
    intro off fuel' hfuel _
    have hnil : (frame.take end_).drop off = [] := drop_eq_nil_of_le (by rw [length_take]; omega)
    rw [hnil]
    cases fuel' <;> rfl
  | succ fuel ih =>
    intro off fuel' hfuel hfuel'
    unfold expiryOffsetLoop
    by_cases hlt : off < end_
    · obtain ⟨left, rfl⟩ : ∃ i, fuel' = i + 1 := ⟨fuel' - 1, by omega⟩
      rw [if_pos hlt, section_cons hlt hend, Wire.findLoop]
      by_cases hid : frame.getD off 0 = propMessageExpiryInterval
      · -- The search ends at the identifier; both want four bytes before the end of the section.
        have hlen : ((frame.take end_).drop (off + 1)).length = end_ - (off + 1) := by
          rw [length_drop, length_take]
          omega
        simp only [if_pos hid, Option.bind_some, hlen]
        split
        · rfl
        · rename_i hroom
          rw [Option.map_some, drop_take, uint32_take (by omega)]
      · simp only [if_neg hid]
        cases propValueSize (frame.getD off 0) ((frame.take end_).drop (off + 1)) with
        | none => rfl
        | some size =>
          simp only [drop_drop]
          exact ih (by omega) (by omega)
    · have hnil : (frame.take end_).drop off = [] :=
        drop_eq_nil_of_le (by rw [length_take]; omega)
      rw [if_neg hlt, hnil]
      cases fuel' <;> rfl

/-- INTERNAL: The QoS bits that the decoder and the session read. -/
theorem qos_bits (b : UInt8) :
    ((b &&& (0x0F : UInt8)) >>> (1 : UInt8)) &&& (0x03 : UInt8) = (b >>> 1) &&& 0x03 := by
  have hall : ∀ i : Fin 256, ((UInt8.ofNat i &&& (0x0F : UInt8)) >>> (1 : UInt8)) &&& (0x03 : UInt8)
      = (UInt8.ofNat i >>> 1) &&& 0x03 := by decide +kernel
  have hb := hall ⟨b.toNat, b.toNat_lt⟩
  rwa [UInt8.ofNat_toNat] at hb

/-- INTERNAL: A number of four bytes is read back from a `uint32`. -/
theorem toNat_uint32 (v : Bytes) : (UInt32.ofNat (Wire.uint32 v)).toNat = Wire.uint32 v := by
  rw [UInt32.toNat_ofNat']
  refine Nat.mod_eq_of_lt ?_
  rcases v with _ | ⟨a, _ | ⟨b, _ | ⟨c, _ | ⟨d, l⟩⟩⟩⟩
  · exact Nat.two_pow_pos 32
  · exact Nat.two_pow_pos 32
  · exact Nat.two_pow_pos 32
  · exact Nat.two_pow_pos 32
  · have ha := a.toNat_lt
    have hb := b.toNat_lt
    have hc := c.toNat_lt
    have hd := d.toNat_lt
    simp only [Wire.uint32]
    omega

/-- INTERNAL: A property section that is not cut off is all there. -/
theorem section_fits {buf : Bytes} {len n : ℕ} (hv : decodeVarint buf = some (len, n))
    (hroom : ¬ Wire.toUint32 (buf.drop n).length < len) : n + len ≤ buf.length := by
  have hn := (Wire.decodeVarint_length hv).2.1
  have hle : Wire.toUint32 (buf.drop n).length ≤ (buf.drop n).length := Nat.mod_le _ _
  rw [length_drop] at hroom hle
  omega

/-- INTERNAL: What a body was that `decodePublish` accepts: the topic, the packet identifier of a
QoS 1 or 2 PUBLISH, and the property section, which is all there. -/
theorem decodePublish_ok {buf : Bytes} {flags : UInt8} {x : Model.Wire.Publish}
    (h : Wire.decodePublish buf flags = .ok x) : x.qos = (flags >>> 1) &&& 0x03 ∧
      ∃ off len n, (off = 2 + uint16 buf + if 0 < x.qos then 2 else 0) ∧ off ≤ buf.length ∧
        decodeVarint (buf.drop off) = some (len, n) ∧ off + n + len ≤ buf.length ∧
        x.properties.raw = (buf.drop (off + n)).take len := by
  simp only [Wire.decodePublish, bind, Except.bind] at h
  split at h
  · cases h
  split at h
  · cases h
  split at h
  · cases h
  rename_i hlen
  split at h
  · cases h
  rename_i htopic
  rw [length_drop] at htopic
  split at h
  · -- with a packet identifier
    rename_i hqos
    split at h
    · cases h
    rename_i hid
    simp only [length_drop] at hid
    split at h
    · cases h
    rename_i len n hv
    split at h
    · cases h
    rename_i hroom
    have hfits := section_fits hv hroom
    simp only [drop_drop, length_drop] at h hv hfits
    cases h
    refine ⟨rfl, 2 + uint16 buf + 2, len, n, by rw [if_pos hqos], by omega, hv, by omega, ?_⟩
    rfl
  · rename_i hqos
    split at h
    · cases h
    rename_i len n hv
    split at h
    · cases h
    rename_i hroom
    have hfits := section_fits hv hroom
    simp only [drop_drop, length_drop] at h hv hfits
    cases h
    refine ⟨rfl, 2 + uint16 buf, len, n, by rw [if_neg hqos]; rfl, by omega, hv, by omega, ?_⟩
    rfl

/-- INTERNAL: What a packet was that the decoder of PUBLISH accepts. -/
theorem decoded_ok {frame : Bytes} {x : Model.Wire.Publish} (h : decoded frame = some x) :
    ∃ b rest size n, frame = b :: rest ∧ b >>> 4 = 3 ∧ decodeVarint rest = some (size, n) ∧
      Wire.decodePublish (rest.drop n) (b &&& 0x0F) = .ok x := by
  cases frame with
  | nil => cases h
  | cons b rest =>
    simp only [decoded] at h
    split at h
    · cases h
    rename_i htype
    split at h
    · cases h
    rename_i size n hsize
    cases hbody : Wire.decodePublish (rest.drop n) (b &&& 0x0F) with
    | error err =>
      rw [hbody] at h
      cases h
    | ok y =>
      rw [hbody] at h
      cases h
      exact ⟨b, rest, size, n, rfl, not_not.mp htype, hsize, hbody⟩

/-- INTERNAL: A PUBLISH of QoS 1 or 2 has a packet identifier. -/
theorem hasPacketID_of_decoded {frame : Bytes} {x : Model.Wire.Publish}
    (h : decoded frame = some x) (hqos : 0 < x.qos) : hasPacketID frame = true := by
  obtain ⟨b, rest, size, n, rfl, -, -, hbody⟩ := decoded_ok h
  rw [(decodePublish_ok hbody).1, qos_bits] at hqos
  exact decide_eq_true hqos

/-- INTERNAL: **The interval that the session rewrites is the one the decoder finds**, in every
packet that the decoder of PUBLISH accepts. -/
theorem messageExpiry_eq_interval {frame : Bytes} {x : Model.Wire.Publish}
    (h : decoded frame = some x) : messageExpiry frame = interval frame := by
  obtain ⟨b, rest, size, k, rfl, htype, hsize, hbody⟩ := decoded_ok h
  obtain ⟨hqos, off, len, n, hoff, hle, hlen, hroom, hraw⟩ := decodePublish_ok hbody
  rw [qos_bits] at hqos
  have hk := Wire.decodeVarint_length hsize
  rw [length_drop] at hle hroom
  have hdrop : ∀ i, (b :: rest).drop (1 + i) = rest.drop i := by
    intro i
    rw [Nat.add_comm, drop_succ_cons]
  -- The walk of the session comes to the same property section.
  have hoffset : messageExpiryOffset (b :: rest) =
      expiryOffsetLoop (b :: rest) (1 + k + off + n + len) (b :: rest).length
        (1 + k + off + n) := by
    unfold messageExpiryOffset
    have hpublish : ¬ ((b :: rest).length < 2 ∨ (b :: rest).getD 0 0 >>> 4 ≠ 3) := by
      rintro (hlt | hne)
      · rw [length_cons] at hlt
        omega
      · exact hne htype
    rw [if_neg hpublish]
    simp only [getD_cons_zero, drop_one, tail_cons, hsize]
    rw [if_neg (by simp only [length_cons]; omega)]
    have hplace : 1 + k + 2 + uint16 ((b :: rest).drop (1 + k)) +
        (if (0 : UInt8) < (b >>> 1) &&& 0x03 then 2 else 0) = 1 + k + off := by
      rw [hdrop, hoff, hqos]
      simp only [Nat.add_assoc]
    rw [hplace, if_neg (by simp only [length_cons]; omega), Nat.add_assoc 1 k off, hdrop,
      ← drop_drop, hlen]
    simp only
    rw [if_neg (by simp only [length_cons]; omega)]
  have hsection : ((b :: rest).take (1 + k + off + n + len)).drop (1 + k + off + n) =
      x.properties.raw := by
    rw [hraw, drop_drop, drop_take, show 1 + k + off + n = 1 + (k + (off + n)) by omega, hdrop]
    congr 1
    omega
  have hend : 1 + k + off + n + len ≤ (b :: rest).length := by simp only [length_cons]; omega
  have hfuel : 1 + k + off + n + len - (1 + k + off + n) ≤ x.properties.raw.length := by
    rw [hraw, length_take, length_drop, length_drop]
    omega
  rw [messageExpiry, hoffset, expiryOffsetLoop_find hend _
    (by simp only [length_cons]; omega) hfuel,
    hsection, interval, h, Option.bind_some]
  unfold Wire.Properties.uint32 Wire.Properties.find
  cases Wire.findLoop propMessageExpiryInterval x.properties.raw.length x.properties.raw with
  | none => rfl
  | some v =>
    simp only [Option.bind_some]
    split
    · rfl
    · rw [Option.map_some, toNat_uint32]

/-! ### The time left -/

/-- INTERNAL: Within an `int64` of nanoseconds the time left is what it is meant to be: the
seconds to `t`, rounded up, as a `uint32`. -/
theorem secondsUntil_eq {t now : ℤ} (h : now < t) (hfar : t - now + 999999999 ≤ maxDuration) :
    secondsUntil t now = ((t - now + 999999999) / 1000000000 % 2 ^ 32).toNat := by
  unfold maxDuration at hfar
  have hsub : timeSub t now = t - now := by
    have habove : ¬ maxDuration < t - now := by unfold maxDuration; omega
    have hbelow : ¬ t - now < -maxDuration - 1 := by unfold maxDuration; omega
    rw [timeSub, if_neg habove, if_neg hbelow]
  unfold secondsUntil
  rw [hsub, show t - now + 1000000000 - 1 = t - now + 999999999 by omega,
    Int.bmod_eq_of_le (by norm_num; omega) (by norm_num; omega),
    Int.tdiv_eq_ediv_of_nonneg (by omega)]

/-- INTERNAL: A number of seconds that ends less than a second after `t`, which is within a
`uint32` of seconds, is no more than the seconds left. -/
theorem le_secondsUntil {t now : ℤ} {s : ℕ} (h : now < t)
    (hs : now + s * 1000000000 < t + 1000000000)
      (hfar : t < now + 2 ^ 32 * 1000000000 - 1000000000) :
    s ≤ secondsUntil t now := by
  rw [secondsUntil_eq h (by unfold maxDuration; omega)]
  omega

end Mqttv5.Analysis
