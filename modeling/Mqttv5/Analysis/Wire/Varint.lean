import Mqttv5.Interface.Frame

/-!
# Lengths: variable byte integers and 2-byte prefixes

What `EncodeVarint` writes, `VarintSize` counts and `DecodeVarint` reads back, with anything
after it; and the same for the fixed-size integers.
-/

set_option autoImplicit false

namespace Mqttv5.Analysis.Wire

open Interface.Wire

variable {v : ℕ}
open Model (Bytes)
open Model.Wire
open Program (decodeVarint decodeVarintLoop uint16 putUint32 maxVarintBytes)
open Program.Wire List

/-- The group and the continuation bit of a byte. -/
theorem byte_bits (b : UInt8) :
    (b &&& 0x7F).toNat = b.toNat % 128 ∧ (b &&& 0x80 = 0 ↔ b.toNat < 128) := by
  have h : ∀ x : Fin 256, UInt8.ofNat x.val &&& 0x80 = 0 ↔ x.val < 128 := by decide +kernel
  refine ⟨?_, by simpa using h ⟨b.toNat, b.toNat_lt⟩⟩
  rw [UInt8.toNat_and]
  exact Nat.and_two_pow_sub_one_eq_mod b.toNat 7

/-- A group of seven bits with and without the continuation bit. -/
theorem group_bits : ∀ x : Fin 128, (UInt8.ofNat x.val ||| 0x80).toNat = x.val + 128 ∧
    (UInt8.ofNat x.val).toNat = x.val := by
  decide

section Groups

variable {e bs : Bytes} {v k : ℕ}

theorem groups_length_pos (h : Groups e v) : 0 < e.length := by
  cases h <;> simp

theorem groups_lt (h : Groups e v) : v < 128 ^ e.length := by
  induction h with
  | last b hb => simpa using hb
  | more b _ _ ih =>
    rw [length_cons, Nat.pow_succ]
    omega

/-- The loop of `DecodeVarint` stops after the groups of a number, and only there. -/
theorem decodeVarintLoop_iff (left : ℕ) : ∀ {n value multiplier v k : ℕ} {bs : Bytes},
    decodeVarintLoop left n value multiplier bs = some (v, k) ↔
      ∃ e t w, bs = e ++ t ∧ Groups e w ∧ e.length ≤ left ∧ v = value + w * multiplier ∧
        k = n + e.length := by
  induction left with
  | zero =>
    intro n value multiplier v k bs
    refine ⟨fun h => by simp [decodeVarintLoop] at h, ?_⟩
    rintro ⟨e, t, w, -, hg, hl, -⟩
    exact absurd (groups_length_pos hg) (by omega)
  | succ left ih =>
    intro n value multiplier v k bs
    cases bs with
    | nil =>
      refine ⟨fun h => by simp [decodeVarintLoop] at h, ?_⟩
      rintro ⟨e, t, w, he, hg, -⟩
      have := groups_length_pos hg
      rw [(append_eq_nil_iff.mp he.symm).1] at this
      exact absurd this (by decide)
    | cons b bs =>
      obtain ⟨hgroup, hbit⟩ := byte_bits b
      simp only [decodeVarintLoop, hgroup, hbit]
      by_cases hlast : b.toNat < 128
      · rw [if_pos hlast, Nat.mod_eq_of_lt hlast, Option.some.injEq, Prod.mk.injEq]
        constructor
        · rintro ⟨rfl, rfl⟩
          exact ⟨[b], bs, b.toNat, rfl, .last b hlast, by simp, rfl, rfl⟩
        · rintro ⟨e, t, w, he, hg, -, rfl, rfl⟩
          cases hg with
          | last c hc =>
            obtain ⟨rfl, -⟩ := List.cons.inj he
            exact ⟨rfl, rfl⟩
          | more c hc _ =>
            obtain ⟨rfl, -⟩ := List.cons.inj he
            omega
      · rw [if_neg hlast, ih]
        constructor
        · rintro ⟨e, t, w, rfl, hg, hl, rfl, rfl⟩
          refine ⟨b :: e, t, _, rfl, .more b (by omega) hg, by rw [length_cons]; omega, ?_,
            by rw [length_cons]; omega⟩
          ring
        · rintro ⟨e, t, w, he, hg, hl, rfl, rfl⟩
          cases hg with
          | last c hc =>
            obtain ⟨rfl, -⟩ := List.cons.inj he
            omega
          | @more c e w _ hg =>
            obtain ⟨rfl, rfl⟩ := List.cons.inj he
            rw [length_cons] at hl ⊢
            exact ⟨e, t, w, rfl, hg, by omega, by ring, by omega⟩

theorem decodeVarint_iff : decodeVarint bs = some (v, k) ↔
    ∃ e t, bs = e ++ t ∧ Groups e v ∧ e.length ≤ maxVarintBytes ∧ k = e.length := by
  simp [decodeVarint, decodeVarintLoop_iff]

section

variable (h : decodeVarint bs = some (v, k))
include h

/-- A decoded integer takes one to four bytes of what it is decoded from. -/
theorem decodeVarint_length :
    0 < k ∧ k ≤ bs.length ∧ k ≤ maxVarintBytes := by
  obtain ⟨e, t, rfl, hg, hl, rfl⟩ := decodeVarint_iff.mp h
  exact ⟨groups_length_pos hg, by simp, hl⟩

/-- An integer that takes `k` bytes has at most `k` groups of seven bits. -/
theorem decodeVarint_value : v < 128 ^ k := by
  obtain ⟨e, t, rfl, hg, hl, rfl⟩ := decodeVarint_iff.mp h
  exact groups_lt hg

/-- A variable byte integer is read from its own bytes. -/
theorem decodeVarint_take (rest : Bytes) :
    decodeVarint (bs.take k ++ rest) = some (v, k) := by
  obtain ⟨e, t, rfl, hg, hl, rfl⟩ := decodeVarint_iff.mp h
  rw [take_left]
  exact decodeVarint_iff.mpr ⟨e, rest, rfl, hg, hl, rfl⟩

end

/-- The loop of `EncodeVarint` writes the groups of a number that fits. -/
theorem encodeVarintLoop_groups (left : ℕ) : ∀ v < 128 ^ left, 0 < left →
    Groups (encodeVarintLoop left v) v := by
  induction left with
  | zero => intro v _ h; omega
  | succ left ih =>
    intro v hv _
    have hlow : v &&& 0x7F = v % 128 := Nat.and_two_pow_sub_one_eq_mod v 7
    have hhigh : v >>> 7 = v / 128 := Nat.shiftRight_eq_div_pow v 7
    obtain ⟨h1, h2⟩ := group_bits ⟨v % 128, Nat.mod_lt v (by decide)⟩
    simp only at h1 h2
    simp only [encodeVarintLoop, hlow, hhigh]
    split_ifs with hmore
    · have hv' : v / 128 < 128 ^ left := by
        rw [Nat.div_lt_iff_lt_mul (by decide)]
        rwa [Nat.pow_succ] at hv
      have hleft : 0 < left := by
        rcases Nat.eq_zero_or_pos left with rfl | h
        · omega
        · exact h
      have := Groups.more (UInt8.ofNat (v % 128) ||| 0x80) (by omega) (ih (v / 128) hv' hleft)
      rwa [h1, show (v % 128 + 128) % 128 + 128 * (v / 128) = v by omega] at this
    · have := Groups.last (UInt8.ofNat (v % 128)) (by omega)
      have hv' : v % 128 = v := Nat.mod_eq_of_lt (by omega)
      rw [hv'] at h2 this ⊢
      rwa [h2] at this

/-- No groups for a number are fewer than `EncodeVarint`'s, and no others are as few. -/
theorem groups_shortest (h : Groups e v) : ∀ {left : ℕ}, e.length ≤ left →
    (encodeVarintLoop left v).length ≤ e.length ∧
      ((encodeVarintLoop left v).length = e.length → encodeVarintLoop left v = e) := by
  have hlow : ∀ w : ℕ, w &&& 0x7F = w % 128 := fun w => Nat.and_two_pow_sub_one_eq_mod w 7
  have hhigh : ∀ w : ℕ, w >>> 7 = w / 128 := fun w => Nat.shiftRight_eq_div_pow w 7
  induction h with
  | last b hb =>
    intro left hl
    obtain ⟨left, rfl⟩ : ∃ m, left = m + 1 := ⟨left - 1, by simp at hl; omega⟩
    simp [encodeVarintLoop, hlow, hhigh, Nat.mod_eq_of_lt hb, Nat.div_eq_of_lt hb]
  | @more b e w hb hg ih =>
    intro left hl
    rw [length_cons] at hl
    obtain ⟨left, rfl⟩ : ∃ m, left = m + 1 := ⟨left - 1, by omega⟩
    have hbyte : UInt8.ofNat (b.toNat % 128) ||| 0x80 = b := by
      have := b.toNat_lt
      apply UInt8.toNat_inj.mp
      rw [(group_bits ⟨b.toNat % 128, Nat.mod_lt _ (by decide)⟩).1]
      show b.toNat % 128 + 128 = b.toNat
      omega
    have hpos := groups_length_pos hg
    obtain ⟨hle, heq⟩ := ih (show e.length ≤ left by omega)
    simp only [encodeVarintLoop, hlow, hhigh,
      show (b.toNat % 128 + 128 * w) % 128 = b.toNat % 128 by omega,
      show (b.toNat % 128 + 128 * w) / 128 = w by omega, hbyte, length_cons]
    split_ifs
    · simp only [length_cons, List.cons.injEq, true_and]
      exact ⟨by omega, fun h => heq (by omega)⟩
    · -- A number that ends in empty groups has a shorter encoding.
      simp only [length_cons, length_nil]
      exact ⟨by omega, fun h => by omega⟩

/-- No encoding of a number is shorter than `EncodeVarint`'s, and no other is as short. -/
theorem varint_le_decoded (h : decodeVarint bs = some (v, k)) :
    (varint v).length ≤ k ∧ ((varint v).length = k → bs.take k = varint v) := by
  obtain ⟨e, t, rfl, hg, hl, rfl⟩ := decodeVarint_iff.mp h
  rw [take_left]
  exact ⟨(groups_shortest hg hl).1, fun h => ((groups_shortest hg hl).2 h).symm⟩

end Groups

section

variable (h : v ≤ maxVarintValue)
include h

theorem varint_length : (varint v).length = varintSize v := by
  unfold maxVarintValue at h
  have hhigh : ∀ w : ℕ, w >>> 7 = w / 128 := fun w => Nat.shiftRight_eq_div_pow w 7
  unfold varint varintSize
  simp only [encodeVarintLoop, hhigh, maxVarintValue, h, if_true]
  split_ifs <;> simp only [length_cons, length_nil] <;> omega

/-- `DecodeVarint` reads a variable byte integer back, whatever follows it. -/
theorem decodeVarint_varint (rest : Bytes) :
    decodeVarint (varint v ++ rest) = some (v, (varint v).length) := by
  have hg : Groups (varint v) v :=
    encodeVarintLoop_groups 4 v (by unfold maxVarintValue at h; omega) (by decide)
  exact decodeVarint_iff.mpr ⟨_, rest, rfl, hg, by
    rw [varint_length h]; unfold varintSize maxVarintBytes; split_ifs <;> omega, rfl⟩

theorem encodeVarint_of_le :
    encodeVarint v = .ok (varint v) := by
  simp [encodeVarint, varint, Nat.not_lt.mpr h]

end

theorem encodeVarint_of_gt (h : maxVarintValue < v) :
    encodeVarint v = .error (.sentinel .varintTooLarge) := by
  simp [encodeVarint, h]

theorem toUint32_of_le {n : ℕ} (h : n ≤ maxVarintValue) : toUint32 n = n := by
  unfold maxVarintValue at h
  unfold toUint32
  omega

theorem propertiesPrefix_length (n : ℕ) :
    (propertiesPrefix n).length = varintSize (toUint32 n) := by
  unfold propertiesPrefix
  by_cases h : toUint32 n ≤ maxVarintValue
  · rw [encodeVarint_of_le h]
    exact varint_length h
  · rw [encodeVarint_of_gt (by omega)]
    unfold maxVarintValue at h
    simp only [length_nil, varintSize, maxVarintValue, h, if_false]
    split_ifs <;> omega

theorem propertiesPrefix_of_le {n : ℕ} (h : n ≤ maxVarintValue) :
    propertiesPrefix n = varint n := by
  simp [propertiesPrefix, toUint32_of_le h, encodeVarint_of_le h]

theorem varint_length_le (v : ℕ) (h : v ≤ maxVarintValue) : (varint v).length ≤ 4 := by
  rw [varint_length h]
  unfold varintSize
  split_ifs <;> omega

@[simp] theorem putUint16_length (v : ℕ) : (putUint16 v).length = 2 := rfl

@[simp] theorem putUint32_length (v : ℕ) : (putUint32 v).length = 4 := rfl

/-- Two bytes are enough for a decoder that asks for two. -/
theorem not_short (v : ℕ) (rest : Bytes) : ¬(putUint16 v ++ rest).length < 2 := by
  rw [length_append, putUint16_length]
  omega

theorem putUint16_mod (v : ℕ) : putUint16 (v % 2 ^ 16) = putUint16 v := by
  unfold putUint16
  congr 1
  · apply UInt8.toNat_inj.mp
    simp only [UInt8.toNat_ofNat']
    omega
  · congr 1
    apply UInt8.toNat_inj.mp
    simp only [UInt8.toNat_ofNat']
    omega

theorem uint16_put (h : v ≤ 0xffff) (rest : Bytes) : uint16 (putUint16 v ++ rest) = v := by
  simp only [putUint16, cons_append, uint16, UInt8.toNat_ofNat']
  omega

theorem uint32_put (h : v < 2 ^ 32) (rest : Bytes) :
    Program.Wire.uint32 (putUint32 v ++ rest) = v := by
  simp only [putUint32, cons_append, Program.Wire.uint32, UInt8.toNat_ofNat']
  omega

theorem uint16_toNat (v : UInt16) (rest : Bytes) :
    UInt16.ofNat (uint16 (putUint16 v.toNat ++ rest)) = v := by
  rw [uint16_put (by have := v.toNat_lt; omega), UInt16.ofNat_toNat]

theorem uint32_toNat (v : UInt32) (rest : Bytes) :
    UInt32.ofNat (Program.Wire.uint32 (putUint32 v.toNat ++ rest)) = v := by
  rw [uint32_put v.toNat_lt, UInt32.ofNat_toNat]

theorem text_length (s : Bytes) : (text s).length = 2 + s.length := by
  simp [text]

/-- `readUTF8String` and `readBinaryData` read a string back, whatever follows it. -/
theorem readPrefixed_text {s : Bytes} (h : s.length ≤ 0xffff) (rest : Bytes) :
    readPrefixed (text s ++ rest) = .ok (s, 2 + s.length) := by
  have hu : uint16 (text s ++ rest) = s.length := by
    rw [text, append_assoc, uint16_put h]
  have hl : (text s ++ rest).length = 2 + s.length + rest.length := by
    rw [length_append, text_length]
  unfold readPrefixed
  rw [if_neg (by omega), hu]
  simp only
  rw [if_neg (by omega)]
  simp [text, putUint16]

theorem drop_text (s rest : Bytes) : (text s ++ rest).drop (2 + s.length) = rest :=
  drop_left' (text_length s)

end Mqttv5.Analysis.Wire
