import Mqttv5.Analysis.Wire.Accepted

/-!
# The eight-byte screens

`validUTF8Bytes` and `scanTopicName` skip a word at a time while no byte of it needs a closer
look. What they skip is plain: neither NUL nor above ASCII, and for a topic no wildcard either.
So they answer as the loops byte by byte would.
-/

set_option autoImplicit false

namespace Mqttv5.Analysis.Wire

open Model (Bytes)
open Program.Wire List

/-- No byte of the low `n` has its high bit set. -/
def NoHigh : ℕ → ℕ → Prop
  | 0, _ => True
  | n + 1, y => y / 128 % 2 ≠ 1 ∧ NoHigh n (y / 256)

theorem testBit_of_and_highs {y : ℕ} (h : y &&& highs = 0) {j : ℕ} (hj : highs.testBit j = true) :
    y / 2 ^ j % 2 ≠ 1 := by
  have hb : (y &&& highs).testBit j = false := by rw [h]; exact Nat.zero_testBit j
  rw [Nat.testBit_and, hj, Bool.and_true, Nat.testBit_eq_decide_div_mod_eq] at hb
  simpa using hb

theorem noHigh_of_and_highs {y : ℕ} (h : y &&& highs = 0) : NoHigh 8 y := by
  have bit := fun j hj => testBit_of_and_highs (j := j) h hj
  simp only [NoHigh, Nat.div_div_eq_div_mul, and_true]
  exact ⟨bit 7 (by decide), bit 15 (by decide), bit 23 (by decide), bit 31 (by decide),
    bit 39 (by decide), bit 47 (by decide), bit 55 (by decide), bit 63 (by decide)⟩

/-- The word with `n` bytes 1. -/
def onesOf : ℕ → ℕ
  | 0 => 0
  | n + 1 => 1 + 256 * onesOf n

theorem word_cons (b : UInt8) (bs : List UInt8) : word (b :: bs) = b.toNat + 256 * word bs := rfl

/-- Bytes without a high bit in their word are ASCII. -/
theorem ascii_of_noHigh : ∀ bs : List UInt8, NoHigh bs.length (word bs) → ∀ b ∈ bs,
    b.toNat < 128 := by
  intro bs
  induction bs with
  | nil => intro _ b hb; cases hb
  | cons c bs ih =>
    intro ⟨h1, h2⟩ b hb
    rw [word_cons] at h1 h2
    have hc := c.toNat_lt
    have hdiv : (c.toNat + 256 * word bs) / 256 = word bs := by omega
    rw [hdiv] at h2
    rcases mem_cons.mp hb with rfl | hb
    · omega
    · exact ih h2 b hb

/-- Subtracting 1 from every byte borrows through the first zero byte and sets its high bit. -/
theorem nonzero_of_noHigh : ∀ (bs : List UInt8) (a : ℕ) (k : ℤ),
    (a : ℤ) = word bs - onesOf bs.length + 256 ^ bs.length * k → NoHigh bs.length a →
    ∀ b ∈ bs, b.toNat ≠ 0 := by
  intro bs
  induction bs with
  | nil => intro a k _ _ b hb; cases hb
  | cons c bs ih =>
    intro a k ha ⟨h1, h2⟩ b hb
    have hc := c.toNat_lt
    simp only [word_cons, length_cons, onesOf, pow_succ] at ha
    have hq : (a : ℤ) = c.toNat - 1 + 256 * (word bs - onesOf bs.length + 256 ^ bs.length * k) := by
      rw [ha]
      push_cast
      ring
    generalize hqd : (word bs : ℤ) - onesOf bs.length + 256 ^ bs.length * k = q at hq
    have hne : c.toNat ≠ 0 := by
      intro h0
      omega
    rcases mem_cons.mp hb with rfl | hb
    · exact hne
    · refine ih (a / 256) k ?_ h2 b hb
      rw [hqd]
      omega

theorem sub64_eq {x : ℕ} (hx : x < 2 ^ 64) :
    ∃ k : ℤ, (sub64 x ones : ℤ) = x - onesOf 8 + 256 ^ 8 * k := by
  have ho : onesOf 8 = ones := by decide
  have hlt : ones < 2 ^ 64 := by decide
  rw [ho]
  unfold sub64
  by_cases h : ones ≤ x
  · refine ⟨0, ?_⟩
    have : (x + (2 ^ 64 - ones)) % 2 ^ 64 = x - ones := by omega
    rw [this]
    omega
  · refine ⟨1, ?_⟩
    have : (x + (2 ^ 64 - ones)) % 2 ^ 64 = x + 2 ^ 64 - ones := by omega
    rw [this]
    omega

theorem word_lt (bs : List UInt8) : word bs < 256 ^ bs.length := by
  induction bs with
  | nil => decide
  | cons b bs ih =>
    have hb := b.toNat_lt
    rw [word_cons, length_cons, pow_succ]
    omega

theorem and_highs_or {x y : ℕ} (h : (x ||| y) &&& highs = 0) :
    x &&& highs = 0 ∧ y &&& highs = 0 := by
  rw [Nat.and_or_distrib_right] at h
  exact Nat.or_eq_zero_iff.mp h

/-- A byte the screens may skip. -/
def Plain8 (b : UInt8) : Prop := b ≠ 0 ∧ b < 0x80

theorem plain_of_screen {bs : List UInt8} (hlen : bs.length = 8)
    (h : (sub64 (word bs) ones ||| word bs) &&& highs = 0) : ∀ b ∈ bs, Plain8 b := by
  obtain ⟨ha, hx⟩ := and_highs_or h
  have hlt : word bs < 2 ^ 64 := by
    have := word_lt bs
    rw [hlen] at this
    exact this
  obtain ⟨k, hk⟩ := sub64_eq hlt
  intro b hb
  have h1 := nonzero_of_noHigh bs _ k (by rw [hlen]; exact hk)
    (by rw [hlen]; exact noHigh_of_and_highs ha) b hb
  have h2 := ascii_of_noHigh bs (by rw [hlen]; exact noHigh_of_and_highs hx) b hb
  refine ⟨fun h0 => h1 (by rw [h0]; rfl), ?_⟩
  rw [UInt8.lt_iff_toNat_lt]
  exact h2

theorem word_xor (c : UInt8) (bs : List UInt8) :
    word bs ^^^ word (List.replicate bs.length c) = word (bs.map (· ^^^ c)) := by
  induction bs with
  | nil => exact Nat.xor_self 0
  | cons b bs ih =>
    have hb := b.toNat_lt
    have hc := c.toNat_lt
    rw [length_cons, replicate_succ, map_cons, word_cons, word_cons, word_cons, ← ih,
      UInt8.toNat_xor]
    have hmod := Nat.xor_mod_two_pow (a := b.toNat + 256 * word bs)
      (b := c.toNat + 256 * word (List.replicate bs.length c)) (n := 8)
    have hdiv := Nat.xor_div_two_pow (a := b.toNat + 256 * word bs)
      (b := c.toNat + 256 * word (List.replicate bs.length c)) (n := 8)
    have e1 : (b.toNat + 256 * word bs) % 2 ^ 8 = b.toNat := by omega
    have e2 : (c.toNat + 256 * word (List.replicate bs.length c)) % 2 ^ 8 = c.toNat := by omega
    have e3 : (b.toNat + 256 * word bs) / 2 ^ 8 = word bs := by omega
    have e4 : (c.toNat + 256 * word (List.replicate bs.length c)) / 2 ^ 8 =
        word (List.replicate bs.length c) := by omega
    rw [e1, e2] at hmod
    rw [e3, e4] at hdiv
    rw [← hmod, ← hdiv]
    omega

/-- A word without the byte `c` after an exclusive or with `c` in every byte. -/
theorem not_mem_of_screen {bs : List UInt8} (hlen : bs.length = 8) (c : UInt8)
    (h : sub64 (word bs ^^^ word (List.replicate 8 c)) ones &&& highs = 0) : c ∉ bs := by
  intro hmem
  rw [← hlen, word_xor] at h
  have hlen' : (bs.map (· ^^^ c)).length = 8 := by rw [length_map, hlen]
  have hlt : word (bs.map (· ^^^ c)) < 2 ^ 64 := by
    have := word_lt (bs.map (· ^^^ c))
    rw [hlen'] at this
    exact this
  obtain ⟨k, hk⟩ := sub64_eq hlt
  refine nonzero_of_noHigh (bs.map (· ^^^ c)) _ k (by rw [hlen']; exact hk)
    (by rw [hlen']; exact noHigh_of_and_highs h) (c ^^^ c) (mem_map_of_mem hmem) ?_
  rw [UInt8.xor_self]
  rfl

/-- What a screen skips is what its test lets pass. -/
theorem screen_eq (flagged : ℕ → Bool) (P : UInt8 → Prop)
    (h : ∀ bs : List UInt8, bs.length = 8 → flagged (word bs) = false → ∀ b ∈ bs, P b) (s : Bytes) :
    ∃ skipped, s = skipped ++ screen flagged s ∧ ∀ b ∈ skipped, P b := by
  induction s using screen.induct flagged with
  | case1 b0 b1 b2 b3 b4 b5 b6 b7 rest hf =>
    exact ⟨[], by rw [screen, if_pos hf]; rfl, by simp⟩
  | case2 b0 b1 b2 b3 b4 b5 b6 b7 rest hf ih =>
    obtain ⟨skipped, hs, hp⟩ := ih
    refine ⟨[b0, b1, b2, b3, b4, b5, b6, b7] ++ skipped, ?_, ?_⟩
    · rw [screen, if_neg hf, append_assoc, ← hs]
      rfl
    · intro b hb
      rcases mem_append.mp hb with hb | hb
      · exact h _ rfl (by simpa using hf) b hb
      · exact hp b hb
  | case3 s hs =>
    refine ⟨[], ?_, by simp⟩
    rw [nil_append, screen]
    exact hs

theorem validUTF8Rest_plain : ∀ (skipped rest : Bytes), (∀ b ∈ skipped, Plain8 b) →
    validUTF8Rest (skipped ++ rest) = validUTF8Rest rest := by
  intro skipped rest
  induction skipped with
  | nil => intro _; rfl
  | cons b skipped ih =>
    intro h
    obtain ⟨h0, h1⟩ := h b mem_cons_self
    have h2 : ¬0x80 ≤ b := by simpa using h1
    rw [cons_append, validUTF8Rest, if_neg h0, if_neg h2]
    exact ih fun b' hb' => h b' (mem_cons_of_mem b hb')

/-- The screen of `validUTF8Bytes` changes no answer. -/
theorem validUTF8Bytes_eq (b : Bytes) : validUTF8Bytes b = validUTF8Rest b := by
  obtain ⟨skipped, hs, hp⟩ := screen_eq (fun x => (sub64 x ones ||| x) &&& highs != 0) Plain8
    (fun bs hlen hf => plain_of_screen hlen (by simpa using hf)) b
  unfold validUTF8Bytes
  nth_rewrite 2 [hs]
  exact (validUTF8Rest_plain skipped _ hp).symm

theorem scanTopicRest_plain (w : Bool) : ∀ (skipped rest : Bytes),
    (∀ b ∈ skipped, Plain8 b ∧ b ≠ 0x2B ∧ b ≠ 0x23) →
    scanTopicRest w (skipped ++ rest) = scanTopicRest w rest := by
  intro skipped rest
  induction skipped with
  | nil => intro _; rfl
  | cons b skipped ih =>
    intro h
    obtain ⟨⟨h0, h1⟩, hp, hh⟩ := h b mem_cons_self
    have h2 : ¬0x80 ≤ b := by simpa using h1
    rw [cons_append, scanTopicRest, if_neg (by simp [hp, hh]), if_neg h0, if_neg h2]
    exact ih fun b' hb' => h b' (mem_cons_of_mem b hb')

theorem scanTopicName_eq (s : Bytes) : scanTopicName s = scanTopicRest false s := by
  have hplus : word (List.replicate 8 0x2B) = plusWord := by decide
  have hhash : word (List.replicate 8 0x23) = hashWord := by decide
  obtain ⟨skipped, hs, hp⟩ := screen_eq
    (fun x => (sub64 x ones ||| x ||| sub64 (x ^^^ plusWord) ones |||
      sub64 (x ^^^ hashWord) ones) &&& highs != 0)
    (fun b => Plain8 b ∧ b ≠ 0x2B ∧ b ≠ 0x23)
    (fun bs hlen hf b hb => by
      have hf' : (sub64 (word bs) ones ||| word bs ||| sub64 (word bs ^^^ plusWord) ones |||
          sub64 (word bs ^^^ hashWord) ones) &&& highs = 0 := by simpa using hf
      obtain ⟨h1, h4⟩ := and_highs_or hf'
      obtain ⟨h1, h3⟩ := and_highs_or h1
      refine ⟨plain_of_screen hlen h1 b hb, ?_, ?_⟩
      · rintro rfl
        exact not_mem_of_screen hlen 0x2B (by rw [hplus]; exact h3) hb
      · rintro rfl
        exact not_mem_of_screen hlen 0x23 (by rw [hhash]; exact h4) hb) s
  unfold scanTopicName
  nth_rewrite 2 [hs]
  exact (scanTopicRest_plain false skipped _ hp).symm

/-- The scan of a topic name checks what the encoders check in two passes. -/
theorem scanTopicRest_ok (s : Bytes) : ∀ wildcard found : Bool,
    scanTopicRest wildcard s = (true, found) ↔
      validUTF8Rest s = true ∧ (wildcard || containsWildcard s) = found := by
  induction s with
  | nil => simp [scanTopicRest, validUTF8Rest, containsWildcard]
  | cons c s ih =>
    intro wildcard found
    unfold scanTopicRest validUTF8Rest
    by_cases hc : c = 0x2B ∨ c = 0x23
    · have hw : containsWildcard (c :: s) = true := by
        rcases hc with rfl | rfl <;> simp [containsWildcard]
      have hplain : ¬c = 0 ∧ ¬0x80 ≤ c := by rcases hc with rfl | rfl <;> decide
      rw [if_pos hc, if_neg hplain.1, if_neg hplain.2, ih, hw]
      simp
    · have hw : containsWildcard (c :: s) = containsWildcard s := by
        simp only [containsWildcard, mem_cons]
        grind
      rw [if_neg hc]
      split
      · simp
      · split
        · simp [Prod.ext_iff]
        · rw [ih, hw]

theorem scanTopicName_ok {s : Bytes} (hlen : s.length ≤ 0xffff) :
    scanTopicName s = (true, false) ↔ GoodTopic s := by
  rw [scanTopicName_eq, scanTopicRest_ok, GoodTopic, GoodString, validUTF8Bytes_eq]
  simp [hlen]

end Mqttv5.Analysis.Wire
