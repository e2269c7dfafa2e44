import Mqttv5.Analysis.Wire.Varint
import Mqttv5.Program.Wire.Codec

/-!
# What reading from a stream sees

`readVarint`, `readBody` and `readPacket` read through a buffered reader; the lemmas here
restate them over the bytes of the stream, so that how those are cut into chunks plays no part
in what follows. One lemma for each outcome of `readPacket`, by the first thing that decides it.
-/

set_option autoImplicit false

namespace Mqttv5.Analysis.Wire

open Mqttv5.Computation
open Model (Bytes)
open Model.Wire
open Program (decodeVarint decodeVarintLoop maxVarintBytes)
open Program.Wire List

/-- How reading a variable byte integer fails: the stream ends first, or four bytes go on. -/
def varintFailure (read : ℕ) (left : ℕ) (stream : Bytes) : Sentinel :=
  if left ≤ stream.length then .varintMalformed
  else if 0 < read + stream.length then .unexpectedEOF else .eof

theorem readVarintLoop_eq (left : ℕ) : ∀ (n value multiplier : ℕ) (r : Reader UInt8),
    ∃ r', readVarintLoop left n value multiplier r =
        (match decodeVarintLoop left n value multiplier r.content with
          | some v => .ok v
          | none => .error (varintFailure n left r.content), r') ∧
      ∀ v k, decodeVarintLoop left n value multiplier r.content = some (v, k) →
        n < k ∧ r.Consumed (k - n) r' := by
  induction left with
  | zero =>
    intro n value multiplier r
    exact ⟨r, by simp [readVarintLoop, decodeVarintLoop, varintFailure],
      by simp [decodeVarintLoop]⟩
  | succ left ih =>
    intro n value multiplier r
    unfold readVarintLoop
    rcases Reader.readByte_eq r with ⟨hc, hb⟩ | ⟨b, r', hc, hb, hone⟩
    · refine ⟨r, ?_, by simp [hc, decodeVarintLoop]⟩
      rw [hb, hc]
      simp [decodeVarintLoop, varintFailure]
    · rw [hb, hc]
      simp only [decodeVarintLoop]
      by_cases hlast : b &&& 0x80 = 0
      · refine ⟨r', by simp [hlast], ?_⟩
        intro v k h
        simp only [hlast, if_true, Option.some.injEq, Prod.mk.injEq] at h
        obtain ⟨-, rfl⟩ := h
        exact ⟨Nat.lt_succ_self n, by rw [Nat.add_sub_cancel_left]; exact hone⟩
      · obtain ⟨r'', h1, h2⟩ := ih (n + 1) (value + (b &&& 0x7F).toNat * multiplier)
          (multiplier * 128) r'
        refine ⟨r'', ?_, ?_⟩
        · rw [if_neg hlast, if_neg hlast, h1]
          -- The failure is the same seen from one byte on.
          have hf : varintFailure (n + 1) left r'.content =
              varintFailure n (left + 1) (b :: r'.content) := by
            simp only [varintFailure, length_cons, Nat.add_le_add_iff_right]
            congr 1
            simp only [show 0 < n + 1 + r'.content.length by omega,
              show 0 < n + (r'.content.length + 1) by omega, if_true]
          rw [hf]
        · intro v k h
          rw [if_neg hlast] at h
          obtain ⟨hk, hr⟩ := h2 v k h
          refine ⟨by omega, ?_⟩
          rw [show k - n = 1 + (k - (n + 1)) by omega]
          exact hone.trans hr

/-- `ReadVarint` reads what `DecodeVarint` would decode from the stream. -/
theorem readVarint_of_some {r : Reader UInt8} {v k : ℕ} (h : decodeVarint r.content = some (v, k)) :
    ∃ r', readVarint r = (.ok (v, k), r') ∧ r.Consumed k r' := by
  obtain ⟨r', h1, h2⟩ := readVarintLoop_eq maxVarintBytes 0 0 1 r
  have hd : decodeVarintLoop maxVarintBytes 0 0 1 r.content = some (v, k) := h
  rw [hd] at h1
  exact ⟨r', h1, (h2 v k hd).2⟩

theorem readVarint_of_none {r : Reader UInt8} (h : decodeVarint r.content = none) :
    ∃ r', readVarint r = (.error (varintFailure 0 maxVarintBytes r.content), r') := by
  obtain ⟨r', h1, -⟩ := readVarintLoop_eq maxVarintBytes 0 0 1 r
  have hd : decodeVarintLoop maxVarintBytes 0 0 1 r.content = none := h
  rw [hd] at h1
  exact ⟨r', h1⟩

/-- The loop for a large body reads it whole, or reports a packet cut short. -/
theorem readLargeBody_eq (n fuel : ℕ) : ∀ (body : Bytes) (size : ℕ) (r : Reader UInt8),
    body.length < size → size ≤ n → n - body.length ≤ fuel →
    ∃ r', readLargeBody n fuel body size r =
        (if n ≤ body.length + r.content.length then .ok (body ++ r.content.take (n - body.length))
          else .error .unexpectedEOF, r') ∧
      r.Consumed (n - body.length) r' := by
  induction fuel with
  | zero => intro body size r h1 h2 h3; omega
  | succ fuel ih =>
    intro body size r h1 h2 h3
    unfold readLargeBody
    obtain ⟨r1, hread, hrest⟩ := Reader.readFull_eq r (size - body.length)
    simp only [hread]
    by_cases henough : size - body.length ≤ r.content.length
    · have hlen : (body ++ r.content.take (size - body.length)).length = size := by
        rw [length_append, length_take]
        omega
      simp only [if_pos henough, hlen]
      by_cases hdone : size = n
      · subst hdone
        exact ⟨r1, by rw [if_pos rfl, if_pos (by omega)], hrest⟩
      · -- The next slice is larger than this one and no larger than the body.
        obtain ⟨r2, h4, h5⟩ := ih (body ++ r.content.take (size - body.length))
          (min n (if n ≤ 8 * size then n else 4 * size)) r1
          (by rw [hlen]; split <;> omega) (Nat.min_le_left _ _) (by rw [hlen]; omega)
        rw [hlen, hrest.content, length_drop] at h4
        rw [hlen] at h5
        refine ⟨r2, ?_, ?_⟩
        · rw [if_neg hdone, h4]
          have hcond : (n ≤ size + (r.content.length - (size - body.length))) ↔
              (n ≤ body.length + r.content.length) := by omega
          have hsplit : r.content.take (n - body.length) =
              r.content.take (size - body.length) ++
                (r.content.drop (size - body.length)).take (n - size) := by
            rw [← take_add]
            congr 1
            omega
          simp only [hcond, hsplit, append_assoc]
        · rw [show n - body.length = size - body.length + (n - size) by omega]
          exact hrest.trans h5
    · simp only [if_neg henough]
      refine ⟨r1, by rw [if_neg (by omega)], .of_short (by omega) ?_⟩
      rw [hrest.content, drop_eq_nil_of_le (by omega)]

/-- What a body of `n` bytes is read as: a small one that ends before its first byte is taken
for the end of the stream. -/
theorem readBody_eq (n : ℕ) (r : Reader UInt8) :
    ∃ r', readBody n r =
        (if n ≤ r.content.length then .ok (r.content.take n)
          else .error (if n ≤ largeBodyChunk ∧ r.content = [] then .eof else .unexpectedEOF), r') ∧
      r.Consumed n r' := by
  unfold readBody
  by_cases hsmall : n ≤ largeBodyChunk
  · obtain ⟨r', hread, hrest⟩ := Reader.readFull_eq r n
    rw [if_pos hsmall, hread]
    refine ⟨r', ?_, hrest⟩
    by_cases henough : n ≤ r.content.length
    · simp [henough]
    · by_cases hnil : r.content = []
      · simp [hnil, hsmall, ofReadError, show n ≠ 0 by rw [hnil] at henough; simpa using henough]
      · simp [henough, hnil, ofReadError]
  · rw [if_neg hsmall]
    obtain ⟨r', h1, h2⟩ := readLargeBody_eq n n [] largeBodyChunk r (by decide) (by omega)
      (by simp)
    refine ⟨r', ?_, by simpa using h2⟩
    rw [h1]
    simp [hsmall]

/-- The packet type and the flags of a first byte. -/
def typeOf (b0 : UInt8) : PacketType := PacketType.ofNibble (b0 >>> 4)

def flagsOf (b0 : UInt8) : UInt8 := b0 &&& 0x0F

/-- What becomes of a fixed header: refused, or the flags the body is decoded with. -/
def admitted (lenient : Bool) (b0 : UInt8) (remaining n : ℕ) : Except Err UInt8 :=
  match checkHeader (typeOf b0) (flagsOf b0) remaining (n = varintSize remaining) with
  | (some perr, tolerable) =>
    if !tolerable || !lenient then .error perr
    else .ok (if typeOf b0 = .PINGRESP then 0 else flagsOf b0)
  | (none, _) => .ok (flagsOf b0)

/-- What a complete body is decoded to. -/
def bodyResult (t : PacketType) (flags : UInt8) (body : Bytes) : Except Err Packet :=
  match decodeBody body t flags with
  | .error e => .error (asPacketError t e)
  | .ok p => match validatePacket p with
    | some e => .error e
    | none => .ok p

section Header

variable {d : Decoder} {b0 : UInt8} {rest : Bytes}

theorem readByte_of_cons (h : d.br.content = b0 :: rest) :
    ∃ r, d.br.readByte = some (b0, r) ∧ r.content = rest ∧ d.br.Consumed 1 r := by
  rcases Reader.readByte_eq d.br with ⟨hc, -⟩ | ⟨b, r, hc, hb, hone⟩
  · rw [h] at hc
    cases hc
  · rw [h] at hc
    obtain ⟨rfl, hr⟩ := List.cons.inj hc
    exact ⟨r, hb, hr.symm, hone⟩

variable {remaining n : ℕ}

/-- What a packet with a complete header is read as, and how much of what follows is taken. -/
def outcome (d : Decoder) (b0 : UInt8) (remaining n : ℕ) (stream : Bytes) : Except Err Packet × ℕ :=
  if 0 < d.maxPacket ∧ d.maxPacket < 1 + n + remaining then
    (.error (.wrap .packetTooLarge "%s of %d bytes, limit %d"
      [.packetType (typeOf b0), .num (1 + n + remaining), .num d.maxPacket]), 0)
  else match admitted d.lenient b0 remaining n with
    | .error e => (.error e, 0)
    | .ok flags => (if remaining ≤ stream.length then
          bodyResult (typeOf b0) flags (stream.take remaining)
        else .error (.sentinel (if remaining ≤ largeBodyChunk ∧ stream = [] then .eof
          else .unexpectedEOF)), remaining)

theorem readPacketBody_eq (d : Decoder) (t : PacketType) (flags : UInt8) (n : ℕ) :
    ∃ r', readPacketBody d t flags n = (if n ≤ d.br.content.length then
        bodyResult t flags (d.br.content.take n)
      else .error (.sentinel (if n ≤ largeBodyChunk ∧ d.br.content = [] then .eof
        else .unexpectedEOF)), { d with br := r' }) ∧ d.br.Consumed n r' := by
  obtain ⟨r', hbody, hr'⟩ := readBody_eq n d.br
  refine ⟨r', ?_, hr'⟩
  unfold readPacketBody bodyResult
  simp only [hbody]
  by_cases henough : n ≤ d.br.content.length
  · simp only [if_pos henough]
    cases decodeBody (d.br.content.take n) t flags with
    | error e => rfl
    | ok p =>
      simp only
      cases validatePacket p <;> rfl
  · simp only [if_neg henough]

/-- `ReadPacket` after a complete header. -/
theorem readPacket_eq (h : d.br.content = b0 :: rest)
    (hv : decodeVarint rest = some (remaining, n)) :
    ∃ r', readPacket d = ((outcome d b0 remaining n (rest.drop n)).1, { d with br := r' }) ∧
      d.br.Consumed (1 + n + (outcome d b0 remaining n (rest.drop n)).2) r' := by
  obtain ⟨r, hb, rfl, hone⟩ := readByte_of_cons h
  obtain ⟨r', hread, hr'⟩ := readVarint_of_some hv
  have htook := hone.trans hr'
  simp only [readPacket, hb, hread, outcome]
  split
  · exact ⟨r', rfl, htook⟩
  have hbody := readPacketBody_eq { d with br := r' } (typeOf b0)
  simp only [admitted, typeOf, flagsOf] at hbody ⊢
  rcases checkHeader (PacketType.ofNibble (b0 >>> 4)) (b0 &&& 0x0F) remaining
    (decide (n = varintSize remaining)) with ⟨_ | perr, tolerable⟩
  · obtain ⟨r'', hstep, hr''⟩ := hbody (b0 &&& 0x0F) remaining
    exact ⟨r'', by rw [← hr'.content]; exact hstep, htook.trans hr''⟩
  · by_cases hstop : (!tolerable || !d.lenient) = true
    · simp only [hstop, if_true]
      exact ⟨r', rfl, htook⟩
    · simp only [hstop]
      obtain ⟨r'', hstep, hr''⟩ := hbody
        (if PacketType.ofNibble (b0 >>> 4) = .PINGRESP then 0 else b0 &&& 0x0F) remaining
      exact ⟨r'', by rw [← hr'.content]; exact hstep, htook.trans hr''⟩

/-- The body of an accepted header, and what is left after it. -/
theorem readPacket_of_admitted (h : d.br.content = b0 :: rest)
    (hv : decodeVarint rest = some (remaining, n))
    (hlim : ¬(0 < d.maxPacket ∧ d.maxPacket < 1 + n + remaining)) {flags : UInt8}
    (ha : admitted d.lenient b0 remaining n = .ok flags) :
    (readPacket d).1 =
        (if remaining ≤ (rest.drop n).length then
          bodyResult (typeOf b0) flags ((rest.drop n).take remaining)
        else .error (.sentinel (if remaining ≤ largeBodyChunk ∧ rest.drop n = [] then .eof
          else .unexpectedEOF))) ∧ (readPacket d).2.br.content = (rest.drop n).drop remaining := by
  obtain ⟨r', hstep, hr'⟩ := readPacket_eq h hv
  rw [outcome, if_neg hlim, ha] at hstep hr'
  refine ⟨by rw [hstep], ?_⟩
  rw [hstep, drop_drop]
  show r'.content = _
  rw [hr'.content, h, Nat.add_assoc, Nat.add_comm 1, drop_succ_cons]

end Header

end Mqttv5.Analysis.Wire
