import Mqttv5.Program.Frames

/-!
# The buffers of a batch are its packets

What was appended to the small buffer stays where the segments have it, in whichever array; the
stored packets are in arrays the batch never writes to.
-/

set_option autoImplicit false

namespace Mqttv5.Guarantees

open Model (Bytes ReasonCode)
open Model.Wire
open Program
open Program.Wire List

/-- A call between two Resets. `spare` is what a reallocation takes in advance. -/
inductive BatchCall
  | ack (t : PacketType) (id : UInt16) (rc : ReasonCode) (spare : ℕ)
  | publish (pkt : Option Slice) (dup : Bool) (spare : ℕ)

def BatchCall.run (f : Frames) : BatchCall → Option Frames
  | .ack t id rc spare => some (f.appendAck t id rc spare)
  | .publish pkt dup spare => f.appendPublish pkt dup spare

/-- What a call is to send: a resend is the stored packet with the DUP bit. -/
def BatchCall.encoded (mem : Memory) : BatchCall → Bytes
  | .ack t id rc _ => appendPubResp t id rc
  | .publish pkt dup _ =>
    let stored := (pkt.map (Slice.read mem)).getD []
    if dup then stored.modifyHead (· ||| 0x08) else stored

/-- The packet is stored outside the batch's buffer. -/
def Outside (f : Frames) (pkt : Option Slice) : Prop :=
  ∀ p, pkt = some p → p.array < f.unused ∧ p.array ≠ f.array

/-- A packet is stored outside the batch's buffer; one that is sent again is not empty. -/
def BatchCall.Stored (f : Frames) : BatchCall → Prop
  | .ack _ _ _ _ => True
  | .publish pkt dup _ => Outside f pkt ∧
      (dup = true → ∃ p b, pkt = some p ∧ b ∈ (p.read f.mem).head?)

/-- A segment of a buffer of `len` bytes, or of a packet stored outside the batch. -/
def Segment.Within (f₀ : Frames) (len : ℕ) (s : Segment) : Prop :=
  s.off ≤ s.stop ∧ s.stop ≤ len ∧ Outside f₀ s.pkt

/-- The batch `f` that was begun as `f₀` holds `sent`. -/
structure Holding (f₀ : Frames) (sent : Bytes) (f : Frames) : Prop where
  room : f.len ≤ (f.mem f.array).length
  array : f.array = f₀.array ∨ f₀.unused ≤ f.array
  unused : f₀.unused ≤ f.unused
  old : ∀ a, a < f₀.unused → a ≠ f₀.array → f.mem a = f₀.mem a
  segs : ∀ s ∈ f.segs, Segment.Within f₀ f.len s
  stream : f.buffers.flatten = sent

variable {f₀ f : Frames} {sent : Bytes}

theorem appendSmall_spec (f : Frames) (bs : Bytes) (spare : ℕ) : ∃ g tail,
    f.appendSmall bs spare = g ∧ g.mem g.array = (f.mem f.array).take f.len ++ bs ++ tail ∧
      (∀ a, a ≠ g.array → g.mem a = f.mem a) ∧ (g.array = f.array ∨ g.array = f.unused) ∧
      f.unused ≤ g.unused ∧ g.len = f.len + bs.length ∧ g.segs = f.segs ∧ g.n = f.n := by
  unfold Frames.appendSmall
  simp only
  split
  · exact ⟨_, _, rfl, Function.update_self .., fun a ha => Function.update_of_ne ha .., .inl rfl,
      le_rfl, rfl, rfl, rfl⟩
  · exact ⟨_, _, rfl, Function.update_self .., fun a ha => Function.update_of_ne ha .., .inr rfl,
      Nat.le_succ _, rfl, rfl, rfl⟩

/-- What the buffer had is where it was. -/
theorem drop_take_kept {cells more : Bytes} {len off stop : ℕ} (hlen : len ≤ cells.length)
    (hoff : off ≤ stop) (hstop : stop ≤ len) :
    ((cells.take len ++ more).drop off).take (stop - off) = (cells.drop off).take (stop - off) := by
  rw [drop_append_of_le_length (by rw [length_take]; omega),
    take_append_of_le_length (by simp; omega), drop_take, take_take,
    Nat.min_eq_left (by omega)]

/-- INTERNAL: **An append to the small buffer and its segment.** -/
theorem Holding.extend (h : Holding f₀ sent f) (bs : Bytes) (spare : ℕ) :
    Holding f₀ (sent ++ bs) ((f.appendSmall bs spare).extendSmall f.len) := by
  obtain ⟨g, tail, hg, hcell, hother, harray, hunused, hlen, hsegs, -⟩ :=
    appendSmall_spec f bs spare
  rw [hg]
  have harr : g.array = f₀.array ∨ f₀.unused ≤ g.array := by
    have := h.array
    have := h.unused
    omega
  have hin : ∀ a, a < f₀.unused → a ≠ f₀.array → a ≠ g.array := by omega
  have hsame : ∀ s ∈ f.segs, g.bytes s = f.bytes s := by
    intro s hs
    obtain ⟨hoff, hstop, hpkt⟩ := h.segs s hs
    unfold Frames.bytes
    cases hp : s.pkt with
    | some p => simp only [Slice.read, hother p.array (hin _ (hpkt p hp).1 (hpkt p hp).2)]
    | none =>
      simp only [hcell, append_assoc]
      exact drop_take_kept h.room hoff hstop
  have hstream : (g.segs.map g.bytes).flatten = sent := by
    rw [hsegs, map_congr_left hsame]
    exact h.stream
  have hbuf : ∀ segs, (∀ s ∈ segs, Segment.Within f₀ g.len s) →
      (segs.map g.bytes).flatten = sent ++ bs →
        Holding f₀ (sent ++ bs) { g with segs := segs } := by
    intro segs hs hb
    refine ⟨?_, ?_, h.unused.trans hunused, fun a ha hne => ?_, hs, hb⟩
    · show g.len ≤ (g.mem g.array).length
      have := h.room
      rw [hcell, hlen]
      simp
      omega
    · exact harr
    · exact (hother a (hin a ha hne)).trans (h.old a ha hne)
  have hold : ∀ s ∈ g.segs, Segment.Within f₀ g.len s := by
    intro s hs
    obtain ⟨h1, h2, h3⟩ := h.segs s (hsegs ▸ hs)
    exact ⟨h1, by omega, h3⟩
  have hread : ∀ off, off ≤ f.len → ((g.mem g.array).drop off).take (g.len - off) =
      ((f.mem f.array).drop off).take (f.len - off) ++ bs := by
    intro off hoff
    have hroom := h.room
    rw [hcell, drop_append_of_le_length (by simp; omega), take_left' (by simp; omega),
      drop_append_of_le_length (by simp; omega), drop_take]
  have happend : Holding f₀ (sent ++ bs) { g with segs := g.segs ++ [⟨f.len, g.len, none⟩] } := by
    refine hbuf _ (fun s hs => ?_) ?_
    · rcases mem_append.mp hs with hs | hs
      · exact hold s hs
      · rw [mem_singleton.mp hs]
        exact ⟨by simp only; omega, le_rfl, nofun⟩
    · rw [map_append, flatten_append, hstream]
      have := hread f.len le_rfl
      rw [Nat.sub_self, take_zero, nil_append] at this
      simp [Frames.bytes, this]
  unfold Frames.extendSmall
  split
  · rename_i s hlast
    split
    · rename_i hcond
      have hsplit : g.segs.dropLast ++ [s] = g.segs := dropLast_append_getLast? s hlast
      obtain ⟨hoff, hstop, hout⟩ :=
        hold s (hsplit ▸ mem_append_right _ (mem_singleton_self s))
      refine hbuf _ (fun s' hs' => ?_) ?_
      · rcases mem_append.mp hs' with hs' | hs'
        · exact hold s' (dropLast_subset _ hs')
        · rw [mem_singleton.mp hs']
          exact ⟨by simp only; omega, le_rfl, hout⟩
      · have hpkt : s.pkt = none := Option.isNone_iff_eq_none.mp hcond.1
        have hself := hsame s (hsegs ▸ hsplit ▸ mem_append_right _ (mem_singleton_self s))
        have hnew := hread s.off (by omega)
        rw [← hstream, ← hsplit]
        simp only [map_append, flatten_append, append_assoc, map_cons, map_nil,
          flatten_cons, flatten_nil, append_nil]
        rw [hself]
        simp [Frames.bytes, hpkt, hnew, hcond.2]
    · exact happend
  · exact happend

theorem extend_n (f : Frames) (bs : Bytes) (spare off : ℕ) :
    ((f.appendSmall bs spare).extendSmall off).n = f.n := by
  obtain ⟨g, tail, hg, -, -, -, -, -, -, hn⟩ := appendSmall_spec f bs spare
  rw [hg, ← hn]
  unfold Frames.extendSmall
  split
  · split <;> rfl
  · rfl

/-- A stored packet, or the rest of one. -/
theorem Holding.push (h : Holding f₀ sent f) {pkt : Option Slice} (hpkt : Outside f₀ pkt) :
    Holding f₀ (sent ++ (pkt.map (Slice.read f₀.mem)).getD []) (f.push pkt) := by
  refine ⟨h.room, h.array, h.unused, h.old, fun s hs => ?_, ?_⟩
  · rcases mem_append.mp hs with hs | hs
    · exact h.segs s hs
    · rw [mem_singleton.mp hs]
      exact ⟨le_rfl, Nat.zero_le _, hpkt⟩
  · have hbytes : f.bytes { pkt := pkt } = (pkt.map (Slice.read f₀.mem)).getD [] := by
      cases pkt with
      | none => simp [Frames.bytes]
      | some p => simp [Frames.bytes, Slice.read, h.old _ (hpkt p rfl).1 (hpkt p rfl).2]
    show ((f.segs ++ [(⟨0, 0, pkt⟩ : Segment)]).map f.bytes).flatten = _
    rw [← hbytes, ← h.stream]
    simp [Frames.buffers]

/-- INTERNAL: One call. -/
theorem Holding.call (h : Holding f₀ sent f) {c : BatchCall} (hc : c.Stored f₀) :
    ∃ g, c.run f = some g ∧ Holding f₀ (sent ++ c.encoded f₀.mem) g ∧ g.n = f.n + 1 := by
  cases c with
  | ack t id rc spare =>
    have hx := h.extend (appendPubResp t id rc) spare
    exact ⟨_, rfl, ⟨hx.room, hx.array, hx.unused, hx.old, hx.segs, hx.stream⟩,
      congrArg (· + 1) (extend_n f _ spare f.len)⟩
  | publish pkt dup spare =>
    obtain ⟨hpkt, hdup⟩ := hc
    cases dup with
    | false => exact ⟨_, rfl, h.push hpkt, rfl⟩
    | true =>
      obtain ⟨p, b, rfl, hb⟩ := hdup rfl
      obtain ⟨rest, hread⟩ : ∃ rest, p.read f₀.mem = b :: rest := List.head?_eq_some_iff.mp hb
      have hsame : p.read f.mem = b :: rest := by
        rw [← hread, Slice.read, Slice.read, h.old _ (hpkt p rfl).1 (hpkt p rfl).2]
      have htail : Slice.read f₀.mem ⟨p.array, p.off + 1, p.len - 1⟩ = rest := by
        unfold Slice.read at hread ⊢
        rw [← drop_drop]
        generalize (f₀.mem p.array).drop p.off = cells at hread ⊢
        rw [← drop_take, hread]
        rfl
      have hx := (h.extend [b ||| 0x08] spare).push
        (show Outside f₀ (some ⟨p.array, p.off + 1, p.len - 1⟩) by rintro _ ⟨⟩; exact hpkt p rfl)
      refine ⟨((f.appendSmall [b ||| 0x08] spare).extendSmall f.len).push
        (some ⟨p.array, p.off + 1, p.len - 1⟩), ?_, ?_, congrArg (· + 1) (extend_n f _ spare f.len)⟩
      · show (p.read f.mem).head?.map _ = _
        rw [hsame]
        rfl
      · simpa [BatchCall.encoded, hread, htail] using hx

/-- Between two Resets, for every sequence of calls with packets that are stored outside the batch,
of which those sent again are not empty, and however often and however far the small buffer is
reallocated: the buffers are what the calls were to send, in their order; no array but the small
buffer's is changed; and `Len` is the number of calls. -/
theorem batch_is_packets (f₀ : Frames) (calls : List BatchCall)
    (hcalls : ∀ c ∈ calls, c.Stored f₀) : ∃ f, calls.foldlM BatchCall.run f₀.reset = some f ∧
      f.buffers.flatten = (calls.map (BatchCall.encoded f₀.mem)).flatten ∧
      (∀ a, a < f₀.unused → a ≠ f₀.array → f.mem a = f₀.mem a) ∧ f.n = calls.length := by
  have hrun : ∀ (calls : List BatchCall) (sent : Bytes) (f : Frames), (∀ c ∈ calls, c.Stored f₀) →
      Holding f₀ sent f → ∃ g, calls.foldlM BatchCall.run f = some g ∧
        Holding f₀ (sent ++ (calls.map (BatchCall.encoded f₀.mem)).flatten) g ∧
        g.n = f.n + calls.length := by
    intro calls
    induction calls with
    | nil =>
      intro sent f _ h
      exact ⟨f, rfl, by simpa using h, rfl⟩
    | cons c calls ih =>
      intro sent f hc h
      rw [List.forall_mem_cons] at hc
      obtain ⟨g, hg, hh, hn⟩ := h.call hc.1
      obtain ⟨g', hg', hh', hn'⟩ := ih _ g hc.2 hh
      refine ⟨g', ?_, by simpa using hh', by rw [hn', hn, List.length_cons]; omega⟩
      rw [List.foldlM_cons, hg]
      exact hg'
  obtain ⟨g, hg, h, hn⟩ := hrun calls [] f₀.reset hcalls
    ⟨Nat.zero_le _, .inl rfl, le_rfl, fun _ _ _ => rfl, nofun, rfl⟩
  exact ⟨g, hg, h.stream, h.old, by simpa [Frames.reset] using hn⟩

/-- A PUBACK, a packet sent again and one that is not, in a buffer of four cells. -/
theorem batch_of_three : ∃ f : Frames,
    [BatchCall.ack .PUBACK 7 0 0, .publish (some ⟨1, 0, 2⟩) true 3,
      .publish (some ⟨1, 0, 2⟩) false 0].foldlM BatchCall.run
        (Frames.reset ⟨fun a => [[9, 9, 9, 9], [0x32, 5]].getD a [], 2, 0, 4, [], 1⟩) = some f ∧
      f.buffers.flatten = [0x40, 2, 0, 7, 0x3A, 5, 0x32, 5] ∧ f.n = 3 := by
  obtain ⟨f, hf, hb, -, hn⟩ := batch_is_packets
    ⟨fun a => [[9, 9, 9, 9], [0x32, 5]].getD a [], 2, 0, 4, [], 1⟩
    [.ack .PUBACK 7 0 0, .publish (some ⟨1, 0, 2⟩) true 3, .publish (some ⟨1, 0, 2⟩) false 0]
    (by simp [BatchCall.Stored, Outside, Slice.read])
  exact ⟨f, hf, hb.trans (by decide), hn⟩

end Mqttv5.Guarantees
