import Mqttv5.Program.Wire.Codec

/-!
# What reading a body costs

A declared length is not believed: the buffers of `readBody` follow what has arrived, and a body
that does arrive costs less than five thirds of its size besides the pooled buffer.
-/

set_option autoImplicit false

namespace Mqttv5.Guarantees.Wire

open Computation (Reader)
open Model (Bytes)
open Model.Wire (Sentinel)
open Program.Wire List

def BodyEvent.received : BodyEvent → ℕ
  | .got n => n
  | .alloc _ _ => 0

def BodyEvent.unpooled : BodyEvent → ℕ
  | .alloc cap false => cap
  | _ => 0

/-- The body bytes that have arrived. -/
def received (log : List BodyEvent) : ℕ := (log.map BodyEvent.received).sum

/-- The bytes of the buffers that were allocated, those of the pools apart. -/
def unpooled (log : List BodyEvent) : ℕ := (log.map BodyEvent.unpooled).sum

/-- At every moment each buffer is at most 64 KiB, or eight times what has arrived, `had` bytes
before the log. -/
def Bounded (had : ℕ) (log : List BodyEvent) : Prop :=
  ∀ now, now <+: log → ∀ cap pooled, .alloc cap pooled ∈ now →
    cap ≤ max 65536 (8 * (had + received now))

theorem Bounded.nil (had : ℕ) : Bounded had [] := by
  intro now hnow cap pooled hmem
  rw [prefix_nil.mp hnow] at hmem
  cases hmem

theorem Bounded.got {had n : ℕ} {log : List BodyEvent} (h : Bounded (had + n) log) :
    Bounded had (.got n :: log) := by
  intro now hnow cap pooled hmem
  rcases prefix_cons_iff.mp hnow with rfl | ⟨now, rfl, -⟩
  · cases hmem
  · have hin : .alloc cap pooled ∈ now := by simpa using hmem
    have := h now (cons_prefix_cons.mp hnow).2 cap pooled hin
    simp only [received, map_cons, sum_cons, BodyEvent.received] at this ⊢
    omega

theorem Bounded.alloc {had cap : ℕ} {pooled : Bool} {log : List BodyEvent}
    (hcap : cap ≤ max 65536 (8 * had)) (h : Bounded had log) :
    Bounded had (.alloc cap pooled :: log) := by
  intro now hnow cap' pooled' hmem
  rcases prefix_cons_iff.mp hnow with rfl | ⟨now, rfl, -⟩
  · cases hmem
  · simp only [received, map_cons, sum_cons, BodyEvent.received]
    rcases mem_cons.mp hmem with heq | hin
    · cases heq
      omega
    · have := h now (cons_prefix_cons.mp hnow).2 cap' pooled' hin
      simp only [received] at this
      omega

def Feed.content (f : Feed) : Bytes := f.reader.content

/-- INTERNAL: `io.ReadFull` over any cut into chunks, and whatever the connection fails with. -/
theorem readFull_spec (f : Feed) (n : ℕ) : ∃ err f',
    f.readFull n = ((Feed.content f).take n, err, f') ∧
    (err = none ↔ n ≤ (Feed.content f).length) ∧ Feed.content f' = (Feed.content f).drop n := by
  obtain ⟨r', hr, hcontent⟩ := f.reader.readFull_eq n
  refine ⟨(f.readFull n).2.1, { f with reader := r' }, ?_, ?_, hcontent.content⟩
  · simp only [Feed.readFull, hr]
    rfl
  · simp only [Feed.readFull, hr, Option.map_eq_none_iff, Feed.content]
    split <;> simp_all

/-- The error as `readBody` has it, for a stream that only ends. -/
def BodyErr.sentinel : BodyErr → Sentinel
  | .eof => .eof
  | _ => .unexpectedEOF

/-- INTERNAL: The loop with its events is the loop without. -/
theorem readLargeBodyLog_eq (n fuel : ℕ) : ∀ (body : Bytes) (size : ℕ) (r : Reader UInt8),
    ((readLargeBodyLog n fuel body size ⟨r, none⟩).1.mapError BodyErr.sentinel,
      (readLargeBodyLog n fuel body size ⟨r, none⟩).2.1.reader) =
        readLargeBody n fuel body size r := by
  induction fuel with
  | zero => exact fun _ _ _ => rfl
  | succ fuel ih =>
    intro body size r
    obtain ⟨x, hx⟩ : ∃ x, r.readFull (size - body.length) = x := ⟨_, rfl⟩
    obtain ⟨bs, err, r'⟩ := x
    simp only [readLargeBodyLog, readLargeBody, Feed.readFull, hx]
    rcases err with _ | e
    · simp only [Option.map_none]
      split
      · rfl
      · exact ih _ _ r'
    · cases e <;> rfl

/-- On a stream that only ends, the reading that is accounted for here is that of `readBody`. -/
theorem readBodyLog_eq (n : ℕ) (r : Reader UInt8) :
    ((readBodyLog n ⟨r, none⟩).1.mapError BodyErr.sentinel, (readBodyLog n ⟨r, none⟩).2.1.reader) =
      readBody n r := by
  unfold readBodyLog readBody
  split
  · simp only [Feed.readFull]
    rcases r.readFull n with ⟨bs, _ | e, r'⟩
    · rfl
    · cases e <;> rfl
  · exact readLargeBodyLog_eq n n [] largeBodyChunk r

/-- What is to be shown of reading the body of `n` bytes, `body` of which have arrived. -/
structure ReadsBody (n : ℕ) (body : Bytes) (f : Feed)
    (x : Except BodyErr Bytes × Feed × List BodyEvent) : Prop where
  arrived : n ≤ body.length + (Feed.content f).length →
    x.1 = .ok (body ++ (Feed.content f).take (n - body.length))
  short : body.length + (Feed.content f).length < n → ∃ e, x.1 = .error e
  rest : Feed.content x.2.1 = (Feed.content f).drop (n - body.length)
  bounded : Bounded body.length x.2.2

/-- What the loop allocates from a buffer of `size` bytes on. -/
structure Affordable (n size : ℕ) (log : List BodyEvent) : Prop where
  last : size = n → unpooled log = 0
  total : 3 * unpooled log < 5 * n
  grown : 2 * size < n → 3 * unpooled log + 4 * size < 5 * n

/-- INTERNAL: **The loop.** Each round fills the buffer of `size` bytes and takes one of `n` bytes
or four times as large; in a run to the end the sizes add up as a geometric series. -/
theorem readLargeBodyLog_spec {n : ℕ} (fuel : ℕ) : ∀ (body : Bytes) (size : ℕ) (f : Feed),
    body.length ≤ size → size ≤ n → 65536 ≤ size → n - size < fuel →
    ReadsBody n body f (readLargeBodyLog n fuel body size f) ∧
      Affordable n size (readLargeBodyLog n fuel body size f).2.2 := by
  induction fuel with
  | zero =>
    intro body size f _ _ _ hfuel
    exact absurd hfuel (Nat.not_lt_zero _)
  | succ fuel ih =>
    intro body size f hbody hsize hmin hfuel
    obtain ⟨err, f', hread, herr, hrest⟩ := readFull_spec f (size - body.length)
    have hgot : ∀ m, unpooled [.got m] = 0 := fun _ => rfl
    cases err with
    | some e =>
      have hlt : (Feed.content f).length < size - body.length := by
        by_contra hcon
        cases herr.mpr (Nat.le_of_not_lt hcon)
      have hdrop : ∀ m, size - body.length ≤ m →
          (Feed.content f).drop m = (Feed.content f).drop (size - body.length) := by
        intro m hm
        rw [drop_eq_nil_of_le (by omega), drop_eq_nil_of_le (by omega)]
      simp only [readLargeBodyLog, hread]
      refine ⟨⟨fun h => by omega, fun _ => ⟨_, rfl⟩, ?_, (Bounded.nil _).got⟩, ?_⟩
      · rw [hrest, hdrop (n - body.length) (by omega)]
      · constructor <;> rw [hgot] <;> omega
    | none =>
      have hle := herr.mp rfl
      have hlen : (body ++ (Feed.content f).take (size - body.length)).length = size := by
        rw [length_append, length_take]
        omega
      have hnew : body.length + ((Feed.content f).take (size - body.length)).length = size := by
        rwa [length_append] at hlen
      simp only [readLargeBodyLog, hread, hlen]
      by_cases hn : size = n
      · rw [if_pos hn]
        subst hn
        refine ⟨⟨fun _ => rfl, fun h => by omega, hrest, (Bounded.nil _).got⟩, ?_⟩
        constructor <;> rw [hgot] <;> omega
      · rw [if_neg hn]
        obtain ⟨next, hnext⟩ : ∃ next, min n (if n ≤ 8 * size then n else 4 * size) = next :=
          ⟨_, rfl⟩
        rw [hnext]
        have hcases : n ≤ 8 * size ∧ next = n ∨ 8 * size < n ∧ next = 4 * size := by
          split at hnext <;> omega
        obtain ⟨hspec, hcost⟩ := ih (body ++ (Feed.content f).take (size - body.length))
          next f' (by omega) (by omega) (by omega) (by omega)
        generalize readLargeBodyLog n fuel _ next f' = x at hspec hcost
        obtain ⟨res, g, log⟩ := x
        have hcontent : (Feed.content f').length =
          (Feed.content f).length - (size - body.length) := by
          rw [hrest, length_drop]
        refine ⟨⟨fun h => ?_, fun h => ?_, ?_, ?_⟩, ?_⟩
        · have := hspec.arrived (by omega)
          rw [this, hlen, append_assoc, hrest, ← take_add,
            show size - body.length + (n - size) = n - body.length by omega]
        · exact hspec.short (by omega)
        · have := hspec.rest
          rw [hlen, hrest, drop_drop,
            show size - body.length + (n - size) = n - body.length by omega] at this
          exact this
        · have hb := hspec.bounded
          rw [hlen] at hb
          refine Bounded.got ?_
          rw [hnew]
          exact hb.alloc (by omega)
        · have hsum : unpooled (.got ((Feed.content f).take (size - body.length)).length ::
              .alloc next false :: log) = next + unpooled log := by
            simp [unpooled, BodyEvent.unpooled]
          -- The last buffer is of `n` bytes; before it they were four times as large each.
          have hlast := hcost.last
          have hgrown := hcost.grown
          simp only at hlast hgrown
          constructor <;> rw [hsum] <;> omega

theorem acquireBuf_small {n : ℕ} (hn : n ≤ 65536) :
    ∃ cap, acquireBuf n = .alloc cap true ∧ cap ≤ 65536 := by
  have hfind : (bufClasses.find? (n ≤ ·)).isSome = true := by
    rw [List.find?_isSome]
    exact ⟨65536, by decide, decide_eq_true hn⟩
  obtain ⟨cap, hcap⟩ := Option.isSome_iff_exists.mp hfind
  refine ⟨cap, by rw [acquireBuf, hcap], ?_⟩
  have hall : ∀ c ∈ bufClasses, c ≤ 65536 := by decide
  exact hall cap (List.mem_of_find?_eq_some hcap)

/-- For every declared length and every reader, whatever the chunks and wherever it fails or ends:
`readBody` returns the next `n` bytes of the stream and leaves the rest, or an error when fewer
arrive; no buffer is ever larger than 64 KiB and than eight times what has arrived; and the
buffers that are not pooled, of a body above 64 KiB, add up to less than `5 n / 3`. -/
theorem body_reads_bounded (n : ℕ) (f : Feed) :
    (if n ≤ (Feed.content f).length then (readBodyLog n f).1 = .ok ((Feed.content f).take n)
      else ∃ e, (readBodyLog n f).1 = .error e) ∧
    Feed.content (readBodyLog n f).2.1 = (Feed.content f).drop n ∧
    Bounded 0 (readBodyLog n f).2.2 ∧
    (65536 < n → 3 * unpooled (readBodyLog n f).2.2 < 5 * n) := by
  by_cases hsmall : n ≤ 65536
  · obtain ⟨err, f', hread, herr, hrest⟩ := readFull_spec f n
    obtain ⟨cap, halloc, hcap⟩ := acquireBuf_small hsmall
    have hbounded : ∀ m, Bounded 0 [.alloc cap true, .got m] := fun m =>
      (Bounded.nil _).got.alloc (by omega)
    rw [show readBodyLog n f = _ from if_pos hsmall, hread, halloc]
    cases err with
    | none =>
      rw [if_pos (herr.mp rfl)]
      exact ⟨rfl, hrest, hbounded _, fun h => absurd hsmall (Nat.not_le_of_lt h)⟩
    | some e =>
      rw [if_neg fun h => by cases herr.mpr h]
      exact ⟨⟨e, rfl⟩, hrest, hbounded _, fun h => absurd hsmall (Nat.not_le_of_lt h)⟩
  · obtain ⟨hspec, hcost⟩ := readLargeBodyLog_spec (n := n) n [] largeBodyChunk f (Nat.zero_le _)
      (Nat.le_of_not_le hsmall) le_rfl (by unfold largeBodyChunk; omega)
    have hlog : readBodyLog n f = ((readLargeBodyLog n n [] largeBodyChunk f).1,
        (readLargeBodyLog n n [] largeBodyChunk f).2.1, .alloc 65536 true ::
          (readLargeBodyLog n n [] largeBodyChunk f).2.2) := if_neg hsmall
    generalize readLargeBodyLog n n [] largeBodyChunk f = x at hspec hcost hlog
    rw [hlog]
    refine ⟨?_, hspec.rest, hspec.bounded.alloc (by omega), fun _ => ?_⟩
    · split
      · rename_i hle
        have hres := hspec.arrived (by simpa using hle)
        rwa [List.nil_append] at hres
      · rename_i hlt
        exact hspec.short (by simpa using hlt)
    · have htotal := hcost.total
      simpa [unpooled, BodyEvent.unpooled] using htotal

end Mqttv5.Guarantees.Wire
