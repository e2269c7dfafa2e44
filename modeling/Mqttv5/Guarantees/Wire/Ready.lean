import Mqttv5.Analysis.Wire.Reading
import Mqttv5.Program.ReadLoop

/-!
# Acknowledgements leave before the read loop waits

`Ready` looks at the first bytes of the buffer and trusts the length they declare, `ReadPacket`
reads byte by byte and takes a large body past the buffer. They agree: a packet `Ready` sees is
read from the buffer alone. So a round of `readLoop` that waits for input has just sent what the
packets before it made ready.
-/

set_option autoImplicit false

namespace Mqttv5.Guarantees.Wire

open Analysis.Wire
open Interface.Wire
open Model (Bytes)
open Model.Wire
open Program
open Program.Wire List

/-- A whole packet is buffered: a first byte, a Remaining Length of at most four bytes, and as
many bytes as that says. -/
def HoldsPacket (d : Decoder) : Prop :=
  ∃ (first : UInt8) (length body rest : Bytes), d.br.buf = first :: length ++ body ++ rest ∧
    length.length ≤ 4 ∧ Groups length body.length

/-- The next `ReadPacket` does not read from the connection: it returns the same whatever that
would deliver, and leaves it to be delivered. -/
def ReadsNothing (d : Decoder) : Prop :=
  ∀ src, readPacket (behind d src) = ((readPacket d).1, behind (readPacket d).2 src)

/-- The first four bytes decide what all of them would. -/
theorem decodeVarint_peek (b : Bytes) (size k : ℕ) :
    decodeVarint (b.take maxVarintBytes) = some (size, k) ↔ decodeVarint b = some (size, k) := by
  constructor
  · intro h
    have hk := decodeVarint_length h
    have := decodeVarint_take h (b.drop k)
    rwa [take_take, Nat.min_eq_left hk.2.2, take_append_drop] at this
  · intro h
    have hk := decodeVarint_length h
    have := decodeVarint_take h ((b.take maxVarintBytes).drop k)
    rwa [← Nat.min_eq_left hk.2.2, ← take_take, Nat.min_eq_left hk.2.2,
      take_append_drop] at this

/-- `Ready` looks for a Remaining Length after the first byte, and for the body it declares. -/
theorem ready_iff_decodeVarint (d : Decoder) : d.ready = true ↔
    ∃ first tail size k, d.br.buf = first :: tail ∧ decodeVarint tail = some (size, k) ∧
      k + size ≤ tail.length := by
  unfold Decoder.ready
  cases hbuf : d.br.buf with
  | nil => simp
  | cons first tail =>
    have hpeek : ((first :: tail).take (min (first :: tail).length (1 + maxVarintBytes))).drop 1 =
        tail.take maxVarintBytes := by
      rw [length_cons, Nat.add_comm 1 maxVarintBytes, Nat.add_min_add_right,
        take_succ_cons, drop_one, tail_cons, Nat.min_comm, ← take_take,
        take_length]
    simp only [hpeek]
    constructor
    · intro h
      split at h
      · cases h
      · cases hd : decodeVarint (tail.take maxVarintBytes) with
        | none =>
          rw [hd] at h
          cases h
        | some d =>
          rw [hd] at h
          have := of_decide_eq_true h
          rw [length_cons] at this
          exact ⟨first, tail, d.1, d.2, rfl, (decodeVarint_peek _ _ _).mp hd, by omega⟩
    · rintro ⟨first', tail', size, k, heq, hd, hle⟩
      obtain ⟨rfl, rfl⟩ := List.cons.inj heq
      have hk := decodeVarint_length hd
      rw [if_neg (by rw [length_cons]; omega), (decodeVarint_peek _ _ _).mpr hd]
      exact decide_eq_true (by rw [length_cons]; omega)

/-- `Ready` is exact. -/
theorem ready_iff_holdsPacket (d : Decoder) : d.ready = true ↔ HoldsPacket d := by
  rw [ready_iff_decodeVarint]
  constructor
  · rintro ⟨first, tail, size, k, hbuf, hd, hle⟩
    obtain ⟨e, t, rfl, hg, he, rfl⟩ := decodeVarint_iff.mp hd
    rw [length_append] at hle
    have hbody : (t.take size).length = size := by
      rw [length_take]
      omega
    refine ⟨first, e, t.take size, t.drop size, ?_, he, by rwa [hbody]⟩
    rw [hbuf, append_assoc, take_append_drop, cons_append]
  · rintro ⟨first, e, body, rest, hbuf, he, hg⟩
    rw [append_assoc] at hbuf
    exact ⟨first, e ++ (body ++ rest), body.length, e.length, hbuf,
      decodeVarint_iff.mpr ⟨e, _, rfl, hg, he, rfl⟩, by simp⟩

/-- After the header `ReadPacket` takes the body, or nothing. -/
theorem outcome_le (d : Decoder) (first : UInt8) (size k : ℕ) (rest : Bytes) :
    (outcome d first size k rest).2 ≤ size := by
  unfold outcome
  split
  · exact Nat.zero_le _
  · split
    · exact Nat.zero_le _
    · exact le_rfl

/-- A packet that `Ready` sees is read, or refused, from the buffer alone. -/
theorem ready_readsNothing {d : Decoder} (h : d.ready = true) : ReadsNothing d := by
  obtain ⟨first, tail, size, k, hbuf, hd, hle⟩ := (ready_iff_decodeVarint d).mp h
  have hread : ∀ src, readPacket (behind d src) = ((outcome d first size k (tail.drop k)).1,
      behind { d with br := { d.br with
        buf := tail.drop (k + (outcome d first size k (tail.drop k)).2) } } src) := by
    intro src
    -- What the connection delivers comes after the packet.
    have hcontent : (behind d src).br.content = first :: (tail ++ src.flatMap Subtype.val) := by
      show d.br.buf ++ src.flatMap Subtype.val = _
      rw [hbuf, cons_append]
    have hv : decodeVarint (tail ++ src.flatMap Subtype.val) = some (size, k) := by
      obtain ⟨e, t, rfl, hg, he, rfl⟩ := decodeVarint_iff.mp hd
      exact decodeVarint_iff.mpr ⟨e, _, append_assoc _ _ _, hg, he, rfl⟩
    have hsame : outcome (behind d src) first size k ((tail ++ src.flatMap Subtype.val).drop k) =
        outcome d first size k (tail.drop k) := by
      have hlen : size ≤ (tail.drop k).length := by
        rw [length_drop]
        omega
      rw [drop_append_of_le_length (by omega)]
      simp only [outcome, behind, take_append_of_le_length hlen, length_append,
        if_pos hlen, if_pos (Nat.le_add_right_of_le hlen)]
    obtain ⟨r', hstep, htook⟩ := readPacket_eq hcontent hv
    rw [hsame] at hstep htook
    have hshort := outcome_le d first size k (tail.drop k)
    obtain rfl := htook.buffered (by
      show _ ≤ d.br.buf.length
      rw [hbuf, length_cons]
      omega)
    have hdrop : ∀ x, (first :: tail).drop (1 + k + x) = tail.drop (k + x) := fun x => by
      rw [Nat.add_assoc, Nat.add_comm 1, drop_succ_cons]
    rw [hstep]
    simp only [behind, hbuf, hdrop]
  intro src
  have hself := hread d.br.src
  rw [show behind d d.br.src = d from rfl] at hself
  rw [hread src, hself]
  rfl

/-- A call of `ReadPacket` that reads from the connection comes right after `sendReady`. -/
theorem readLoop_sends_first (sources : List Source) : ∀ (d d' : Decoder) (before after),
    readLoop sources d = before ++ .readPacket d' :: after → ¬ReadsNothing d' →
    ∃ earlier, before = earlier ++ [.sendReady] := by
  induction sources with
  | nil => intro d d' before after h; simp [readLoop] at h
  | cons src sources ih =>
    intro d d' before after h hreads
    -- What comes after the call of this round are calls of later ones.
    obtain ⟨later, hround, hlater⟩ : ∃ later, readLoop (src :: sources) d =
        (if !(behind d src).ready then [.sendReady] else []) ++ .readPacket
          (behind d src) :: later ∧
          ∀ before, later = before ++ .readPacket d' :: after →
            ∃ earlier, before = earlier ++ [.sendReady] := by
      rw [readLoop]
      refine ⟨_, rfl, ?_⟩
      intro before h
      split at h
      · cases before with
        | nil => split at h <;> cases h
        | cons c before => simp at h
      · cases before with
        | nil => cases h
        | cons c before =>
          obtain ⟨earlier, rfl⟩ := ih _ d' before after (List.cons.inj h).2 hreads
          exact ⟨c :: earlier, rfl⟩
    rw [hround] at h
    cases hready : (behind d src).ready with
    | true =>
      rw [hready] at h
      cases before with
      | nil =>
        cases h
        exact absurd (ready_readsNothing hready) hreads
      | cons c before =>
        obtain ⟨earlier, rfl⟩ := hlater before (List.cons.inj h).2
        exact ⟨c :: earlier, rfl⟩
    | false =>
      rw [hready] at h
      cases before with
      | nil => cases h
      | cons c before =>
        obtain ⟨rfl, htail⟩ := List.cons.inj h
        cases before with
        | nil => exact ⟨[], rfl⟩
        | cons c before =>
          obtain ⟨earlier, rfl⟩ := hlater before (List.cons.inj htail).2
          exact ⟨_ :: c :: earlier, rfl⟩

/-- `Ready` says whether a whole packet is buffered; the `ReadPacket` after a `Ready` that says
so reads nothing from the connection; and one of `readLoop` that does comes right after a
`sendReady`, so with nothing dispatched in between. -/
theorem ready_exact :
    (∀ d : Decoder, d.ready = true ↔ HoldsPacket d) ∧
      (∀ d : Decoder, d.ready = true → ReadsNothing d) ∧
      ∀ (sources : List Source) (d d' : Decoder) (before after : List LoopCall),
        readLoop sources d = before ++ .readPacket d' :: after → ¬ReadsNothing d' →
        ∃ earlier, before = earlier ++ [.sendReady] :=
  ⟨ready_iff_holdsPacket, fun _ => ready_readsNothing, readLoop_sends_first⟩

end Mqttv5.Guarantees.Wire
