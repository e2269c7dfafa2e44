import Mqttv5.Analysis.QueueItems
import Mqttv5.Computation.Transition
import Mqttv5.Guarantees.Wire.RoundTrip

/-!
# The file queue is the queue it is meant to be

The file queue runs beside the abstract queue of `Interface.Fifo`, both told the same. In every
state the pairs of the entries bucket are the items of the abstract queue, both counts are their
number, and what an operation returns is what the abstract queue returns.

A time is stored as an int64 of nanoseconds, which ends in the year 2262: an entry with a later
expiry, as a long TTL gives it, is read back with a time long past.
-/

set_option autoImplicit false

namespace Mqttv5.Guarantees

open Analysis Mqttv5.Computation Interface Program Program.FileQueue
open Model (Bytes Time)
open List hiding lookup

variable {v : Bytes} {e : QueueEntry} {q : Queue}

/-! ### An entry is read back as it was

The value of an entry nests the PUBLISH packet of its message. The packet is read back by the
round trip of the codec, as far as bbolt stores the value at all. -/

section Entries

open Model.Wire
open Program.Wire (encodeVarint toUint32 marshalPublish encodeWhole
  validatePublishOpts readPacket)
open Interface.Wire (send writtenBody publishFrame)

/-- The time, if there is one, is within the int64 nanosecond range. -/
def InRange (t : Option Time) : Prop := ∀ n, t = some n → -2 ^ 63 ≤ n ∧ n < 2 ^ 63

theorem entryFlags_read (a b : Bool) : ((FileQueue.flags a b &&& 1 ≠ 0) ↔ a = true) ∧
    ((FileQueue.flags a b &&& 2 ≠ 0) ↔ b = true) := by
  revert a b
  decide

theorem time_read {t : Option Time} (h : InRange t) (rest : Bytes) :
    ∃ v, optionalField t.isSome 8 "time" (timeBytes t ++ rest) = .ok (v, rest) ∧
      v.map (fun b => ofUnixNano (ofBigEndian b)) = t := by
  cases t with
  | none => exact ⟨none, rfl, rfl⟩
  | some n =>
    obtain ⟨hlow, hhigh⟩ := h n rfl
    refine ⟨some (bigEndian 8 (unixNano n)), optionalField_present _ _ (length_bigEndian _ _), ?_⟩
    rw [Option.map_some, ofUnixNano_unixNano hlow hhigh]

theorem id_read {id : Bytes} (hlen : id.length ≤ 255) (rest : Bytes) :
    idField ((.ofNat id.length :: id) ++ rest) = .ok (id, rest) := by
  have hn : (UInt8.ofNat id.length).toNat = id.length := by
    rw [UInt8.toNat_ofNat']
    omega
  have hroom : ¬ (id ++ rest).length < id.length := by
    rw [length_append]
    omega
  simp only [cons_append, idField, hn, hroom, if_false, take_left' rfl,
    drop_left' rfl]

theorem frameDecoder_content (frame : Bytes) : (frameDecoder frame).br.content = frame := by
  unfold frameDecoder Reader.content
  by_cases h : frame = []
  · simp [h]
  · simp [h]

/-- INTERNAL: **A packet that was encoded, and fits, is read back.** The length of a packet is
written as a `uint32`; one that wraps around is longer than any value bbolt stores. -/
theorem decodePublish_encodePublish {o : PublishOptions} {frame : Bytes}
    (h : FileQueue.encodePublish o 1 = .ok frame) (hlen : frame.length ≤ maxValueSize) :
    ∃ id, FileQueue.decodePublish frame = .ok (o, id) := by
  obtain ⟨w, hw⟩ : ∃ w, o.wire 1 = w := ⟨_, rfl⟩
  unfold FileQueue.encodePublish at h
  rw [hw, marshalPublish] at h
  cases hvalid : validatePublishOpts w with
  | error err =>
    rw [encodeWhole, hvalid] at h
    cases h
  | ok _ =>
    rw [Wire.encodeWhole_eq hvalid, send] at h
    cases hvbi : encodeVarint (toUint32 (writtenBody (publishFrame w).items).length) with
    | error err =>
      rw [hvbi] at h
      cases h
    | ok vbi =>
      rw [hvbi] at h
      obtain rfl : (publishFrame w).first :: vbi ++ writtenBody (publishFrame w).items = frame := by
        have hframe := Except.ok.inj h
        rw [← hframe]
        simp only [map_map, Function.comp_def, Option.getD_some, map_id']
      have hbody : (writtenBody (publishFrame w).items).length ≤ Program.Wire.maxVarintValue := by
        rw [length_append] at hlen
        by_contra hgt
        have hsmall : toUint32 (writtenBody (publishFrame w).items).length =
            (writtenBody (publishFrame w).items).length := by
          unfold maxValueSize at hlen
          unfold toUint32
          omega
        rw [hsmall, Wire.encodeVarint_of_gt (by omega)] at hvbi
        cases hvbi
      have hback := Wire.publish_readsBack (P := (· = .publish (Wire.publishOf w))) hvalid
        (by rw [← Wire.writtenBody_eq hbody]; exact hbody) rfl
      have hbytes : (publishFrame w).bytes =
          (publishFrame w).first :: vbi ++ writtenBody (publishFrame w).items := by
        have hsend := Wire.send_of_le hbody
        rw [send, hvbi] at hsend
        exact (map_injective_iff.mpr (Option.some_injective _) (Except.ok.inj hsend)).symm
      obtain ⟨p, hp, -, rfl⟩ := hback (frameDecoder _) [] rfl rfl
        (by rw [frameDecoder_content, append_nil])
      rw [← hbytes]
      refine ⟨(Wire.carried w).packetID, ?_⟩
      unfold FileQueue.decodePublish
      rw [hp]
      simp only [Wire.publishOf_opts hvalid]
      subst hw
      rfl

/-- INTERNAL: **An entry is read back with every field as enqueued**, under its Seq. -/
theorem decodeEntry_encodeEntry (h : encodeEntry e = .ok v)
    (hlen : v.length ≤ maxValueSize) (henq : InRange e.enqueuedAt) (hexp : InRange e.expiresAt)
    (seq : UInt64) : decodeEntry (seqKey seq) v = .ok { e with seq := seq } := by
  unfold encodeEntry at h
  split at h
  · cases h
  rename_i hid
  cases hframe : FileQueue.encodePublish e.publish 1 with
  | error err =>
    rw [hframe] at h
    cases h
  | ok frame =>
    rw [hframe] at h
    replace h := Except.ok.inj h
    obtain ⟨hf1, hf2⟩ := entryFlags_read e.enqueuedAt.isSome e.expiresAt.isSome
    generalize FileQueue.flags e.enqueuedAt.isSome e.expiresAt.isSome = fl at h hf1 hf2
    generalize htail : timeBytes e.enqueuedAt ++ (timeBytes e.expiresAt ++
      ((.ofNat e.id.length :: e.id) ++ frame)) = tail at h
    subst h
    have hlong : frame.length < tail.length := by
      rw [← htail]
      simp only [length_append, length_cons]
      omega
    obtain ⟨id, hpub⟩ := decodePublish_encodePublish hframe (by
      have hsize : (sealValue ([entryVersion, fl] ++ tail)).length = tail.length + 6 := by
        simp only [sealValue, length_append, length_bigEndian, length_cons,
          length_nil]
        omega
      omega)
    have hlayout : ¬ (([entryVersion, fl] ++ tail).length < 3 ∨
        ([entryVersion, fl] ++ tail).getD 0 0 ≠ entryVersion) := by
      rintro (hcon | hcon)
      · rw [length_append, length_cons, length_cons, length_nil] at hcon
        omega
      · exact hcon rfl
    have hflags : ([entryVersion, fl] ++ tail).getD 1 0 = fl := rfl
    have hdrop : ([entryVersion, fl] ++ tail).drop 2 = tail := rfl
    have hd1 : decide (fl &&& 1 ≠ 0) = e.enqueuedAt.isSome := by
      simp only [hf1, Bool.decide_eq_true]
    have hd2 : decide (fl &&& 2 ≠ 0) = e.expiresAt.isSome := by
      simp only [hf2, Bool.decide_eq_true]
    obtain ⟨enq, henqr, henqv⟩ := time_read henq (timeBytes e.expiresAt ++
      ((.ofNat e.id.length :: e.id) ++ frame))
    rw [htail] at henqr
    obtain ⟨exp, hexpr, hexpv⟩ := time_read hexp ((.ofNat e.id.length :: e.id) ++ frame)
    have hheader : decodeHeader (sealValue ([entryVersion, fl] ++ tail)) =
        .ok (e.enqueuedAt, e.expiresAt, e.id, frame) := by
      unfold decodeHeader
      simp only [unsealValue_sealValue, bind, Except.bind, pure, Except.pure, hlayout, if_false,
        hflags, hdrop, hd1, hd2, henqr, hexpr, id_read (Nat.le_of_not_lt hid), henqv,
        hexpv]
    unfold decodeEntry
    rw [if_neg (by rw [seqKey, length_bigEndian]; exact fun hcon => hcon rfl), hheader]
    simp only [hpub, seqKey, ofNat_bigEndian]

end Entries

/-! ### The two queues -/

/-- The file queue, the abstract queue, and the Seqs the file queue has returned. -/
structure Queues where
  file : Queue := {}
  fifo : Fifo QueueEntry := {}
  assigned : List UInt64 := []

inductive QueueOp
  | enqueue (e : QueueEntry) (limit : QueueLimit)
  | peek (after : UInt64) (n : ℤ)
  | ack (seq : UInt64)
  | damage (seq : UInt64) (v : Bytes)
  | close
  | reopen

/-- The abstract queue is asked to add an entry under a limit. -/
def enqueueUnder (f : Fifo QueueEntry) (e : QueueEntry) (limit : QueueLimit) :
    Option (Fifo QueueEntry × ℕ × List QueueEntry) :=
  f.enqueue (fun n => { e with seq := .ofNat n }) limit.max.toNat (limit.policy = .dropOldest)
    limit.keep.toNat

/-- Both queues are told the same. An operation that fails changes nothing. -/
def Queues.step (s : Queues) : QueueOp → Option Queues
  | .enqueue e limit => some <| match s.file.enqueue e limit with
    | .error _ => s
    | .ok (q, seq, _) =>
      { file := q
        fifo := (enqueueUnder s.fifo e limit).elim s.fifo (·.1)
        assigned := seq :: s.assigned }
  | .peek after n => some <| match s.file.peek after n with
    | .error _ => s
    | .ok (q, _) => { s with file := q, fifo := (s.fifo.peek after.toNat n.toNat).1 }
  | .ack seq => some <| match s.file.ack seq with
    | .error _ => s
    | .ok q => { s with file := q, fifo := s.fifo.remove seq.toNat }
  | .damage seq v => some
      { s with file := s.file.damage seq v, fifo := s.fifo.damage seq.toNat }
  | .close => some { s with file := s.file.close }
  | .reopen => some { s with file := s.file.reopen }

/-- The marks are 0 or Seqs the queue returned, and damage shows in the checksum. The times of an
entry are within the int64 nanosecond range, and the Seqs have not come to their end. -/
def Fitting (s : Queues) : QueueOp → Prop
  | .enqueue e limit => InRange e.enqueuedAt ∧ InRange e.expiresAt ∧
      (limit.keep = 0 ∨ limit.keep ∈ s.assigned) ∧ s.fifo.last + 2 < 2 ^ 64
  | .peek after _ => after = 0 ∨ after ∈ s.assigned
  | .damage _ v => unsealValue v = .error .tooShort ∨ unsealValue v = .error .checksum
  | _ => True

/-- Whether the queue is closed after an operation. -/
def closedAfter (closed : Bool) : QueueOp → Bool
  | .close => true
  | .reopen => false
  | _ => closed

/-- The entry can be encoded, and bbolt stores values of its size. -/
def Storable (e : QueueEntry) : Prop := ∃ v, encodeEntry e = .ok v ∧ v.length ≤ maxValueSize

/-- The file queue holds the items of the abstract queue. -/
structure Refines (s : Queues) : Prop where
  kept : Tallied s.file
  items : itemsOf s.file = s.fifo.items
  last : lastSeq s.file = s.fifo.last
  quarantine : ∀ k, (FiniteMap.get s.file.quarantine k).isSome ↔
    k ∈ s.fifo.quarantined.map (bigEndian 8)
  assigned : ∀ a ∈ s.assigned, a.toNat ≤ s.fifo.last

/-- INTERNAL: The Seqs of the pairs that are corrupt are those of the items that are damaged. -/
theorem corrupt_seqs (h : Tallied q) {l : List (Bytes × Bytes)}
    (hl : ∀ x ∈ l, x ∈ q.entries.entries) :
    (l.filterMap corruptOf).map (fun b => b.seq.toNat) = Fifo.damagedIn (l.map itemOf) := by
  rw [Fifo.damagedIn, map_filterMap, filterMap_map]
  refine filterMap_congr fun x hx => ?_
  cases hdec : decodeEntry x.1 x.2 with
  | error err =>
    have hcorrupt : corruptOf x = some ⟨.ofNat (ofBigEndian x.1), err, x.2⟩ := by
      rw [corruptOf, hdec]
    have hentry : entryOf x = none := by rw [entryOf, hdec, Except.toOption]
    have hseq := (h.seqKey_corruptOf (hl x hx) hcorrupt).2
    rw [hcorrupt, Option.map_some, hseq, Function.comp_apply]
    simp only [itemOf, hentry, Option.isNone_none, if_true]
  | ok e =>
    have hcorrupt : corruptOf x = none := by rw [corruptOf, hdec]
    have hentry : entryOf x = some e := by rw [entryOf, hdec, Except.toOption]
    rw [hcorrupt, Option.map_none, Function.comp_apply]
    simp only [itemOf, hentry, Option.isNone_some, Bool.false_eq_true, if_false]

/-- INTERNAL: What is put in quarantine is what the abstract queue puts there. -/
theorem quarantine_setAll {b : Bucket} {seqs : List ℕ} {bad : List CorruptEntry}
    (h : ∀ k, (FiniteMap.get b k).isSome ↔ k ∈ seqs.map (bigEndian 8)) (k : Bytes) :
    (FiniteMap.get (setAll bad b) k).isSome ↔
      k ∈ (seqs ++ bad.map fun x => x.seq.toNat).map (bigEndian 8) := by
  rw [get_setAll, h, map_append, mem_append, map_map]
  rfl

theorem le_of_insert {removed : List (Bytes × Bytes)}
    {r : Queue × UInt64 × List QueueEntry} (h : q.insert v removed = .ok r) :
    v.length ≤ maxValueSize := by
  unfold Queue.insert at h
  simp only at h
  split at h
  · cases h
  · rename_i hle
    exact Nat.le_of_not_lt hle

/-- INTERNAL: What an open queue takes. -/
theorem storable_of_enqueue {limit : QueueLimit}
    {r : Queue × UInt64 × List QueueEntry} (h : q.enqueue e limit = .ok r) :
    q.closed = false ∧ Storable e := by
  unfold Queue.enqueue at h
  split at h
  · cases h
  rename_i hopen
  refine ⟨Bool.eq_false_of_not_eq_true hopen, ?_⟩
  cases hv : encodeEntry e with
  | error err =>
    rw [hv] at h
    cases h
  | ok v =>
    rw [hv] at h
    refine ⟨v, hv, ?_⟩
    replace h : q.enqueueTx v limit = .ok r := h
    unfold Queue.enqueueTx at h
    simp only at h
    split at h
    · split at h
      · cases h
      split at h
      · cases h
      exact le_of_insert h
    · exact le_of_insert h

/-- INTERNAL: A value whose checksum is wrong is no entry. -/
theorem damaged_entry (seq : UInt64)
    (h : unsealValue v = .error .tooShort ∨ unsealValue v = .error .checksum) :
    entryOf (seqKey seq, v) = none := by
  obtain ⟨err, herr⟩ : ∃ err, decodeHeader v = .error err := by
    unfold decodeHeader
    rcases h with h | h
    · exact ⟨.tooShort, by rw [h]; rfl⟩
    · exact ⟨.checksum, by rw [h]; rfl⟩
  unfold entryOf decodeEntry
  rw [herr]
  split
  · rfl
  · rfl

namespace Refines

variable {s : Queues}

section

variable (h : Refines s)
include h

theorem mark_le {mark : UInt64} (hmark : mark = 0 ∨ mark ∈ s.assigned) :
    mark.toNat ≤ lastSeq s.file := by
  rw [h.last]
  rcases hmark with rfl | hmem
  · exact Nat.zero_le _
  · exact h.assigned _ hmem

/-- INTERNAL: **An Enqueue of the file queue is one of the abstract queue**: both refuse, or both
add the entry under the same Seq and return the same evicted entries. -/
theorem enqueue {limit : QueueLimit}
    (hfit : Fitting s (.enqueue e limit)) (hopen : s.file.closed = false)
    (hv : encodeEntry e = .ok v) (hlen : v.length ≤ maxValueSize) :
    enqueueUnder s.fifo e limit = none ∧ s.file.enqueue e limit = .error .full ∨
    ∃ f q ev, enqueueUnder s.fifo e limit = some (f, s.fifo.last + 1, ev) ∧
      s.file.enqueue e limit = .ok (q, .ofNat (s.fifo.last + 1), ev) ∧
      q.closed = false ∧
      Refines ⟨q, f, .ofNat (s.fifo.last + 1) :: s.assigned⟩ := by
  obtain ⟨henq, hexp, hkeep, hroom⟩ := hfit
  have hfile : s.file.enqueue e limit = s.file.enqueueTx v limit := by
    unfold Queue.enqueue
    rw [hopen, hv]
    rfl
  have hentry : entryOf (bigEndian 8 (lastSeq s.file + 1), v) =
      some { e with seq := .ofNat (s.fifo.last + 1) } := by
    have hkey : seqKey (.ofNat (s.fifo.last + 1)) = bigEndian 8 (lastSeq s.file + 1) := by
      rw [seqKey, h.last, UInt64.toNat_ofNat', Nat.mod_eq_of_lt (by omega)]
    rw [← hkey, entryOf, decodeEntry_encodeEntry hv hlen henq hexp, Except.toOption]
  have hcount : (getUint s.file.metaData keyCount).toNat = s.fifo.items.length := by
    rw [← h.items, length_itemsOf]
    exact h.kept.count
  -- With the victims chosen, the insertion is the same on both sides.
  have hinsert : ∀ victims, victims.Sublist s.file.entries.entries →
      ∃ q, (s.file.evict victims).insert v victims =
          .ok (q, .ofNat (s.fifo.last + 1), (victims.map itemOf).filterMap QueueItem.entry) ∧
        q.closed = false ∧
        Refines ⟨q, s.fifo.push (fun n => { e with seq := .ofNat n }) (victims.map itemOf),
          .ofNat (s.fifo.last + 1) :: s.assigned⟩ := by
    intro victims hvictims
    obtain ⟨q, hok, hkept, hlast, hclosed, hquar, hitems⟩ :=
      h.kept.insert hvictims (by rw [h.last]; exact hroom) hlen
    refine ⟨q, ?_, hclosed.trans hopen, ⟨hkept, ?_, ?_, ?_, ?_⟩⟩
    · rw [hok, h.last, filterMap_map]
      rfl
    · rw [hitems, hentry, h.items, h.last]
      rfl
    · rw [hlast, h.last]
      rfl
    · intro k
      have hseqs := corrupt_seqs h.kept fun x hx => hvictims.subset hx
      change (FiniteMap.get q.quarantine k).isSome ↔
        k ∈ (s.fifo.quarantined ++ Fifo.damagedIn (victims.map itemOf)).map (bigEndian 8)
      rw [hquar, quarantine_setAll h.quarantine, hseqs]
    · intro a ha
      change a.toNat ≤ s.fifo.last + 1
      rcases mem_cons.mp ha with rfl | ha
      · rw [UInt64.toNat_ofNat', Nat.mod_eq_of_lt (by omega)]
      · have hle := h.assigned a ha
        omega
  have hvictims : ((seek s.file.entries (seqKey (limit.keep + 1))).take
      (s.fifo.items.length - limit.max.toNat + 1)).map itemOf =
        s.fifo.victims limit.max.toNat limit.keep.toNat := by
    rw [map_take, h.kept.seek_items (h.mark_le hkeep), h.items]
    rfl
  have hvlen := congrArg List.length hvictims
  rw [length_map] at hvlen
  unfold enqueueUnder Fifo.enqueue
  rw [hfile]
  unfold Queue.enqueueTx
  simp only [hcount]
  by_cases hfull : 0 < limit.max.toNat ∧ limit.max.toNat ≤ s.fifo.items.length
  · simp only [if_pos hfull]
    by_cases hpolicy : limit.policy = .dropOldest
    · by_cases hneed : (s.fifo.victims limit.max.toNat limit.keep.toNat).length =
          s.fifo.items.length - limit.max.toNat + 1
      · have hsub : ((seek s.file.entries (seqKey (limit.keep + 1))).take
            (s.fifo.items.length - limit.max.toNat + 1)).Sublist s.file.entries.entries :=
          (take_sublist _ _).trans filter_sublist
        obtain ⟨q, hok, hclosed, href⟩ := hinsert _ hsub
        rw [hvictims] at hok href
        refine .inr ⟨_, q, _, if_pos ⟨decide_eq_true hpolicy, hneed⟩, ?_, hclosed, href⟩
        rw [if_neg (fun hne => hne hpolicy), if_neg (by omega)]
        exact hok
      · have hless : (s.fifo.victims limit.max.toNat limit.keep.toNat).length <
            s.fifo.items.length - limit.max.toNat + 1 := by
          have hle : (s.fifo.victims limit.max.toNat limit.keep.toNat).length ≤
              s.fifo.items.length - limit.max.toNat + 1 := length_take_le _ _
          omega
        refine .inl ⟨if_neg fun hcon => hneed hcon.2, ?_⟩
        rw [if_neg (fun hne => hne hpolicy), if_pos (by omega)]
    · refine .inl ⟨if_neg fun hcon => hpolicy (of_decide_eq_true hcon.1), ?_⟩
      rw [if_pos hpolicy]
  · simp only [if_neg hfull]
    obtain ⟨q, hok, hclosed, href⟩ := hinsert [] (nil_sublist _)
    exact .inr ⟨_, q, _, rfl, hok, hclosed, href⟩

/-- INTERNAL: **A Peek of the file queue is one of the abstract queue.** -/
theorem peek {after : UInt64} {n : ℤ} (hfit : Fitting s (.peek after n))
    (hopen : s.file.closed = false) :
    ∃ q, s.file.peek after n = .ok (q, (s.fifo.peek after.toNat n.toNat).2) ∧
      Refines { s with file := q, fifo := (s.fifo.peek after.toNat n.toNat).1 } := by
  obtain ⟨l, hl⟩ : ∃ l, seek s.file.entries (seqKey (after + 1)) = l := ⟨_, rfl⟩
  have habove : l.map itemOf = s.fifo.above after.toNat := by
    rw [← hl, h.kept.seek_items (h.mark_le hfit), h.items]
    rfl
  have hmet : (Queue.scan n.toNat l).2.map (fun b => b.seq.toNat) =
      Fifo.met n.toNat (s.fifo.above after.toNat) := by
    rw [← habove]
    refine scan_met fun x hx b hb => ?_
    rw [← hl] at hx
    exact (h.kept.seqKey_corruptOf (Tallied.seek_subset hx) hb).2
  have hout : (Queue.scan n.toNat l).1 = (s.fifo.peek after.toNat n.toNat).2 := by
    rw [scan_out, Fifo.peek, ← habove, filterMap_map]
    rfl
  have hsub := h.kept.scan_there after n.toNat
  simp only [hl] at hsub
  obtain ⟨hkept, hlast, -, hquar, hitems⟩ := h.kept.quarantineAll
    (h.kept.seqs_nodup.sublist hsub) (fun m hm => hsub.subset hm)
  have hmoved : Refines { s with
      file := s.file.quarantineAll (Queue.scan n.toNat l).2
      fifo := (s.fifo.peek after.toNat n.toNat).1 } := by
    refine ⟨hkept, ?_, hlast.trans h.last, fun k => ?_, h.assigned⟩
    · rw [hitems, hmet, h.items]
      rfl
    · change (FiniteMap.get (s.file.quarantineAll (Queue.scan n.toNat l).2).quarantine k).isSome ↔
        k ∈ (s.fifo.quarantined ++ Fifo.met n.toNat (s.fifo.above after.toNat)).map (bigEndian 8)
      rw [hquar, quarantine_setAll h.quarantine, hmet]
  have hpeek : s.file.peek after n = .ok (if (Queue.scan n.toNat l).2 = [] then s.file
      else s.file.quarantineAll (Queue.scan n.toNat l).2, (Queue.scan n.toNat l).1) := by
    unfold Queue.peek
    rw [hopen, hl]
    rfl
  refine ⟨_, by rw [hpeek, hout], ?_⟩
  by_cases hbad : (Queue.scan n.toNat l).2 = []
  · -- Nothing is moved, and the abstract queue is as it was.
    have hnone : Fifo.met n.toNat (s.fifo.above after.toNat) = [] := by
      rw [← hmet, hbad, map_nil]
    have hsame : (s.fifo.peek after.toNat n.toNat).1 = s.fifo := by
      simp only [Fifo.peek, hnone, Fifo.without, append_nil, not_mem_nil,
        not_false_eq_true, decide_true, filter_true]
    rw [if_pos hbad, hsame]
    exact h
  · rw [if_neg hbad]
    exact hmoved

/-- INTERNAL: Every step keeps the queues together. -/
theorem step {op : QueueOp} (hfit : Fitting s op) {t : Queues}
    (hstep : s.step op = some t) : Refines t := by
  cases op with
  | enqueue e limit =>
    cases hstep
    cases hfile : s.file.enqueue e limit with
    | error err => exact h
    | ok r =>
      obtain ⟨hopen, v, hv, hlen⟩ := storable_of_enqueue hfile
      rcases h.enqueue hfit hopen hv hlen with ⟨-, herr⟩ | ⟨f, q, ev, hspec, hok, -, href⟩
      · rw [herr] at hfile
        cases hfile
      · rw [hok] at hfile
        obtain rfl := Except.ok.inj hfile
        simp only [hspec]
        exact href
  | peek after n =>
    cases hstep
    cases hopen : s.file.closed with
    | true =>
      have herr : s.file.peek after n = .error .closed := by
        unfold Queue.peek
        rw [hopen]
        rfl
      simp only [herr]
      exact h
    | false =>
      obtain ⟨q, hok, href⟩ := h.peek hfit hopen
      simp only [hok]
      exact href
  | ack seq =>
    cases hstep
    cases hack : s.file.ack seq with
    | error err => exact h
    | ok q =>
      obtain ⟨hkept, hlast, -, hquar, hitems⟩ := h.kept.ack hack
      refine ⟨hkept, ?_, hlast.trans h.last, fun k => ?_, h.assigned⟩
      · rw [hitems, h.items]
        rfl
      · rw [hquar]
        exact h.quarantine k
  | damage seq v =>
    cases hstep
    obtain ⟨hkept, hlast, -, hquar, hitems⟩ := h.kept.damage (damaged_entry seq hfit)
    refine ⟨hkept, ?_, hlast.trans h.last, fun k => ?_, h.assigned⟩
    · rw [hitems, h.items]
      rfl
    · rw [hquar]
      exact h.quarantine k
  | close =>
    cases hstep
    exact ⟨⟨h.kept.keys, h.kept.count, h.kept.memory, h.kept.bounded, h.kept.room⟩, h.items,
      h.last, h.quarantine, h.assigned⟩
  | reopen =>
    cases hstep
    exact ⟨h.kept.reopen, h.items, h.last, h.quarantine, h.assigned⟩

/-- INTERNAL: Only Close closes the queue, and only a reopen opens it. -/
theorem closed_step {op : QueueOp} (hfit : Fitting s op) {t : Queues} (hstep : s.step op = some t) :
    t.file.closed = closedAfter s.file.closed op := by
  cases op with
  | enqueue e limit =>
    cases hstep
    cases hfile : s.file.enqueue e limit with
    | error err => rfl
    | ok r =>
      obtain ⟨hopen, v, hv, hlen⟩ := storable_of_enqueue hfile
      rcases h.enqueue hfit hopen hv hlen with ⟨-, herr⟩ | ⟨f, q, ev, hspec, hok, hclosed, -⟩
      · rw [herr] at hfile
        cases hfile
      · rw [hok] at hfile
        obtain rfl := Except.ok.inj hfile
        exact hclosed.trans hopen.symm
  | peek after n =>
    cases hstep
    unfold Queue.peek
    cases hopen : s.file.closed with
    | true => exact hopen
    | false =>
      simp only [Bool.false_eq_true, if_false]
      split
      · exact hopen
      · exact hopen
  | ack seq =>
    cases hstep
    cases hack : s.file.ack seq with
    | error err => rfl
    | ok q => exact (h.kept.ack hack).2.2.1
  | damage seq v =>
    cases hstep
    exact (h.kept.damage (damaged_entry seq hfit)).2.2.1
  | close | reopen =>
    cases hstep
    rfl

/-- INTERNAL: An Ack of an open queue succeeds and removes the entry. -/
theorem ack_ok (hopen : s.file.closed = false) (seq : UInt64) :
    ∃ q, s.file.ack seq = .ok q ∧ itemsOf q = (s.fifo.remove seq.toNat).items := by
  have hok : ∃ q, s.file.ack seq = .ok q := by
    unfold Queue.ack
    rw [hopen, if_neg Bool.false_ne_true]
    split
    · exact ⟨_, rfl⟩
    · exact ⟨_, rfl⟩
  obtain ⟨q, hack⟩ := hok
  refine ⟨q, hack, ?_⟩
  rw [(h.kept.ack hack).2.2.2.2, h.items]
  rfl

/-- INTERNAL: The items stand in the order of their Seqs. -/
theorem ordered : (s.fifo.items.map QueueItem.seq).Pairwise (· < ·) := by
  have hroom := h.kept.room
  rw [← h.items, itemsOf, map_map, pairwise_map]
  refine ((entries_sorted s.file.entries).and (entries_pairwise s.file.entries)).imp_of_mem ?_
  rintro x y hx hy ⟨hle, hne⟩
  obtain ⟨hxkey, hxle⟩ := h.kept.key_eq hx
  obtain ⟨hykey, hyle⟩ := h.kept.key_eq hy
  rw [hxkey, hykey, bigEndian_le_iff (by omega) (by omega)] at hle
  refine Nat.lt_of_le_of_ne hle fun heq => hne ?_
  rw [hxkey, hykey]
  exact congrArg _ heq

end

end Refines

/-- **The file queue is the queue it is meant to be.** In every run of Enqueue, Peek, Ack, damage
to stored values, Close and reopen whose times are in range: the pairs stored are the items of
the abstract queue in the order of their Seqs, and both counts are their number; the quarantine
holds what the abstract queue puts there. While the queue is open, an Enqueue of an entry that
can be stored is refused exactly when the abstract queue refuses it, and otherwise returns its
Seq, greater than every Seq returned before, and the entries it evicts; a Peek returns what the
abstract queue returns; an Ack succeeds and leaves all items but its own. Only Close closes the
queue, after which every call fails, and a reopen opens it with the same items. -/
theorem file_queue_is_fifo {s : Queues} (h : Reach Queues.step Fitting (· = {}) s) :
    itemsOf s.file = s.fifo.items ∧ (s.fifo.items.map QueueItem.seq).Pairwise (· < ·) ∧
    storedCount s.file = s.fifo.items.length ∧
    (∀ k, (FiniteMap.get s.file.quarantine k).isSome ↔
      k ∈ s.fifo.quarantined.map (bigEndian 8)) ∧
    (s.file.closed = false → s.file.len = .ok s.fifo.items.length ∧
      (∀ e limit, Fitting s (.enqueue e limit) → Storable e →
        (s.file.enqueue e limit).map Prod.snd = match enqueueUnder s.fifo e limit with
          | none => .error .full
          | some (_, seq, evicted) => .ok (.ofNat seq, evicted)) ∧
      (∀ e limit q seq evicted, Fitting s (.enqueue e limit) →
        s.file.enqueue e limit = .ok (q, seq, evicted) →
        Storable e ∧ ∀ a ∈ s.assigned, a < seq) ∧
      (∀ after n, Fitting s (.peek after n) → (s.file.peek after n).map Prod.snd =
        .ok (s.fifo.peek after.toNat n.toNat).2) ∧
      ∀ seq, ∃ q, s.file.ack seq = .ok q ∧ itemsOf q = (s.fifo.remove seq.toNat).items) ∧
    (∀ op t, Fitting s op → s.step op = some t →
      t.file.closed = closedAfter s.file.closed op) ∧
    (s.file.closed = true → s.file.len = .error .closed ∧
      (∀ e limit, s.file.enqueue e limit = .error .closed) ∧
      (∀ after n, s.file.peek after n = .error .closed) ∧
      ∀ seq, s.file.ack seq = .error .closed) ∧
    itemsOf s.file.reopen = s.fifo.items := by
  have href : Refines s := by
    refine h.invariant Refines ?_ fun _ _ _ hs hfit hstep => hs.step hfit hstep
    rintro _ rfl
    refine ⟨⟨?_, rfl, rfl, le_rfl, by decide⟩, rfl, rfl, ?_, ?_⟩
    · intro x hx
      cases hx
    · intro k
      simp
    · intro a ha
      cases ha
  have hcount : FiniteMap.len s.file.entries = s.fifo.items.length := by
    rw [← href.items, length_itemsOf]
  refine ⟨href.items, href.ordered, href.kept.count.trans hcount, href.quarantine, fun hopen =>
    ⟨?_, ?_, ?_, ?_, href.ack_ok hopen⟩, fun op t hfit hstep => href.closed_step hfit hstep,
    fun hclosed => ⟨if_pos hclosed, fun _ _ => if_pos hclosed, fun _ _ => if_pos hclosed,
      fun _ => if_pos hclosed⟩, href.items⟩
  · unfold Queue.len
    rw [hopen, href.kept.memory, hcount]
    rfl
  · rintro e limit hfit ⟨v, hv, hlen⟩
    rcases href.enqueue hfit hopen hv hlen with ⟨hspec, herr⟩ | ⟨f, q, ev, hspec, hok, -, -⟩
    · rw [hspec, herr]
      rfl
    · rw [hspec, hok]
      rfl
  · intro e limit q seq evicted hfit hok
    obtain ⟨-, v, hv, hlen⟩ := storable_of_enqueue hok
    refine ⟨⟨v, hv, hlen⟩, fun a ha => ?_⟩
    rcases href.enqueue hfit hopen hv hlen with ⟨-, herr⟩ | ⟨f, q', ev, -, hok', -, -⟩
    · rw [herr] at hok
      cases hok
    · rw [hok'] at hok
      obtain ⟨-, rfl, -⟩ := Prod.mk.inj (Except.ok.inj hok) |>.imp_right Prod.mk.inj
      have hle := href.assigned a ha
      have hroom := hfit.2.2.2
      rw [UInt64.lt_iff_toNat_lt, UInt64.toNat_ofNat', Nat.mod_eq_of_lt (by omega)]
      omega
  · intro after n hfit
    obtain ⟨q, hok, -⟩ := href.peek hfit hopen
    rw [hok]
    rfl

/-- A message, and an entry that carries it. -/
def reading : PublishOptions where
  topic := [0x61]
  payload := [0x62]
  qos := 1
  retain := false
  payloadFormatIndicator := none
  messageExpiryInterval := some 60
  contentType := []
  responseTopic := []
  correlationData := some []
  topicAlias := 0
  userProperties := [⟨[0x6B], []⟩]

def queued : QueueEntry := { id := [0x31], publish := reading, expiresAt := some 60 }

/-- The decidable part of `Fitting` for runs that add the entry above. -/
def fitting (s : Queues) : QueueOp → Bool
  | .enqueue e limit => e = queued ∧ (limit.keep = 0 ∨ limit.keep ∈ s.assigned) ∧
      s.fifo.last < 1000
  | .peek after _ => after = 0 ∨ after ∈ s.assigned
  | .damage _ v => v = []
  | _ => true

theorem fitting_of_check (s : Queues) (op : QueueOp) (h : fitting s op = true) :
    Fitting s op := by
  cases op with
  | enqueue e limit =>
    obtain ⟨rfl, hkeep, hlast⟩ := of_decide_eq_true h
    refine ⟨fun n hn => ?_, fun n hn => ?_, hkeep, by omega⟩
    · cases hn
    · cases hn
      decide
  | peek after n =>
    have hafter : after = 0 ∨ after ∈ s.assigned := of_decide_eq_true h
    exact hafter
  | damage seq v =>
    obtain rfl : v = [] := of_decide_eq_true h
    exact .inl rfl
  | _ => trivial

/-- Three entries, the first of which is damaged and the second kept: the fourth evicts the
third. After a Peek only the second and the fourth are stored, also once the queue is opened
again; an Ack of the second leaves the fourth. -/
theorem second_and_fourth_left : ∃ s q, execute Queues.step {}
      [.enqueue queued {}, .enqueue queued {}, .enqueue queued {}, .damage 1 [],
        .enqueue queued { max := 3, policy := .dropOldest, keep := 2 }, .peek 0 1, .close,
        .reopen] = some s ∧
      itemsOf s.file = s.fifo.items ∧ s.fifo.items.map QueueItem.seq = [2, 4] ∧
      s.file.ack 2 = .ok q ∧ (itemsOf q).map QueueItem.seq = [4] := by
  have hrun : (execute Queues.step {}
      [.enqueue queued {}, .enqueue queued {}, .enqueue queued {}, .damage 1 [],
        .enqueue queued { max := 3, policy := .dropOldest, keep := 2 }, .peek 0 1, .close,
        .reopen]).any (fun s => s.file.closed = false ∧
          s.fifo.items.map QueueItem.seq = [2, 4]) = true := by
    decide +kernel
  obtain ⟨s, hs, hP⟩ := exists_of_execute hrun
  have hreach : Reach Queues.step Fitting (· = {}) s :=
    Reach.of_execute fitting_of_check (.start rfl) (by decide +kernel) hs
  have hP := of_decide_eq_true hP
  obtain ⟨hitems, -, -, -, hopen, -⟩ := file_queue_is_fifo hreach
  obtain ⟨q, hack, hleft⟩ := (hopen hP.1).2.2.2.2 2
  refine ⟨s, q, hs, hitems, hP.2, hack, ?_⟩
  rw [hleft]
  have hseqs : ((s.fifo.remove 2).items).map QueueItem.seq =
      (s.fifo.items.map QueueItem.seq).filter fun i => i ∉ [2] := by
    rw [filter_map]
    rfl
  rw [show (2 : UInt64).toNat = 2 from rfl, hseqs, hP.2]
  decide

/-- An entry that expires in the year 2262, after the last nanosecond of an int64, is read back
as one that expired in 1677. -/
theorem late_expiry_is_past :
    ((({} : Queue).enqueue { queued with expiresAt := some (2 ^ 63) } {}).toOption.bind fun r =>
      (r.1.peek 0 1).toOption.map Prod.snd) =
      some [{ queued with seq := 1, expiresAt := some (-2 ^ 63) }] := by
  decide +kernel

end Mqttv5.Guarantees
