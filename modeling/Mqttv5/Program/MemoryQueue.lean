import Mqttv5.Computation.Search
import Mqttv5.Program.FileQueue

/-!
# The in-memory publisher queue

queue_publisher.go: a slice of entries in the order of their Seqs, of which those before `head`
are gone and those acked since are holes. The capacity of the slice is left out, and so are the
copies Enqueue and Peek make: values are not shared here.
-/

set_option autoImplicit false

namespace Mqttv5.Program

open Mqttv5.Computation Program.FileQueue

/-- The zero value of an entry, under a Seq. -/
def zeroEntry (seq : UInt64) : QueueEntry where
  seq := seq
  id := []
  publish := ⟨[], [], 0, false, none, none, [], [], none, 0, []⟩

/-- SOURCE: queue_publisher.go:672-675 -/
structure MemQueueEntry where
  e : QueueEntry := zeroEntry 0
  acked : Bool := false
  deriving DecidableEq

/-- SOURCE: queue_publisher.go:661-670 -/
structure MemoryPublisherQueue where
  closed : Bool := false
  nextSeq : UInt64 := 0
  entries : List MemQueueEntry := []
  head : ℕ := 0
  count : ℕ := 0
  deriving DecidableEq

/-- SOURCE: queue_publisher.go:778-780 -/
def hole (seq : UInt64) : MemQueueEntry := { e := zeroEntry seq, acked := true }

/-- The two loops of an eviction, over the entries from an index on: the first `need` that are
not acked are returned and leave holes.
SOURCE: queue_publisher.go:699-712 -/
def punch : (need : ℕ) → List MemQueueEntry → List QueueEntry × List MemQueueEntry
  | 0, es => ([], es)
  | _, [] => ([], [])
  | need + 1, x :: es =>
    if x.acked then
      let (evicted, rest) := punch (need + 1) es
      (evicted, x :: rest)
    else
      let (evicted, rest) := punch need es
      (x.e :: evicted, hole x.e.seq :: rest)

namespace MemoryPublisherQueue

/-- SOURCE: queue_publisher.go:772-774 -/
def search (q : MemoryPublisherQueue) (seq : UInt64) : ℕ :=
  q.head + Computation.search (q.entries.length - q.head) fun i =>
    (q.entries[q.head + i]?).any (seq < ·.e.seq)

/-- The holes at the head are dropped.
SOURCE: queue_publisher.go:787-790 -/
def advance (q : MemoryPublisherQueue) : MemoryPublisherQueue :=
  let n := ((q.entries.drop q.head).takeWhile (·.acked)).length
  { q with
    entries := q.entries.take q.head ++ List.replicate n {} ++ q.entries.drop (q.head + n)
    head := q.head + n }

/-- SOURCE: queue_publisher.go:786-806 -/
def reclaim (q : MemoryPublisherQueue) : MemoryPublisherQueue :=
  let q := q.advance
  let holes := q.entries.length - q.head - q.count
  if (q.head ≤ 1024 ∨ q.head ≤ q.entries.length / 2) ∧ (holes ≤ 64 ∨ holes ≤ q.count) then q
  else { q with entries := (q.entries.drop q.head).filter (!·.acked), head := 0 }

/-- `need` entries from an index on leave holes.
SOURCE: queue_publisher.go:709-713 -/
def evict (q : MemoryPublisherQueue) (i need : ℕ) : MemoryPublisherQueue :=
  { q with
    entries := q.entries.take i ++ (punch need (q.entries.drop i)).2
    count := q.count - (punch need (q.entries.drop i)).1.length }

/-- SOURCE: queue_publisher.go:714-718 -/
def append (q : MemoryPublisherQueue) (e : QueueEntry) : MemoryPublisherQueue :=
  { q with
    nextSeq := q.nextSeq + 1
    entries := q.entries ++ [{ e := { e with seq := q.nextSeq + 1 } }]
    count := q.count + 1 }

/-- SOURCE: queue_publisher.go:685-719 -/
def enqueue (q : MemoryPublisherQueue) (e : QueueEntry) (limit : QueueLimit) :
    Except QueueError (MemoryPublisherQueue × UInt64 × List QueueEntry) :=
  if q.closed then .error .closed
  else if 0 < limit.max ∧ limit.max ≤ q.count then
    if limit.policy ≠ .dropOldest then .error .full
    else
      let need := q.count - limit.max.toNat + 1
      let i := q.search limit.keep
      let evicted := (punch need (q.entries.drop i)).1
      if evicted.length < need then .error .full
      else .ok ((q.evict i need).reclaim.append e, q.nextSeq + 1, evicted)
  else .ok (q.append e, q.nextSeq + 1, [])

/-- SOURCE: queue_publisher.go:722-735 -/
def peek (q : MemoryPublisherQueue) (after : UInt64) (n : ℤ) :
    Except QueueError (List QueueEntry) :=
  if q.closed then .error .closed
  else .ok ((((q.entries.drop (q.search after)).filter (!·.acked)).map MemQueueEntry.e).take
    n.toNat)

/-- SOURCE: queue_publisher.go:738-750 -/
def ack (q : MemoryPublisherQueue) (seq : UInt64) : Except QueueError MemoryPublisherQueue :=
  if q.closed then .error .closed
  else
    let i := q.search (seq - 1)
    match q.entries[i]? with
    | none => .ok q
    | some x =>
      if x.e.seq = seq ∧ !x.acked then
        .ok (reclaim { q with entries := q.entries.set i (hole seq), count := q.count - 1 })
      else .ok q

/-- SOURCE: queue_publisher.go:753-760 -/
def len (q : MemoryPublisherQueue) : Except QueueError ℕ :=
  if q.closed then .error .closed else .ok q.count

/-- SOURCE: queue_publisher.go:763-769 -/
def close (q : MemoryPublisherQueue) : MemoryPublisherQueue :=
  { q with closed := true, entries := [], head := 0, count := 0 }

end MemoryPublisherQueue

end Mqttv5.Program
