import Mathlib.Data.List.Basic

/-!
# A bounded queue whose items may be damaged

What a queue of entries is for: a list of items in the order of their Seqs, each an entry or
damaged. Adding to a full queue is refused or evicts the oldest items above a mark; looking finds
the oldest entries above a mark. A damaged item is never returned: when it is evicted, or met by
a look, it goes to quarantine.
-/

set_option autoImplicit false

namespace Mqttv5.Interface

/-- An item of the queue, under its Seq: an entry, or none where it is damaged. -/
structure QueueItem (α : Type) where
  seq : ℕ
  entry : Option α

/-- The queue: its items, the last Seq assigned, and the Seqs of the items in quarantine. -/
structure Fifo (α : Type) where
  last : ℕ := 0
  items : List (QueueItem α) := []
  quarantined : List ℕ := []

namespace Fifo

variable {α : Type}

/-- The items above a mark, oldest first. -/
def above (q : Fifo α) (mark : ℕ) : List (QueueItem α) := q.items.filter fun x => mark < x.seq

/-- The Seqs of the damaged items among some. -/
def damagedIn (l : List (QueueItem α)) : List ℕ :=
  l.filterMap fun x => if x.entry.isNone then some x.seq else none

/-- The items left when some are removed. -/
def without (q : Fifo α) (seqs : List ℕ) : List (QueueItem α) :=
  q.items.filter fun x => x.seq ∉ seqs

/-- An item is added behind the others once some are evicted. -/
def push (q : Fifo α) (entry : ℕ → α) (victims : List (QueueItem α)) : Fifo α where
  last := q.last + 1
  items := q.without (victims.map QueueItem.seq) ++ [⟨q.last + 1, some (entry (q.last + 1))⟩]
  quarantined := q.quarantined ++ damagedIn victims

/-- The oldest items above `keep` that have to go for one more to fit. -/
def victims (q : Fifo α) (max keep : ℕ) : List (QueueItem α) :=
  (q.above keep).take (q.items.length - max + 1)

/-- Add an entry, which is told its Seq, to a queue of at most `max` items (0: no bound). A full
queue refuses (`none`), or evicts the oldest items above `keep` when it may drop them and there
are as many as have to go. The result is the queue, the Seq and the entries evicted. -/
def enqueue (q : Fifo α) (entry : ℕ → α) (max : ℕ) (dropOldest : Bool) (keep : ℕ) :
    Option (Fifo α × ℕ × List α) :=
  if 0 < max ∧ max ≤ q.items.length then
    if dropOldest ∧ (q.victims max keep).length = q.items.length - max + 1 then
      some (q.push entry (q.victims max keep), q.last + 1,
        (q.victims max keep).filterMap QueueItem.entry)
    else none
  else some (q.push entry [], q.last + 1, [])

/-- The Seqs of the damaged items met until `n` entries are found. -/
def met : ℕ → List (QueueItem α) → List ℕ
  | 0, _ => []
  | _, [] => []
  | n + 1, ⟨_, some _⟩ :: rest => met n rest
  | n + 1, ⟨seq, none⟩ :: rest => seq :: met (n + 1) rest

/-- The `n` oldest entries above a mark; the damaged items met go to quarantine. -/
def peek (q : Fifo α) (mark n : ℕ) : Fifo α × List α :=
  ({ q with
      items := q.without (met n (q.above mark))
      quarantined := q.quarantined ++ met n (q.above mark) },
    ((q.above mark).filterMap QueueItem.entry).take n)

/-- The item with a Seq is removed. -/
def remove (q : Fifo α) (seq : ℕ) : Fifo α := { q with items := q.without [seq] }

/-- The item with a Seq is damaged. -/
def damage (q : Fifo α) (seq : ℕ) : Fifo α :=
  { q with items := q.items.map fun x => if x.seq = seq then { x with entry := none } else x }

end Fifo

end Mqttv5.Interface
