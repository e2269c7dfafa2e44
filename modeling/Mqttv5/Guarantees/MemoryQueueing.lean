import Mqttv5.Guarantees.Queueing
import Mqttv5.Program.MemoryQueue

/-!
# The in-memory queue is the same queue, and as small as it should be

The in-memory queue runs beside the abstract queue of `Interface.Fifo`: what it holds is what the
abstract queue holds, wherever its head and its holes are. Its slice is bounded by four times what
it holds and a constant.
-/

set_option autoImplicit false

namespace Mqttv5.Guarantees

open Analysis Mqttv5.Computation Interface Program Program.FileQueue List

namespace MemoryQueue

abbrev Queue := MemoryPublisherQueue

variable {q : Queue}

/-- The entries and holes from the head on. -/
def tail (q : Queue) : List MemQueueEntry := q.entries.drop q.head

def live (es : List MemQueueEntry) : List MemQueueEntry := es.filter (!·.acked)

/-! ### The parts of the operations -/

theorem punch_eq (need : ℕ) (es : List MemQueueEntry) :
    (punch need es).1 = ((live es).take need).map MemQueueEntry.e ∧
      live (punch need es).2 = (live es).drop need ∧
      (punch need es).2.map (·.e.seq) = es.map (·.e.seq) := by
  fun_induction punch need es with
  | case1 es => simp
  | case2 need => simp [live]
  | case3 need x es hx evicted rest hp ih =>
    rw [hp] at ih
    obtain ⟨h1, h2, h3⟩ := ih
    simp only [live, filter_cons, hx, Bool.not_true, Bool.false_eq_true, if_false,
      map_cons] at h1 h2 h3 ⊢
    exact ⟨h1, h2, by rw [h3]⟩
  | case4 need x es hx evicted rest hp ih =>
    rw [hp] at ih
    obtain ⟨h1, h2, h3⟩ := ih
    simp only [live, filter_cons, hx, hole, zeroEntry, Bool.not_true, Bool.false_eq_true, if_false,
      Bool.not_false, if_true, map_cons, take_succ_cons, drop_succ_cons] at h1 h2 h3 ⊢
    exact ⟨by rw [h1], h2, by rw [h3]⟩

theorem tail_advance (hq : q.head ≤ q.entries.length) :
    tail q.advance = (tail q).dropWhile (·.acked) ∧
      q.advance.head ≤ q.advance.entries.length := by
  have hsplit : (tail q).takeWhile (·.acked) ++ (tail q).dropWhile (·.acked) = tail q :=
    takeWhile_append_dropWhile
  have hlen := congrArg List.length hsplit
  rw [length_append, tail, length_drop, ← tail] at hlen
  refine ⟨?_, ?_⟩
  · simp only [tail, MemoryPublisherQueue.advance]
    rw [drop_left' (by simp; omega), ← drop_drop, ← tail]
    exact (congrArg (List.drop _) hsplit.symm).trans (drop_left' rfl)
  · simp only [MemoryPublisherQueue.advance, length_append, length_replicate]
    rw [← tail, length_take]
    omega

theorem live_append (a b : List MemQueueEntry) : live (a ++ b) = live a ++ live b :=
  filter_append a b

theorem live_dropWhile (es : List MemQueueEntry) : live (es.dropWhile (·.acked)) = live es := by
  induction es with
  | nil => rfl
  | cons x es ih =>
    cases hx : x.acked
    · rw [dropWhile_cons_of_neg (by simp [hx])]
    · rw [dropWhile_cons_of_pos (by simpa using hx), ih, live, live,
        filter_cons_of_neg (by simp [hx])]

theorem live_live (es : List MemQueueEntry) : live (live es) = live es := by
  simp [live]

/-- What a compaction leaves of a queue. -/
theorem reclaim_eq (hq : q.head ≤ q.entries.length) :
    q.reclaim.head ≤ q.reclaim.entries.length ∧ live (tail q.reclaim) = live (tail q) ∧
      (tail q.reclaim).Sublist (tail q) ∧
      q.reclaim = { q with entries := q.reclaim.entries, head := q.reclaim.head } := by
  obtain ⟨htail, hhead⟩ := tail_advance hq
  have hsub : (tail q.advance).Sublist (tail q) := htail ▸ dropWhile_sublist _
  unfold MemoryPublisherQueue.reclaim
  simp only
  split
  · exact ⟨hhead, by rw [htail, live_dropWhile], hsub, rfl⟩
  · refine ⟨Nat.zero_le _, ?_, ?_, rfl⟩
    · exact (live_live (tail q.advance)).trans (by rw [htail, live_dropWhile])
    · exact (filter_sublist (l := tail q.advance)).trans hsub

/-! ### The size of the slice -/

structure Held (q : Queue) : Prop where
  head : q.head ≤ q.entries.length
  count : q.count = (live (tail q)).length
  bound : q.entries.length ≤ 4 * q.count + 2048

theorem held_reclaim (hq : q.head ≤ q.entries.length) (hcount : q.count = (live (tail q)).length) :
    Held q.reclaim := by
  obtain ⟨hhead, hlive, -, heq⟩ := reclaim_eq hq
  have hsame : q.reclaim.count = q.count := by rw [heq]
  refine ⟨hhead, by rw [hsame, hlive, hcount], ?_⟩
  obtain ⟨htail, -⟩ := tail_advance hq
  rw [hsame]
  unfold MemoryPublisherQueue.reclaim
  simp only
  have hadvance : q.advance.count = q.count := rfl
  split
  · rw [hadvance] at *
    omega
  · have hlen : ((q.advance.entries.drop q.advance.head).filter (!·.acked)).length = q.count := by
      rw [hcount, ← live_dropWhile, ← htail]
      rfl
    simp only [hlen]
    omega

theorem held_append (h : Held q) (e : QueueEntry) :
    Held (q.append e) ∧ tail (q.append e) =
      tail q ++ [{ e := { e with seq := q.nextSeq + 1 } }] := by
  have htail : tail (q.append e) = tail q ++ [{ e := { e with seq := q.nextSeq + 1 } }] :=
    drop_append_of_le_length h.head
  have hbound := h.bound
  have hhead := h.head
  refine ⟨⟨?_, ?_, ?_⟩, htail⟩
  · simp only [MemoryPublisherQueue.append, length_append]
    omega
  · rw [htail, live, filter_append, length_append, ← live, ← h.count]
    rfl
  · simp only [MemoryPublisherQueue.append, length_append, length_singleton]
    omega

theorem tail_evict (hq : q.head ≤ q.entries.length) (k need : ℕ) :
    (q.evict (q.head + k) need).head ≤ (q.evict (q.head + k) need).entries.length ∧
      tail (q.evict (q.head + k) need) = (tail q).take k ++ (punch need ((tail q).drop k)).2 ∧
      live (tail (q.evict (q.head + k) need)) =
        live ((tail q).take k) ++ (live ((tail q).drop k)).drop need := by
  have hlen := congrArg List.length (punch_eq need (q.entries.drop (q.head + k))).2.2
  simp only [length_map, length_drop] at hlen
  have htail : tail (q.evict (q.head + k) need) =
      (tail q).take k ++ (punch need ((tail q).drop k)).2 := by
    simp only [tail, MemoryPublisherQueue.evict, drop_drop]
    rw [drop_append_of_le_length (by rw [length_take]; omega), drop_take]
    simp
  refine ⟨?_, htail, ?_⟩
  · simp only [MemoryPublisherQueue.evict, length_append, length_take, hlen]
    omega
  · rw [htail, live_append, (punch_eq need _).2.1]

theorem drop_search (q : Queue) (k : ℕ) : q.entries.drop (q.head + k) = (tail q).drop k := by
  rw [tail, drop_drop]

theorem Held.evict (h : Held q) (k need : ℕ) : Held (q.evict (q.head + k) need).reclaim := by
  obtain ⟨hhead, -, hlive⟩ := tail_evict h.head k need
  refine held_reclaim hhead ?_
  have hcount := h.count
  rw [← take_append_drop k (tail q), live_append, length_append] at hcount
  rw [hlive, length_append, length_drop]
  simp only [MemoryPublisherQueue.evict, drop_search, (punch_eq need _).1, length_map,
    length_take]
  omega

/-- An Ack that finds its entry leaves a hole there. -/
theorem set_eq_evict {i : ℕ} {x : MemQueueEntry} (hx : q.entries[i]? = some x)
    (hacked : x.acked = false) :
    { q with entries := q.entries.set i (hole x.e.seq), count := q.count - 1 } = q.evict i 1 := by
  obtain ⟨hi, hget⟩ := List.getElem?_eq_some_iff.mp hx
  rw [set_eq_take_append_cons_drop, if_pos hi, MemoryPublisherQueue.evict,
    drop_eq_getElem_cons hi, hget]
  simp [punch, hacked]

theorem Held.enqueue (h : Held q) {e : QueueEntry} {limit : QueueLimit}
    {r : Queue × UInt64 × List QueueEntry} (hok : q.enqueue e limit = .ok r) : Held r.1 := by
  unfold MemoryPublisherQueue.enqueue at hok
  simp only at hok
  split_ifs at hok
  · cases hok
    exact (held_append (h.evict _ _) e).1
  · cases hok
    exact (held_append h e).1

theorem Held.ack {q' : Queue} (h : Held q) {seq : UInt64} (hok : q.ack seq = .ok q') : Held q' := by
  unfold MemoryPublisherQueue.ack at hok
  simp only at hok
  split_ifs at hok
  split at hok
  · cases hok
    exact h
  · rename_i x hx
    split_ifs at hok with hseq
    · obtain ⟨rfl, hacked⟩ := hseq
      cases hok
      rw [set_eq_evict hx (by simpa using hacked)]
      exact h.evict _ _
    · cases hok
      exact h

/-! ### Both queues side by side -/

/-- The in-memory queue, the abstract queue, and the Seqs the in-memory queue has returned. -/
structure Pair where
  memory : Queue := {}
  fifo : Fifo QueueEntry := {}
  assigned : List UInt64 := []

inductive Op
  | enqueue (e : QueueEntry) (limit : QueueLimit)
  | peek (after : UInt64) (n : ℤ)
  | ack (seq : UInt64)
  | len
  | close

/-- Both queues are told the same; only an Enqueue, an Ack and a Close that succeed change
anything. -/
def step (s : Pair) : Op → Option Pair
  | .enqueue e limit => some <| match s.memory.enqueue e limit with
    | .error _ => s
    | .ok (q, seq, _) =>
      { memory := q
        fifo := (enqueueUnder s.fifo e limit).elim s.fifo (·.1)
        assigned := seq :: s.assigned }
  | .ack seq => some <| match s.memory.ack seq with
    | .error _ => s
    | .ok q => { s with memory := q, fifo := s.fifo.remove seq.toNat }
  | .close => some { s with memory := s.memory.close }
  | _ => some s

theorem Held.step {s t : Pair} {op : Op} (h : Held s.memory) (hstep : step s op = some t) :
    Held t.memory := by
  cases op with
  | enqueue e limit =>
    cases hstep
    split
    · exact h
    · rename_i hok
      exact h.enqueue hok
  | ack seq =>
    cases hstep
    split
    · exact h
    · rename_i hok
      exact h.ack hok
  | close =>
    cases hstep
    exact ⟨Nat.zero_le _, rfl, Nat.zero_le _⟩
  | _ =>
    cases hstep
    exact h

/-- **The memory of the queue follows its content.** -/
theorem memory_follows_content {s : Pair} (h : Reach step (fun _ _ => True) (· = {}) s) :
    s.memory.entries.length ≤ 4 * s.memory.count + 2048 ∧
      s.memory.head ≤ s.memory.entries.length ∧
      s.memory.count = ((s.memory.entries.drop s.memory.head).filter (!·.acked)).length := by
  have hheld : Held s.memory := by
    refine h.invariant (fun s => Held s.memory) ?_ fun _ _ _ hs _ hstep => hs.step hstep
    rintro _ rfl
    exact ⟨le_rfl, rfl, by decide⟩
  exact ⟨hheld.bound, hheld.head, hheld.count⟩

/-- The oldest of seventy entries is never acked: the holes behind it are still given back. -/
theorem holes_behind_the_oldest : ∃ s, execute step {}
      (List.replicate 70 (.enqueue queued {}) ++
        (List.range 66).map fun i => .ack (.ofNat (i + 2))) = some s ∧
      s.memory.entries.length ≤ 4 * s.memory.count + 2048 ∧
      s.memory.entries.map (·.e.seq) = [1, 67, 68, 69, 70] := by
  have hrun : (execute step {}
      (List.replicate 70 (.enqueue queued {}) ++
        (List.range 66).map fun i => .ack (.ofNat (i + 2)))).any
      (·.memory.entries.map (·.e.seq) = [1, 67, 68, 69, 70]) = true := by
    decide +kernel
  obtain ⟨s, hs, hP⟩ := exists_of_execute hrun
  have hreach : Reach step (fun _ _ => True) (· = {}) s :=
    Reach.of_execute (fun _ _ (_ : true = true) => trivial) (.start rfl)
      (by decide +kernel) hs
  exact ⟨s, hs, (memory_follows_content hreach).1, of_decide_eq_true hP⟩

/-! ### The same queue -/

def seqs (es : List MemQueueEntry) : List UInt64 := es.map (·.e.seq)

/-- The search finds where the Seqs above a mark begin. -/
theorem search_split (h : (seqs (tail q)).Pairwise (· < ·)) (mark : UInt64) :
    ∃ k, q.search mark = q.head + k ∧ (tail q).drop k = (tail q).filter (mark < ·.e.seq) := by
  have hget : ∀ i, q.entries[q.head + i]? = (tail q)[i]? := fun i => List.getElem?_drop.symm
  have hlen : q.entries.length - q.head = (tail q).length := length_drop.symm
  obtain ⟨k, hkdef⟩ : ∃ k, k = Computation.search (tail q).length fun i =>
    ((tail q)[i]?).any (mark < ·.e.seq) := ⟨_, rfl⟩
  obtain ⟨hk, hbelow, habove⟩ := search_spec (n := (tail q).length)
    (p := fun i => ((tail q)[i]?).any (mark < ·.e.seq)) (by
      intro i j hij hj hi
      simp only [List.getElem?_eq_getElem hj, Option.any_some, decide_eq_true_eq,
        List.getElem?_eq_getElem (show i < (tail q).length by omega)] at hi ⊢
      rcases Nat.lt_or_eq_of_le hij with hlt | rfl
      · exact UInt64.lt_trans hi
          (pairwise_iff_getElem.mp (pairwise_map.mp h) i j (by omega) hj hlt)
      · exact hi)
  rw [← hkdef] at hk hbelow habove
  refine ⟨k, ?_, ?_⟩
  · rw [hkdef]
    unfold MemoryPublisherQueue.search
    simp only [hget, hlen]
  have htake : ∀ x ∈ (tail q).take k, ¬mark < x.e.seq := by
    intro x hx
    obtain ⟨i, hi, rfl⟩ := mem_take_iff_getElem.mp hx
    have := hbelow i (by omega)
    simpa [List.getElem?_eq_getElem (show i < (tail q).length by omega)] using this
  have hdrop : ∀ x ∈ (tail q).drop k, mark < x.e.seq := by
    intro x hx
    obtain ⟨i, hi, rfl⟩ := mem_drop_iff_getElem.mp hx
    have := habove (k + i) (by omega) (by omega)
    simpa [List.getElem?_eq_getElem (show k + i < (tail q).length by omega)] using this
  conv_rhs => rw [← take_append_drop k (tail q)]
  rw [filter_append, filter_eq_nil_iff.mpr fun x hx => by simpa using htake x hx,
    filter_eq_self.mpr fun x hx => by simpa using hdrop x hx, nil_append]

/-- The item of an entry. -/
def itemOf (x : MemQueueEntry) : QueueItem QueueEntry := ⟨x.e.seq.toNat, some x.e⟩

/-- Taking a stretch out of a list by its keys takes out nothing else. -/
theorem filter_stretch {α : Type} (key : α → ℕ) {a b c : List α}
    (h : ((a ++ (b ++ c)).map key).Nodup) :
    (a ++ (b ++ c)).filter (fun x => key x ∉ b.map key) = a ++ c := by
  simp only [map_append, nodup_append] at h
  obtain ⟨-, ⟨-, -, hbc⟩, habc⟩ := h
  have ha : a.filter (fun x => key x ∉ b.map key) = a :=
    filter_eq_self.mpr fun x hx => decide_eq_true fun hcon =>
      habc _ (mem_map_of_mem hx) _ (mem_append_left _ hcon) rfl
  have hb : b.filter (fun x => key x ∉ b.map key) = [] :=
    filter_eq_nil_iff.mpr fun x hx hcon => of_decide_eq_true hcon (mem_map_of_mem hx)
  have hc : c.filter (fun x => key x ∉ b.map key) = c :=
    filter_eq_self.mpr fun x hx => decide_eq_true fun hcon =>
      hbc _ hcon _ (mem_map_of_mem hx) rfl
  rw [filter_append, filter_append, ha, hb, hc, nil_append]

/-- The in-memory queue holds the items of the abstract queue. -/
structure Same (q : Queue) (f : Fifo QueueEntry) : Prop where
  held : Held q
  items : (live (tail q)).map itemOf = f.items
  ascending : (seqs (tail q)).Pairwise (· < ·)
  bounds : ∀ n ∈ seqs (tail q), 0 < n ∧ n ≤ q.nextSeq
  last : q.nextSeq.toNat = f.last

section Steps

variable {q : Queue} {f : Fifo QueueEntry} (h : Same q f)
include h

theorem Same.pairwise : (f.items.map QueueItem.seq).Pairwise (· < ·) := by
  rw [← h.items, map_map]
  have hsub : (seqs (live (tail q))).Pairwise (· < ·) :=
    h.ascending.sublist (filter_sublist.map _)
  exact pairwise_map.mpr ((pairwise_map.mp hsub).imp UInt64.lt_iff_toNat_lt.mp)

/-- The abstract queue finds above a mark what the search finds. -/
theorem Same.above (mark : UInt64) :
    ∃ k, q.search mark = q.head + k ∧ (tail q).drop k = (tail q).filter (mark < ·.e.seq) ∧
      f.above mark.toNat = (live ((tail q).drop k)).map itemOf := by
  obtain ⟨k, hk, hdrop⟩ := search_split h.ascending mark
  refine ⟨k, hk, hdrop, ?_⟩
  rw [hdrop, Fifo.above, ← h.items, filter_map, live, live, filter_comm]
  rfl

/-- Entries that leave holes are taken out of the abstract queue. -/
theorem Same.evict (k need : ℕ) {g : Fifo QueueEntry} (hlast : g.last = f.last) (hitems : g.items =
      f.without ((((live ((tail q).drop k)).take need).map itemOf).map QueueItem.seq)) :
    Same (q.evict (q.head + k) need).reclaim g := by
  obtain ⟨hhead, htail, hlive⟩ := tail_evict h.held.head k need
  obtain ⟨-, hsame, hsub, heq⟩ := reclaim_eq hhead
  have hseqs : (seqs (tail (q.evict (q.head + k) need).reclaim)).Sublist (seqs (tail q)) := by
    have hmap := hsub.map fun x : MemQueueEntry => x.e.seq
    rw [htail, map_append, (punch_eq need _).2.2, ← map_append,
      take_append_drop] at hmap
    exact hmap
  have hnext : (q.evict (q.head + k) need).reclaim.nextSeq = q.nextSeq := by rw [heq]; rfl
  have hsplit : f.items = (live ((tail q).take k)).map itemOf ++
      (((live ((tail q).drop k)).take need).map itemOf ++
        ((live ((tail q).drop k)).drop need).map itemOf) := by
    rw [← map_append, ← map_append, take_append_drop, ← live_append,
      take_append_drop, h.items]
  refine ⟨h.held.evict k need, ?_, h.ascending.sublist hseqs,
    fun n hn => hnext ▸ h.bounds n (hseqs.subset hn), by rw [hnext, hlast, h.last]⟩
  have hnodup := h.pairwise.imp fun hlt => Nat.ne_of_lt hlt
  rw [hitems, hsame, hlive, map_append, Fifo.without]
  rw [hsplit] at hnodup ⊢
  exact (filter_stretch QueueItem.seq hnodup).symm

theorem Same.append (e : QueueEntry) (hroom : q.nextSeq.toNat + 1 < 2 ^ 64)
    {g : Fifo QueueEntry} (hlast : g.last = f.last + 1)
    (hitems : g.items = f.items ++ [⟨f.last + 1, some { e with seq := .ofNat (f.last + 1) }⟩]) :
    Same (q.append e) g := by
  obtain ⟨hheld, htail⟩ := held_append h.held e
  have hnext := toNat_add_one hroom
  have hofNat : UInt64.ofNat (f.last + 1) = q.nextSeq + 1 := by
    rw [← h.last, ← hnext, UInt64.ofNat_toNat]
  have hseqs : seqs (tail (q.append e)) = seqs (tail q) ++ [q.nextSeq + 1] := by
    rw [htail, seqs, map_append]
    rfl
  have hlt : ∀ n ∈ seqs (tail q), n < q.nextSeq + 1 := fun n hn => by
    have hle := UInt64.le_iff_toNat_le.mp (h.bounds n hn).2
    rw [UInt64.lt_iff_toNat_lt, hnext]
    omega
  refine ⟨hheld, ?_, ?_, fun n hn => ?_, ?_⟩
  · rw [htail, live_append, map_append, h.items, hitems, hofNat, ← h.last, ← hnext]
    rfl
  · rw [hseqs]
    exact pairwise_append.mpr ⟨h.ascending, pairwise_singleton _ _,
      fun a ha b hb => mem_singleton.mp hb ▸ hlt a ha⟩
  · have hgoal : ∀ n ∈ seqs (tail q) ++ [q.nextSeq + 1], 0 < n ∧ n ≤ q.nextSeq + 1 := by
      intro n hn
      rcases mem_append.mp hn with hn | hn
      · exact ⟨(h.bounds n hn).1, UInt64.le_of_lt (hlt n hn)⟩
      · rw [mem_singleton.mp hn]
        refine ⟨UInt64.lt_iff_toNat_lt.mpr ?_, UInt64.le_refl _⟩
        rw [hnext]
        exact Nat.succ_pos _
    exact hgoal n (hseqs ▸ hn)
  · rw [hlast, ← h.last, ← hnext]
    rfl

theorem Same.length : f.items.length = q.count := by
  rw [← h.items, length_map, h.held.count]

/-- Both queues refuse, or both add. -/
theorem Same.enqueue (hopen : q.closed = false) (e : QueueEntry) (limit : QueueLimit)
    (hroom : q.nextSeq.toNat + 1 < 2 ^ 64) :
    (enqueueUnder f e limit = none ∧ q.enqueue e limit = .error .full) ∨
      ∃ f' q' evicted, enqueueUnder f e limit = some (f', f.last + 1, evicted) ∧
        q.enqueue e limit = .ok (q', q.nextSeq + 1, evicted) ∧ Same q' f' ∧
        q'.nextSeq = q.nextSeq + 1 := by
  have hlen := h.length
  unfold enqueueUnder Fifo.enqueue MemoryPublisherQueue.enqueue
  simp only [if_neg (show ¬q.closed = true by simp [hopen]), hlen, decide_eq_true_eq]
  by_cases hfull : 0 < limit.max ∧ limit.max ≤ q.count
  · have hfull' : 0 < limit.max.toNat ∧ limit.max.toNat ≤ q.count := by omega
    obtain ⟨k, hk, -, habove⟩ := h.above limit.keep
    rw [if_pos hfull, if_pos hfull', hk, Fifo.victims, habove, hlen, drop_search]
    generalize q.count - limit.max.toNat + 1 = need
    have hevicted := (punch_eq need ((tail q).drop k)).1
    rw [hevicted, ← map_take, length_map, length_map, length_take]
    by_cases hcan : limit.policy = .dropOldest ∧ need ≤ (live ((tail q).drop k)).length
    · generalize hvictims : ((live ((tail q).drop k)).take need).map itemOf = victims
      have hsame := h.evict k need (g := { f with items := f.without (victims.map QueueItem.seq) })
        rfl (by rw [hvictims])
      have hnext : (q.evict (q.head + k) need).reclaim.nextSeq = q.nextSeq := by
        rw [(reclaim_eq (tail_evict h.held.head k _).1).2.2.2]
        rfl
      have hentries : victims.filterMap QueueItem.entry =
          ((live ((tail q).drop k)).take need).map MemQueueEntry.e := by
        rw [← hvictims, filterMap_map]
        exact congrFun (filterMap_eq_map (f := MemQueueEntry.e)) _
      rw [if_pos ⟨hcan.1, by omega⟩, if_neg (not_not.mpr hcan.1), if_neg (by omega), hentries]
      exact .inr ⟨_, _, _, rfl, rfl, hsame.append e (hnext ▸ hroom) rfl rfl,
        by rw [← hnext]; rfl⟩
    · refine .inl ⟨if_neg fun hcon => hcan ⟨hcon.1, by omega⟩, ?_⟩
      by_cases hdrop : limit.policy = .dropOldest
      · have hfew : ¬need ≤ (live ((tail q).drop k)).length := fun hcon => hcan ⟨hdrop, hcon⟩
        rw [if_neg (not_not.mpr hdrop), if_pos (by omega)]
      · rw [if_pos hdrop]
  · have hfull' : ¬(0 < limit.max.toNat ∧ limit.max.toNat ≤ q.count) := by omega
    rw [if_neg hfull, if_neg hfull']
    refine .inr ⟨_, _, _, rfl, rfl, h.append e hroom rfl ?_, rfl⟩
    simp [Fifo.push, Fifo.without]

/-- An Ack removes the entry with the Seq, if there is one. -/
theorem Same.ack (hopen : q.closed = false) (seq : UInt64) :
    ∃ q', q.ack seq = .ok q' ∧ Same q' (f.remove seq.toNat) ∧ q'.nextSeq = q.nextSeq := by
  obtain ⟨k, hk, hdrop⟩ := search_split h.ascending (seq - 1)
  have hget : q.entries[q.head + k]? = ((tail q).drop k)[0]? := by
    rw [tail, List.getElem?_drop, List.getElem?_drop, Nat.add_zero]
  unfold MemoryPublisherQueue.ack
  simp only [if_neg (show ¬q.closed = true by simp [hopen]), hk]
  by_cases hfound : ∃ x, q.entries[q.head + k]? = some x ∧ x.e.seq = seq ∧ x.acked = false
  · obtain ⟨x, hx, rfl, hacked⟩ := hfound
    simp only [hx, hacked, Bool.not_false, and_self, if_true]
    refine ⟨_, rfl, ?_, ?_⟩
    · rw [set_eq_evict hx hacked]
      refine h.evict k 1 rfl ?_
      rw [hget] at hx
      cases hrest : (tail q).drop k with
      | nil => simp [hrest] at hx
      | cons y rest =>
        rw [hrest] at hx
        cases hx
        simp [Fifo.remove, live, hacked, itemOf]
    · rw [set_eq_evict hx hacked, (reclaim_eq (tail_evict h.held.head k 1).1).2.2.2]
      rfl
  · have hnone : ∀ y ∈ live (tail q), y.e.seq ≠ seq := by
      -- It would be the first the search finds.
      rintro y hy rfl
      obtain ⟨hmem, hacked⟩ := mem_filter.mp hy
      have hpos := (h.bounds _ (mem_map_of_mem hmem)).1
      have hbefore : ∀ n : UInt64, y.e.seq - 1 < n ↔ y.e.seq ≤ n := fun n => by
        have hone : (1 : UInt64) ≤ y.e.seq := UInt64.le_iff_toNat_le.mpr hpos
        rw [UInt64.lt_iff_toNat_lt, UInt64.le_iff_toNat_le, UInt64.toNat_sub_of_le _ _ hone]
        have := UInt64.lt_iff_toNat_lt.mp hpos
        simp at this ⊢
        omega
      have hy' : y ∈ (tail q).drop k := by
        rw [hdrop]
        exact mem_filter.mpr ⟨hmem, decide_eq_true ((hbefore _).mpr (UInt64.le_refl _))⟩
      cases hrest : (tail q).drop k with
      | nil => simp [hrest] at hy'
      | cons x rest =>
        have hx : x ∈ (tail q).filter (y.e.seq - 1 < ·.e.seq) := by
          rw [← hdrop, hrest]
          exact mem_cons_self
        have hle := (hbefore _).mp (of_decide_eq_true (mem_filter.mp hx).2)
        rw [hrest] at hy' hget
        rcases mem_cons.mp hy' with rfl | hin
        · exact hfound ⟨y, hget, rfl, by simpa using hacked⟩
        · have hasc := (pairwise_map.mp h.ascending).sublist (drop_sublist k _)
          rw [hrest] at hasc
          exact absurd ((pairwise_cons.mp hasc).1 y hin) (UInt64.not_lt.mpr hle)
    refine ⟨q, ?_, ⟨h.held, ?_, h.ascending, h.bounds, h.last⟩, rfl⟩
    · cases hx : q.entries[q.head + k]? with
      | none => rfl
      | some x =>
        simp only
        rw [if_neg fun hcon => hfound ⟨x, hx, hcon.1, by simpa using hcon.2⟩]
    · rw [Fifo.remove, Fifo.without, ← h.items]
      refine (filter_eq_self.mpr fun i hi => ?_).symm
      obtain ⟨y, hy, rfl⟩ := mem_map.mp hi
      simpa [itemOf, UInt64.toNat_inj] using hnone y hy

end Steps

/-- The Seqs have not come to their end. -/
def Unwrapped (s : Pair) : Op → Prop
  | .enqueue _ _ => s.memory.nextSeq.toNat + 1 < 2 ^ 64
  | _ => True

/-- Until it is closed, the in-memory queue is the abstract queue. -/
def Matched (s : Pair) : Prop := s.memory.closed = false →
  Same s.memory s.fifo ∧ ∀ a ∈ s.assigned, a ≤ s.memory.nextSeq

theorem Matched.step {s t : Pair} {op : Op} (h : Matched s) (hop : Unwrapped s op)
    (hstep : step s op = some t) : Matched t := by
  cases hopen : s.memory.closed with
  | true =>
    -- A closed queue stays closed.
    intro hcon
    cases op <;> obtain rfl := Option.some.inj hstep <;>
      simp [MemoryPublisherQueue.enqueue, MemoryPublisherQueue.ack, MemoryPublisherQueue.close,
        hopen] at hcon
  | false =>
    obtain ⟨hsame, hassigned⟩ := h hopen
    cases op with
    | enqueue e limit =>
      cases hstep
      rcases hsame.enqueue hopen e limit hop with ⟨-, herr⟩ | ⟨f, q, evicted, hf, hq, hs, hnext⟩
      · rw [herr]
        exact fun _ => ⟨hsame, hassigned⟩
      · rw [hq, hf]
        refine fun _ => ⟨hs, fun a ha => ?_⟩
        have hle : s.memory.nextSeq ≤ s.memory.nextSeq + 1 := by
          rw [UInt64.le_iff_toNat_le, toNat_add_one hop]
          exact Nat.le_succ _
        show a ≤ q.nextSeq
        rw [hnext]
        rcases mem_cons.mp ha with rfl | ha
        · exact UInt64.le_refl _
        · exact UInt64.le_trans (hassigned a ha) hle
    | ack seq =>
      cases hstep
      obtain ⟨q, hq, hs, hnext⟩ := hsame.ack hopen seq
      rw [hq]
      exact fun _ => ⟨hs, fun a ha => hnext ▸ hassigned a ha⟩
    | close =>
      cases hstep
      intro hcon
      cases hcon
    | _ =>
      cases hstep
      exact fun _ => ⟨hsame, hassigned⟩

/-- **The in-memory queue is the queue it is meant to be**, for as long as its Seqs last: it holds
the entries of the abstract queue, in strictly increasing Seq order, and each operation returns
what the abstract queue returns. -/
theorem memory_queue_is_fifo {s : Pair} (h : Reach step Unwrapped (· = {}) s)
    (hopen : s.memory.closed = false) :
    (((s.memory.entries.drop s.memory.head).filter (!·.acked)).map itemOf = s.fifo.items) ∧
    (s.fifo.items.map QueueItem.seq).Pairwise (· < ·) ∧
    s.memory.len = .ok s.fifo.items.length ∧
    (∀ e limit, Unwrapped s (.enqueue e limit) →
      (s.memory.enqueue e limit).map Prod.snd = match enqueueUnder s.fifo e limit with
        | none => .error .full
        | some (_, seq, evicted) => .ok (.ofNat seq, evicted)) ∧
    (∀ e limit q seq evicted, Unwrapped s (.enqueue e limit) →
      s.memory.enqueue e limit = .ok (q, seq, evicted) → ∀ a ∈ s.assigned, a < seq) ∧
    (∀ after n, s.memory.peek after n = .ok (s.fifo.peek after.toNat n.toNat).2) ∧
    ∀ seq, (s.memory.ack seq).isOk = true := by
  have hmatched : Matched s := by
    refine h.invariant Matched ?_ fun _ _ _ hs hop hstep => hs.step hop hstep
    rintro _ rfl
    exact fun _ => ⟨⟨⟨le_rfl, rfl, by decide⟩, rfl, List.Pairwise.nil,
      fun n hn => (by cases hn), rfl⟩, fun a ha => (by cases ha)⟩
  obtain ⟨hsame, hassigned⟩ := hmatched hopen
  have hopen' : ¬s.memory.closed = true := by simp [hopen]
  refine ⟨hsame.items, hsame.pairwise, ?_, fun e limit hop => ?_,
    fun e limit q seq evicted hop hok a ha => ?_, fun after n => ?_, fun seq => ?_⟩
  · rw [MemoryPublisherQueue.len, if_neg hopen', hsame.length]
  · rcases hsame.enqueue hopen e limit hop with ⟨hf, herr⟩ | ⟨f, q, evicted, hf, hq, -, -⟩
    · rw [hf, herr]
      rfl
    · have hseq : UInt64.ofNat (s.fifo.last + 1) = s.memory.nextSeq + 1 := by
        rw [← hsame.last, ← toNat_add_one hop, UInt64.ofNat_toNat]
      rw [hf, hq]
      simp only [Except.map, hseq]
  · rcases hsame.enqueue hopen e limit hop with ⟨-, herr⟩ | ⟨f, q', evicted', -, hq, -, -⟩
    · rw [herr] at hok
      cases hok
    · rw [hq] at hok
      cases hok
      have hle := UInt64.le_iff_toNat_le.mp (hassigned a ha)
      rw [UInt64.lt_iff_toNat_lt, toNat_add_one hop]
      omega
  · obtain ⟨k, hk, -, habove⟩ := hsame.above after
    rw [MemoryPublisherQueue.peek, if_neg hopen', hk, drop_search, Fifo.peek, habove,
      List.filterMap_map, ← live]
    exact congrArg (fun l => Except.ok (List.take n.toNat l))
      (congrFun (List.filterMap_eq_map (f := MemQueueEntry.e)) _).symm
  · obtain ⟨q, hq, -⟩ := hsame.ack hopen seq
    rw [hq]
    rfl

theorem unwrapped_of_check (s : Pair) (op : Op) (h : decide (s.memory.nextSeq < 9) = true) :
    Unwrapped s op := by
  have hlt := UInt64.lt_iff_toNat_lt.mp (of_decide_eq_true h)
  cases op with
  | enqueue e limit => exact Nat.lt_of_le_of_lt hlt (by decide)
  | _ => trivial

/-- The first entry is acked, twice, the second is evicted. -/
theorem third_and_fourth_left : ∃ s, execute step {}
      [.enqueue queued {}, .enqueue queued {}, .enqueue queued {}, .ack 1, .ack 1, .ack 9,
        .enqueue queued { max := 2, policy := .dropOldest }, .peek 0 1] = some s ∧
      s.memory.len = .ok 2 ∧ s.fifo.items.map QueueItem.seq = [3, 4] := by
  have hrun : (execute step {}
      [.enqueue queued {}, .enqueue queued {}, .enqueue queued {}, .ack 1, .ack 1, .ack 9,
        .enqueue queued { max := 2, policy := .dropOldest }, .peek 0 1]).any (fun s =>
      s.memory.closed = false ∧ s.fifo.items.map QueueItem.seq = [3, 4]) = true := by
    decide +kernel
  obtain ⟨s, hs, hP⟩ := exists_of_execute hrun
  obtain ⟨hopen, hitems⟩ := of_decide_eq_true hP
  have hreach : Reach step Unwrapped (· = {}) s :=
    Reach.of_execute unwrapped_of_check (.start rfl) (by decide +kernel) hs
  have hlen := (memory_queue_is_fifo hreach hopen).2.2.1
  rw [← List.length_map QueueItem.seq, hitems] at hlen
  exact ⟨s, hs, hlen, hitems⟩

theorem reach_seq (n : ℕ) : ∃ s, Reach step (fun _ _ => True) (· = {}) s ∧
    s.memory.closed = false ∧ s.memory.nextSeq = .ofNat n ∧
    (0 < n → UInt64.ofNat n ∈ s.assigned) := by
  induction n with
  | zero => exact ⟨{}, .start rfl, rfl, rfl, fun h => absurd h (Nat.lt_irrefl 0)⟩
  | succ n ih =>
    obtain ⟨s, hs, hopen, hnext, -⟩ := ih
    have hok : s.memory.enqueue queued {} =
        .ok (s.memory.append queued, s.memory.nextSeq + 1, []) := by
      simp [MemoryPublisherQueue.enqueue, hopen]
    refine ⟨_, .next (a := .enqueue queued {}) hs trivial rfl, ?_⟩
    simp only [hok, MemoryPublisherQueue.append, hnext, UInt64.ofNat_add]
    exact ⟨hopen, rfl, fun _ => mem_cons_self⟩

/-- After 2⁶⁴ - 1 Enqueues the next one returns the Seq 0, below every Seq returned. -/
theorem seq_wraps : ∃ s, Reach step (fun _ _ => True) (· = {}) s ∧
    (∃ q, s.memory.enqueue queued {} = .ok (q, 0, [])) ∧
    (18446744073709551615 : UInt64) ∈ s.assigned := by
  obtain ⟨s, hs, hopen, hnext, hmem⟩ := reach_seq (2 ^ 64 - 1)
  refine ⟨s, hs, ⟨s.memory.append queued, ?_⟩, hmem (by decide)⟩
  simp [MemoryPublisherQueue.enqueue, hopen, hnext]

end MemoryQueue

end Mqttv5.Guarantees
