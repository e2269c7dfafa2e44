import Mqttv5.Analysis.FileDB
import Mqttv5.Interface.Fifo
import Mqttv5.Program.FileQueue

/-!
# The buckets of the file queue as a list of items

The pairs of the entries bucket are read as items in the order of their Seqs. `Tallied` is what the
two counters and the bucket have to do with each other; every operation keeps it and changes the
list of items as its specification says.
-/

set_option autoImplicit false

namespace Mqttv5.Analysis

open Mqttv5.Computation Interface Program Program.FileQueue List FiniteMap
open Model (Bytes)

variable {v : Bytes} {ns : List ℕ} {n : ℕ}

variable {x : Bytes × Bytes}

/-! ### The counters -/

@[simp]
theorem getUint_putUint (b : Bucket) (k k' : Bytes) (v : UInt64) :
    getUint (putUint b k v) k' = if k' = k then v else getUint b k' := by
  unfold getUint putUint
  rw [get_set]
  by_cases h : k' = k
  · simp only [h, if_true, length_bigEndian, ofNat_bigEndian]
  · simp only [h, if_false]

theorem keyNext_ne_keyCount : keyNext ≠ keyCount := by decide

/-- The last Seq assigned, and the number of entries, as the meta bucket has them. -/
def lastSeq (q : Queue) : ℕ := (getUint q.metaData keyNext).toNat

def storedCount (q : Queue) : ℕ := (getUint q.metaData keyCount).toNat

/-! ### Items -/

/-- The item a pair stands for. -/
def itemOf (x : Bytes × Bytes) : QueueItem QueueEntry := ⟨ofBigEndian x.1, entryOf x⟩

/-- The items of the queue. -/
def itemsOf (q : Queue) : List (QueueItem QueueEntry) := q.entries.entries.map itemOf

/-- The keys are Seqs that were assigned, and both counts are the number of pairs. -/
structure Tallied (q : Queue) : Prop where
  keys : ∀ x ∈ q.entries.entries, ∃ n, x.1 = bigEndian 8 n ∧ n ≤ lastSeq q
  count : storedCount q = FiniteMap.len q.entries
  memory : q.count = FiniteMap.len q.entries
  bounded : FiniteMap.len q.entries ≤ lastSeq q
  room : lastSeq q + 1 < 2 ^ 64

theorem ofBigEndian_key (hn : n < 2 ^ 64) : ofBigEndian (bigEndian 8 n) = n := by
  rw [ofBigEndian_bigEndian, Nat.mod_eq_of_lt (by omega)]

theorem length_itemsOf (q : Queue) : (itemsOf q).length = FiniteMap.len q.entries := by
  rw [itemsOf, length_map, length_entries]

namespace Tallied

variable {q : Queue}

/-- The key of a pair is that of the Seq of its item. -/
theorem key_eq (h : Tallied q) (hx : x ∈ q.entries.entries) :
    x.1 = bigEndian 8 (itemOf x).seq ∧ (itemOf x).seq ≤ lastSeq q := by
  obtain ⟨n, hkey, hn⟩ := h.keys x hx
  have hroom := h.room
  have hseq : (itemOf x).seq = n := by
    rw [itemOf, hkey, ofBigEndian_key (by omega)]
  rw [hseq]
  exact ⟨hkey, hn⟩

/-- The key of what is found corrupt. -/
theorem seqKey_corruptOf (h : Tallied q) (hx : x ∈ q.entries.entries)
    {b : CorruptEntry} (hb : corruptOf x = some b) :
    seqKey b.seq = x.1 ∧ b.seq.toNat = (itemOf x).seq := by
  obtain ⟨hkey, hle⟩ := h.key_eq hx
  have hroom := h.room
  have hseq : b.seq = .ofNat (itemOf x).seq := by
    unfold corruptOf at hb
    split at hb
    · rw [← Option.some.inj hb, itemOf]
    · cases hb
  have hnat : b.seq.toNat = (itemOf x).seq := by
    rw [hseq, UInt64.toNat_ofNat', Nat.mod_eq_of_lt (by omega)]
  exact ⟨by rw [seqKey, hnat, ← hkey], hnat⟩

/-- INTERNAL: **The cursor visits the items above a mark.** -/
theorem seek_items (h : Tallied q) {mark : UInt64} (hmark : mark.toNat ≤ lastSeq q) :
    (seek q.entries (seqKey (mark + 1))).map itemOf =
      (itemsOf q).filter fun x => mark.toNat < x.seq := by
  have hroom := h.room
  have hnext : (mark + 1).toNat = mark.toNat + 1 := by
    rw [UInt64.toNat_add]
    exact Nat.mod_eq_of_lt (by
      have hone : UInt64.toNat 1 = 1 := rfl
      omega)
  rw [seek, itemsOf, filter_map]
  congr 1
  refine filter_congr fun x hx => ?_
  obtain ⟨hkey, hle⟩ := h.key_eq hx
  have hiff : seqKey (mark + 1) ≤ x.1 ↔ mark.toNat < (itemOf x).seq := by
    rw [seqKey, hnext, hkey, bigEndian_le_iff (by omega) (by omega)]
    omega
  exact decide_eq_decide.mpr hiff

theorem seek_subset {b : Bucket} {k : Bytes} (hx : x ∈ seek b k) :
    x ∈ b.entries := (mem_filter.mp hx).1

section

variable (h : Tallied q)
include h

/-- INTERNAL: **Removing the pairs of some Seqs removes their items.** -/
theorem items_delAll (hns : ∀ n ∈ ns, n < 2 ^ 64) :
    (Bucket.entries ((ns.map (bigEndian 8)).foldl (fun b k => FiniteMap.del b k) q.entries)).map
      itemOf = (itemsOf q).filter fun x => x.seq ∉ ns := by
  have hroom := h.room
  rw [entries_delAll, itemsOf, filter_map]
  congr 1
  refine filter_congr fun x hx => ?_
  obtain ⟨hkey, hle⟩ := h.key_eq hx
  have hiff : x.1 ∉ ns.map (bigEndian 8) ↔ (itemOf x).seq ∉ ns := by
    refine not_congr ?_
    rw [hkey, mem_map]
    constructor
    · rintro ⟨n, hn, heq⟩
      have hlt := hns n hn
      rw [← bigEndian_injective (by omega) (by omega) heq]
      exact hn
    · exact fun hn => ⟨_, hn, rfl⟩
  exact decide_eq_decide.mpr hiff

theorem get_isSome (hn : n ∈ (itemsOf q).map QueueItem.seq) :
    (FiniteMap.get q.entries (bigEndian 8 n)).isSome ∧ n ≤ lastSeq q := by
  obtain ⟨i, hi, rfl⟩ := mem_map.mp hn
  obtain ⟨x, hx, rfl⟩ := mem_map.mp hi
  obtain ⟨hkey, hle⟩ := h.key_eq hx
  refine ⟨?_, hle⟩
  rw [← hkey, (mem_entries q.entries x.1 x.2).mp hx]
  rfl

theorem seqs_nodup : ((itemsOf q).map QueueItem.seq).Nodup := by
  have hkeys : (q.entries.entries.map Prod.fst).Nodup :=
    pairwise_map.mpr (entries_pairwise q.entries)
  have heq : q.entries.entries.map Prod.fst =
      ((itemsOf q).map QueueItem.seq).map (bigEndian 8) := by
    rw [itemsOf, map_map, map_map]
    exact map_congr_left fun x hx => (h.key_eq hx).1
  rw [heq] at hkeys
  exact List.Nodup.of_map _ hkeys

theorem len_delAll (hnodup : ns.Nodup) (hmem : ∀ n ∈ ns, n ∈ (itemsOf q).map QueueItem.seq) :
    FiniteMap.len ((ns.map (bigEndian 8)).foldl (fun b k => FiniteMap.del b k) q.entries) +
      ns.length = FiniteMap.len q.entries := by
  have hroom := h.room
  have hkeys : (ns.map (bigEndian 8)).Nodup := by
    refine List.Nodup.map_on (fun n hn m hm heq => ?_) hnodup
    have hle := (h.get_isSome (hmem n hn)).2
    have hle' := (h.get_isSome (hmem m hm)).2
    exact bigEndian_injective (by omega) (by omega) heq
  have hlen := Analysis.len_delAll hkeys (b := q.entries) (fun k hk => by
    obtain ⟨n, hn, rfl⟩ := mem_map.mp hk
    exact (h.get_isSome (hmem n hn)).1)
  rw [length_map] at hlen
  exact hlen

/-- INTERNAL: **A removal keeps the counts**: what is left once the pairs of some Seqs, all there,
are deleted and both counts lowered by their number. -/
theorem removed (hnodup : ns.Nodup) (hmem : ∀ n ∈ ns, n ∈ (itemsOf q).map QueueItem.seq) {p : Queue}
    (hentries : p.entries =
      (ns.map (bigEndian 8)).foldl (fun b k => FiniteMap.del b k) q.entries)
    (hlast : lastSeq p = lastSeq q) (hcount : storedCount p + ns.length = storedCount q)
    (hmemory : p.count = q.count - ns.length) :
    Tallied p ∧ itemsOf p = (itemsOf q).filter fun x => x.seq ∉ ns := by
  have hlen := h.len_delAll hnodup hmem
  rw [← hentries] at hlen
  have hstored := h.count
  have hcnt := h.memory
  have hbounded := h.bounded
  have hroom := h.room
  refine ⟨⟨?_, by omega, by omega, by omega, by omega⟩, ?_⟩
  · intro x hx
    rw [hentries, entries_delAll] at hx
    rw [hlast]
    exact h.keys x (mem_filter.mp hx).1
  · rw [itemsOf, hentries]
    exact h.items_delAll fun n hn => by
      have hle := (h.get_isSome (hmem n hn)).2
      omega

/-- INTERNAL: **A new pair keeps the counts**: it comes last, under the Seq that follows. -/
theorem appended {p : Queue} (hroom : lastSeq q + 2 < 2 ^ 64)
    (hentries : p.entries = FiniteMap.set q.entries (bigEndian 8 (lastSeq q + 1)) v)
    (hlast : lastSeq p = lastSeq q + 1) (hcount : storedCount p = storedCount q + 1)
    (hmemory : p.count = q.count + 1) :
    Tallied p ∧ itemsOf p = itemsOf q ++
      [⟨lastSeq q + 1, entryOf (bigEndian 8 (lastSeq q + 1), v)⟩] := by
  have hbelow : ∀ x ∈ q.entries.entries, x.1 < bigEndian 8 (lastSeq q + 1) := by
    intro x hx
    obtain ⟨n, hkey, hn⟩ := h.keys x hx
    rw [hkey]
    exact bigEndian_lt (by omega) (by omega)
  have hpairs := entries_set_last v hbelow
  have hlen : FiniteMap.len p.entries = FiniteMap.len q.entries + 1 := by
    rw [← length_entries, ← length_entries, hentries, hpairs, length_append,
      length_singleton]
  have hstored := h.count
  have hcnt := h.memory
  have hbounded := h.bounded
  refine ⟨⟨?_, by omega, by omega, by omega, by omega⟩, ?_⟩
  · intro x hx
    rw [hentries, hpairs, mem_append, mem_singleton] at hx
    rcases hx with hx | rfl
    · obtain ⟨n, hkey, hn⟩ := h.keys x hx
      exact ⟨n, hkey, by omega⟩
    · exact ⟨_, rfl, by omega⟩
  · rw [itemsOf, hentries, hpairs, map_append, map_singleton, itemsOf, itemOf,
      ofBigEndian_key (by omega)]

end

end Tallied

/-! ### Quarantine -/

/-- The values found corrupt are put under their keys. -/
def setAll (bad : List CorruptEntry) (b : Bucket) : Bucket :=
  bad.foldl (fun b x => FiniteMap.set b (seqKey x.seq) x.value) b

theorem get_setAll (bad : List CorruptEntry) (b : Bucket) (k : Bytes) :
    (FiniteMap.get (setAll bad b) k).isSome ↔
      (FiniteMap.get b k).isSome ∨ k ∈ bad.map fun x => seqKey x.seq := by
  unfold setAll
  induction bad generalizing b with
  | nil => simp
  | cons x bad ih =>
    rw [foldl_cons, ih, get_set, map_cons, mem_cons]
    by_cases hk : k = seqKey x.seq
    · simp [hk]
    · simp [hk]

/-- Corrupt entries that are all there are all moved. -/
theorem foldl_move {bad : List CorruptEntry} {entries : Bucket} (quarantine : Bucket) (moved : ℕ)
    (hnodup : (bad.map fun x => seqKey x.seq).Nodup)
    (hpresent : ∀ x ∈ bad, (FiniteMap.get entries (seqKey x.seq)).isSome) :
    bad.foldl Queue.move (entries, quarantine, moved) =
      ((bad.map fun x => seqKey x.seq).foldl (fun b k => FiniteMap.del b k) entries,
        setAll bad quarantine, moved + bad.length) := by
  induction bad generalizing entries quarantine moved with
  | nil => rfl
  | cons x bad ih =>
    obtain ⟨hx, hnodup⟩ := nodup_cons.mp hnodup
    have hthere : ¬ FiniteMap.get entries (seqKey x.seq) = none := by
      rw [← Option.isNone_iff_eq_none, Bool.not_eq_true, Option.isNone_eq_false_iff]
      exact hpresent x mem_cons_self
    have hmove : Queue.move (entries, quarantine, moved) x =
        (FiniteMap.del entries (seqKey x.seq), FiniteMap.set quarantine (seqKey x.seq) x.value,
          moved + 1) := if_neg hthere
    rw [foldl_cons, hmove, ih _ _ hnodup ?_]
    · rw [map_cons, foldl_cons, setAll, setAll, foldl_cons, length_cons,
        Nat.add_right_comm, Nat.add_assoc]
    · intro y hy
      have hne : seqKey y.seq ≠ seqKey x.seq := fun heq => hx (mem_map.mpr ⟨y, hy, heq⟩)
      rw [get_del, if_neg hne]
      exact hpresent y (.tail _ hy)

/-! ### What a Peek visits -/

theorem scan_out (n : ℕ) (l : List (Bytes × Bytes)) :
    (Queue.scan n l).1 = (l.filterMap entryOf).take n := by
  fun_induction Queue.scan n l with
  | case1 => rfl
  | case2 => simp
  | case3 n x rest err hx out bad hscan ih =>
    have hentry : entryOf x = none := by rw [entryOf, hx, Except.toOption]
    rw [hscan] at ih
    rw [filterMap_cons_none hentry]
    exact ih
  | case4 n x rest e hx out bad hscan ih =>
    have hentry : entryOf x = some e := by rw [entryOf, hx, Except.toOption]
    rw [hscan] at ih
    rw [filterMap_cons_some hentry, take_succ_cons]
    exact congrArg _ ih

theorem scan_bad (n : ℕ) (l : List (Bytes × Bytes)) :
    (Queue.scan n l).2.Sublist (l.filterMap corruptOf) := by
  fun_induction Queue.scan n l with
  | case1 => exact nil_sublist _
  | case2 => exact nil_sublist _
  | case3 n x rest err hx out bad hscan ih =>
    have hcorrupt : corruptOf x = some ⟨.ofNat (ofBigEndian x.1), err, x.2⟩ := by
      rw [corruptOf, hx]
    rw [hscan] at ih
    rw [filterMap_cons_some hcorrupt]
    exact ih.cons_cons _
  | case4 n x rest e hx out bad hscan ih =>
    have hcorrupt : corruptOf x = none := by rw [corruptOf, hx]
    rw [hscan] at ih
    rw [filterMap_cons_none hcorrupt]
    exact ih

theorem scan_met {l : List (Bytes × Bytes)}
    (hl : ∀ x ∈ l, ∀ b, corruptOf x = some b → b.seq.toNat = (itemOf x).seq) :
    (Queue.scan n l).2.map (fun b => b.seq.toNat) = Fifo.met n (l.map itemOf) := by
  fun_induction Queue.scan n l with
  | case1 => rw [Fifo.met, map_nil]
  | case2 n =>
    cases n with
    | zero => rfl
    | succ n => rfl
  | case3 n x rest err hx out bad hscan ih =>
    have hitem : itemOf x = ⟨ofBigEndian x.1, none⟩ := by
      rw [itemOf, entryOf, hx, Except.toOption]
    have hseq := hl x mem_cons_self ⟨.ofNat (ofBigEndian x.1), err, x.2⟩ (by
      rw [corruptOf, hx])
    have ih := ih fun y hy => hl y (.tail _ hy)
    rw [hscan] at ih
    rw [hitem] at hseq
    rw [map_cons, map_cons, hitem, Fifo.met, ← ih]
    exact congrArg (· :: _) hseq
  | case4 n x rest e hx out bad hscan ih =>
    have hitem : itemOf x = ⟨ofBigEndian x.1, some e⟩ := by
      rw [itemOf, entryOf, hx, Except.toOption]
    have ih := ih fun y hy => hl y (.tail _ hy)
    rw [hscan] at ih
    rw [map_cons, hitem, Fifo.met]
    exact ih

/-! ### The operations -/

theorem toNat_sub_ofNat {c : UInt64} (h : n ≤ c.toNat) :
    (c - .ofNat n).toNat = c.toNat - n := by
  have hlt : c.toNat < 2 ^ 64 := c.toNat_lt
  have hn : (UInt64.ofNat n).toNat = n := by
    rw [UInt64.toNat_ofNat', Nat.mod_eq_of_lt (by omega)]
  rw [UInt64.toNat_sub_of_le _ _ (UInt64.le_iff_toNat_le.mpr (by omega)), hn]

theorem toNat_add_one {c : UInt64} (h : c.toNat + 1 < 2 ^ 64) : (c + 1).toNat = c.toNat + 1 := by
  rw [UInt64.toNat_add]
  exact Nat.mod_eq_of_lt h

/-- The fields of the queue after a Put that fits. -/
theorem insert_ok (q : Queue) (removed : List (Bytes × Bytes)) (hv : v.length ≤ maxValueSize) :
    ∃ q', q.insert v removed =
        .ok (q', getUint q.metaData keyNext + 1, removed.filterMap entryOf) ∧
      q'.entries = FiniteMap.set q.entries (seqKey (getUint q.metaData keyNext + 1)) v ∧
      q'.metaData = putUint (putUint q.metaData keyNext (getUint q.metaData keyNext + 1)) keyCount
        (getUint q.metaData keyCount - .ofNat removed.length + 1) ∧
      q'.count = q.count - removed.length + 1 ∧ q'.closed = q.closed ∧
      q'.quarantine = q.quarantine :=
  ⟨_, if_neg (Nat.not_lt.mpr hv), rfl, rfl, rfl, rfl, rfl⟩

namespace Tallied

variable {q : Queue}

section

variable (h : Tallied q)
include h

/-- INTERNAL: **What an Enqueue does** once the victims are chosen. -/
theorem insert {victims : List (Bytes × Bytes)}
    (hvictims : victims.Sublist q.entries.entries) (hroom : lastSeq q + 2 < 2 ^ 64)
    (hv : v.length ≤ maxValueSize) :
    ∃ q', (q.evict victims).insert v victims =
        .ok (q', .ofNat (lastSeq q + 1), victims.filterMap entryOf) ∧
      Tallied q' ∧ lastSeq q' = lastSeq q + 1 ∧ q'.closed = q.closed ∧
      q'.quarantine = setAll (victims.filterMap corruptOf) q.quarantine ∧
      itemsOf q' =
        ((itemsOf q).filter fun x => x.seq ∉ (victims.map itemOf).map QueueItem.seq) ++
          [⟨lastSeq q + 1, entryOf (bigEndian 8 (lastSeq q + 1), v)⟩] := by
  have hkeys : victims.map Prod.fst =
      ((victims.map itemOf).map QueueItem.seq).map (bigEndian 8) := by
    rw [map_map, map_map]
    exact map_congr_left fun x hx => (h.key_eq (hvictims.subset hx)).1
  have hsub : ((victims.map itemOf).map QueueItem.seq).Sublist
      ((itemsOf q).map QueueItem.seq) := (hvictims.map itemOf).map QueueItem.seq
  have hlen : victims.length ≤ storedCount q := by
    rw [h.count, ← length_entries]
    exact hvictims.length_le
  have hseq : (getUint q.metaData keyNext + 1).toNat = lastSeq q + 1 := toNat_add_one (by
    unfold lastSeq at hroom
    omega)
  have hcount : (getUint q.metaData keyCount - .ofNat victims.length).toNat =
      storedCount q - victims.length := toNat_sub_ofNat hlen
  -- The queue between the eviction and the Put, with its counts brought up to date.
  obtain ⟨p, hp⟩ : ∃ p : Queue, { q.evict victims with
      metaData := putUint q.metaData keyCount
        (getUint q.metaData keyCount - .ofNat victims.length)
      count := q.count - victims.length } = p := ⟨_, rfl⟩
  have hplast : lastSeq p = lastSeq q := by
    rw [← hp]
    simp only [lastSeq, getUint_putUint, if_neg keyNext_ne_keyCount]
  have hpcount : storedCount p = storedCount q - victims.length := by
    rw [← hp]
    simp only [storedCount, getUint_putUint, if_true]
    exact hcount
  obtain ⟨hpkept, hpitems⟩ := h.removed (h.seqs_nodup.sublist hsub)
    (fun n hn => hsub.subset hn) (p := p) (by rw [← hp, ← hkeys]; rfl) hplast
    (by rw [hpcount, length_map, length_map]; omega)
    (by rw [← hp, length_map, length_map])
  have hstored : storedCount q ≤ lastSeq q := h.count ▸ h.bounded
  have hnext : getUint q.metaData keyNext + 1 = .ofNat (lastSeq q + 1) := by
    rw [← hseq, UInt64.ofNat_toNat]
  obtain ⟨q', hok, hentries, hmeta, hmemory, hclosed, hquar⟩ :=
    insert_ok (q.evict victims) victims hv
  have hlast : lastSeq q' = lastSeq q + 1 := by
    rw [lastSeq, hmeta]
    simp only [getUint_putUint, if_neg keyNext_ne_keyCount, if_true]
    exact hseq
  have hstored' : storedCount q' = storedCount p + 1 := by
    rw [storedCount, hmeta]
    simp only [getUint_putUint, if_true]
    have hfits : (getUint q.metaData keyCount - .ofNat victims.length).toNat + 1 < 2 ^ 64 := by
      omega
    rw [hpcount, ← hcount]
    exact toNat_add_one hfits
  obtain ⟨hkept, hitems⟩ := hpkept.appended (v := v) (p := q') (by omega)
    (by
      rw [hentries, hplast, ← hseq, ← hp]
      rfl)
    (by rw [hlast, hplast]) hstored'
    (by
      rw [hmemory, ← hp]
      rfl)
  refine ⟨q', ?_, hkept, hlast, hclosed, hquar, ?_⟩
  · rw [hok, ← hnext]
    rfl
  · rw [hitems, hpitems, hplast]

/-- INTERNAL: **What moving corrupt entries does** when all of them are there. -/
theorem quarantineAll {bad : List CorruptEntry} (hnodup : (bad.map fun b => b.seq.toNat).Nodup)
    (hmem : ∀ n ∈ bad.map fun b => b.seq.toNat, n ∈ (itemsOf q).map QueueItem.seq) :
    Tallied (q.quarantineAll bad) ∧ lastSeq (q.quarantineAll bad) = lastSeq q ∧
      (q.quarantineAll bad).closed = q.closed ∧
      (q.quarantineAll bad).quarantine = setAll bad q.quarantine ∧
      itemsOf (q.quarantineAll bad) =
        (itemsOf q).filter fun x => x.seq ∉ bad.map fun b => b.seq.toNat := by
  have hroom := h.room
  have hkeys : (bad.map fun b => seqKey b.seq) =
      (bad.map fun b => b.seq.toNat).map (bigEndian 8) := by
    rw [map_map]
    rfl
  have hkeysNodup : (bad.map fun b => seqKey b.seq).Nodup := by
    rw [hkeys]
    refine List.Nodup.map_on (fun n hn m hm heq => ?_) hnodup
    have hle := (h.get_isSome (hmem n hn)).2
    have hle' := (h.get_isSome (hmem m hm)).2
    exact bigEndian_injective (by omega) (by omega) heq
  have hmove := foldl_move q.quarantine 0 hkeysNodup fun b hb =>
    (h.get_isSome (hmem _ (mem_map_of_mem hb))).1
  obtain ⟨q', hq', hentries, hquar, hmeta, hmemory, hclosed⟩ : ∃ q', q.quarantineAll bad = q' ∧
      q'.entries = (bad.map fun b => seqKey b.seq).foldl (fun b k => FiniteMap.del b k) q.entries ∧
      q'.quarantine = setAll bad q.quarantine ∧
      q'.metaData = putUint q.metaData keyCount
        (getUint q.metaData keyCount - .ofNat bad.length) ∧
      q'.count = q.count - bad.length ∧ q'.closed = q.closed := by
    refine ⟨_, rfl, ?_⟩
    unfold Queue.quarantineAll
    simp only [hmove, Nat.zero_add, and_self]
  have hbad : bad.length ≤ storedCount q := by
    have hlen := h.len_delAll hnodup hmem
    rw [length_map] at hlen
    have hcount := h.count
    omega
  have hlast : lastSeq q' = lastSeq q := by
    rw [lastSeq, hmeta]
    simp only [getUint_putUint, if_neg keyNext_ne_keyCount]
    rfl
  have hstored : storedCount q' + bad.length = storedCount q := by
    rw [storedCount, hmeta]
    simp only [getUint_putUint, if_true]
    rw [toNat_sub_ofNat hbad]
    exact Nat.sub_add_cancel hbad
  obtain ⟨hkept, hitems⟩ := h.removed hnodup hmem (p := q') (by rw [hentries, hkeys]) hlast
    (by rw [length_map]; exact hstored) (by rw [length_map]; exact hmemory)
  rw [hq']
  exact ⟨hkept, hlast, hclosed, hquar, hitems⟩

/-- The corrupt entries a Peek finds are there, each once. -/
theorem scan_there (mark : UInt64) (n : ℕ) :
    let l := seek q.entries (seqKey (mark + 1))
    ((Queue.scan n l).2.map fun b => b.seq.toNat).Sublist ((itemsOf q).map QueueItem.seq) := by
  intro l
  have hl : l.Sublist q.entries.entries := filter_sublist
  have hseqs : ∀ l' : List (Bytes × Bytes), (∀ x ∈ l', x ∈ q.entries.entries) →
      ((l'.filterMap corruptOf).map fun b => b.seq.toNat).Sublist
        ((l'.map itemOf).map QueueItem.seq) := by
    intro l' hl'
    induction l' with
    | nil => exact nil_sublist _
    | cons x l' ih =>
      have ih := ih fun y hy => hl' y (.tail _ hy)
      cases hx : corruptOf x with
      | none =>
        rw [filterMap_cons_none hx]
        exact ih.cons _
      | some b =>
        rw [filterMap_cons_some hx, map_cons, map_cons, map_cons,
          (h.seqKey_corruptOf (hl' x mem_cons_self) hx).2]
        exact ih.cons_cons _
  exact ((scan_bad n l).map _).trans
    ((hseqs l fun x hx => hl.subset hx).trans ((hl.map itemOf).map QueueItem.seq))

/-- INTERNAL: **What an Ack does.** -/
theorem ack {seq : UInt64} {q' : Queue} (hack : q.ack seq = .ok q') :
    Tallied q' ∧ lastSeq q' = lastSeq q ∧ q'.closed = q.closed ∧ q'.quarantine = q.quarantine ∧
      itemsOf q' = (itemsOf q).filter fun x => x.seq ∉ [seq.toNat] := by
  have hroom := h.room
  unfold Queue.ack at hack
  split at hack
  · cases hack
  split at hack
  · rename_i hnone
    obtain rfl := Except.ok.inj hack
    refine ⟨h, rfl, rfl, rfl, ?_⟩
    symm
    refine filter_eq_self.mpr fun i hi => ?_
    refine decide_eq_true fun hcon => ?_
    have hsome := (h.get_isSome (mem_map_of_mem hi)).1
    rw [mem_singleton.mp hcon] at hsome
    rw [show bigEndian 8 seq.toNat = seqKey seq from rfl, hnone] at hsome
    cases hsome
  · rename_i hsome
    obtain rfl := Except.ok.inj hack
    obtain ⟨v, hv⟩ := Option.ne_none_iff_exists'.mp hsome
    have hx := (mem_entries _ _ _).mpr hv
    obtain ⟨hkey, hle⟩ := h.key_eq hx
    have hseq : (itemOf (seqKey seq, v)).seq = seq.toNat :=
      ofBigEndian_key seq.toNat_lt
    have hmem : seq.toNat ∈ (itemsOf q).map QueueItem.seq := by
      rw [← hseq]
      exact mem_map_of_mem (mem_map_of_mem hx)
    have hpos : 1 ≤ storedCount q := by
      rw [h.count, ← length_entries]
      exact length_pos_of_mem hx
    have hmax : max (getUint q.metaData keyCount) 1 = getUint q.metaData keyCount := by
      rw [UInt64.max_def]
      split
      · rename_i hone
        exact UInt64.le_antisymm (UInt64.le_iff_toNat_le.mpr hpos) hone
      · rfl
    obtain ⟨hkept, hitems⟩ := h.removed (nodup_singleton seq.toNat)
      (fun n hn => by rw [mem_singleton.mp hn]; exact hmem)
      (p := { q with
        entries := FiniteMap.del q.entries (seqKey seq)
        metaData := putUint q.metaData keyCount (max (getUint q.metaData keyCount) 1 - 1)
        count := q.count - 1 }) rfl
      (by
        simp only [lastSeq, getUint_putUint, if_neg keyNext_ne_keyCount])
      (by
        simp only [storedCount, getUint_putUint, if_true, hmax]
        have hsub : (getUint q.metaData keyCount - 1).toNat = storedCount q - 1 :=
          toNat_sub_ofNat hpos
        rw [hsub, length_singleton]
        exact Nat.sub_add_cancel hpos)
      rfl
    refine ⟨hkept, ?_, rfl, rfl, hitems⟩
    simp only [lastSeq, getUint_putUint, if_neg keyNext_ne_keyCount]

/-- INTERNAL: **What damage to a stored value does.** -/
theorem damage {seq : UInt64} (hbad : entryOf (seqKey seq, v) = none) :
    Tallied (q.damage seq v) ∧ lastSeq (q.damage seq v) = lastSeq q ∧
      (q.damage seq v).closed = q.closed ∧ (q.damage seq v).quarantine = q.quarantine ∧
      itemsOf (q.damage seq v) =
        (itemsOf q).map fun x => if x.seq = seq.toNat then { x with entry := none } else x := by
  have hlt := seq.toNat_lt
  have hroom := h.room
  have hitem : ∀ x ∈ q.entries.entries, x.1 = seqKey seq ↔ (itemOf x).seq = seq.toNat := by
    intro x hx
    obtain ⟨hkey, hle⟩ := h.key_eq hx
    rw [hkey]
    exact ⟨fun heq => bigEndian_injective (by omega) (by omega) heq, fun heq => by rw [heq]; rfl⟩
  unfold Queue.damage
  split
  · rename_i hnone
    refine ⟨h, rfl, rfl, rfl, ?_⟩
    rw [itemsOf, map_map]
    refine map_congr_left fun x hx => ?_
    have hne : ¬ (itemOf x).seq = seq.toNat := by
      rw [← hitem x hx]
      intro heq
      have hget := (mem_entries _ x.1 x.2).mp hx
      rw [heq, hnone] at hget
      cases hget
    rw [Function.comp_apply, if_neg hne]
  · rename_i hsome
    have hpairs := entries_set_present v (Option.isSome_iff_ne_none.mpr hsome)
    have hlen : FiniteMap.len (FiniteMap.set q.entries (seqKey seq) v) =
        FiniteMap.len q.entries := by
      rw [← length_entries, hpairs, length_map, length_entries]
    refine ⟨⟨?_, ?_, ?_, ?_, h.room⟩, rfl, rfl, rfl, ?_⟩
    · intro x hx
      rw [hpairs] at hx
      obtain ⟨y, hy, rfl⟩ := mem_map.mp hx
      split
      · rename_i heq
        obtain ⟨n, hkey, hn⟩ := h.keys y hy
        exact ⟨n, heq ▸ hkey, hn⟩
      · exact h.keys y hy
    · exact h.count.trans hlen.symm
    · exact h.memory.trans (congrArg _ hlen.symm)
    · rw [hlen]
      exact h.bounded
    · rw [itemsOf, hpairs, itemsOf, map_map, map_map]
      refine map_congr_left fun x hx => ?_
      rw [Function.comp_apply, Function.comp_apply]
      by_cases heq : x.1 = seqKey seq
      · rw [if_pos heq, if_pos ((hitem x hx).mp heq)]
        rw [itemOf, hbad, itemOf, heq]
      · rw [if_neg heq, if_neg (fun hcon => heq ((hitem x hx).mpr hcon))]

/-- A queue opened again is the queue that was left. -/
theorem reopen : Tallied q.reopen :=
  ⟨h.keys, h.count, congrArg Nat.cast h.count, h.bounded, h.room⟩

end

end Tallied

end Mqttv5.Analysis
