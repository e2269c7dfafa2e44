import Mathlib.Data.List.Rotate
import Mathlib.Tactic.NormNum
import Mqttv5.Program.Failover

/-!
# Every listed broker is tried

A walk over `n` brokers that all refuse dials the entries `x`, `x + 1`, … of the list, `n` of
them, where `x` is the pointer it starts at. The pointer wraps around at `2 ^ 32`, and on a
platform with a 32-bit `int` its upper half is negative, so the walk is one over the whole list
exactly when it stays clear of both.
-/

set_option autoImplicit false

namespace Mqttv5.Guarantees

open Program List

variable {n : ℕ} {w : IntSize} {x : UInt32} {rounds : ℕ → Round} {c : Brokers}

/-! ### The entry of a pointer -/

/-- The index of the entry the pointer `x` is at in a list of `n`. -/
def entry (w : IntSize) (n : ℕ) (x : UInt32) : Option ℕ :=
  match w with
  | .int64 => some (x.toNat % n)
  | .int32 =>
    if x.toNat < 2 ^ 31 then some (x.toNat % n)
    else if n ∣ 2 ^ 32 - x.toNat then some 0 else none

theorem ofUint32_int64 (x : UInt32) : IntSize.int64.ofUint32 x = x.toNat := by
  have hx := x.toNat_lt
  unfold IntSize.ofUint32
  rw [show IntSize.int64.bits = 64 from rfl, Int.bmod_def]
  omega

theorem ofUint32_int32 (x : UInt32) :
    IntSize.int32.ofUint32 x = if x.toNat < 2 ^ 31 then (x.toNat : ℤ) else x.toNat - 2 ^ 32 := by
  have hx := x.toNat_lt
  unfold IntSize.ofUint32
  rw [show IntSize.int32.bits = 32 from rfl, Int.bmod_def]
  split <;> split <;> omega

/-- A non-negative pointer. -/
theorem index_of_nonneg (x : ℕ) (urls : List String) (hn : urls.length = n) :
    (if ((x : ℤ).tmod urls.length) < 0 then none else urls[((x : ℤ).tmod urls.length).toNat]?) =
      urls[x % n]? := by
  have h : (x : ℤ).tmod urls.length = ((x % n : ℕ) : ℤ) := by
    rw [hn]
    rfl
  rw [h, if_neg (by omega), Int.toNat_natCast]

/-- A negative pointer is at the first entry or out of the list. -/
theorem index_of_neg (k : ℕ) (urls : List String) :
    (if ((-(k : ℤ)).tmod urls.length) < 0 then none
      else urls[((-(k : ℤ)).tmod urls.length).toNat]?) =
      if urls.length ∣ k then urls[0]? else none := by
  have h : (-(k : ℤ)).tmod urls.length = -((k % urls.length : ℕ) : ℤ) := by
    rw [Int.neg_tmod]
    rfl
  rw [h]
  by_cases hd : urls.length ∣ k
  · rw [if_pos hd, Nat.mod_eq_zero_of_dvd hd]
    rfl
  · have hpos : 0 < k % urls.length := Nat.pos_of_ne_zero fun h0 => hd (Nat.dvd_of_mod_eq_zero h0)
    rw [if_neg hd, if_pos (by omega)]

/-- INTERNAL: The element of the list the pointer is at. -/
theorem currentBrokerURL_eq (w : IntSize) (c : Brokers) (hn : 0 < c.brokerURLs.length) :
    currentBrokerURL w c =
      (entry w c.brokerURLs.length c.brokerIdx).bind fun k => c.brokerURLs[k]? := by
  unfold currentBrokerURL entry
  rw [if_neg (by omega)]
  cases w with
  | int64 =>
    rw [ofUint32_int64]
    exact index_of_nonneg _ _ rfl
  | int32 =>
    have hx := c.brokerIdx.toNat_lt
    rw [ofUint32_int32]
    by_cases hlt : c.brokerIdx.toNat < 2 ^ 31
    · simp only [if_pos hlt]
      exact index_of_nonneg _ _ rfl
    · simp only [if_neg hlt]
      rw [show (c.brokerIdx.toNat : ℤ) - 2 ^ 32 = -((2 ^ 32 - c.brokerIdx.toNat : ℕ) : ℤ) by omega,
        index_of_neg]
      split <;> rfl

theorem currentBrokerURL_at (w : IntSize) (c : Brokers) (y : UInt32)
    (hn : 0 < c.brokerURLs.length) :
    currentBrokerURL w { c with brokerIdx := y } =
      (entry w c.brokerURLs.length y).bind fun k => c.brokerURLs[k]? :=
  currentBrokerURL_eq w { c with brokerIdx := y } hn

theorem entry_lt {k : ℕ} (hn : 0 < n) (h : entry w n x = some k) : k < n := by
  unfold entry at h
  cases w with
  | int64 =>
    cases h
    exact Nat.mod_lt _ hn
  | int32 =>
    simp only at h
    split at h
    · cases h
      exact Nat.mod_lt _ hn
    · split at h
      · cases h
        exact hn
      · cases h

/-! ### A walk over brokers that refuse -/

/-- Nothing but the walk itself happens, and the broker refuses. -/
def refuses (r : Round) : Prop :=
  r.setBrokers = none ∧ r.flushed = true ∧ r.ended = false ∧ r.ctxDone = false ∧
    ∃ err, r.answer = .refused err none

/-- The brokers dialled from pointer `x` on, `none` once the pointer is out of the list. -/
def dials (w : IntSize) (c : Brokers) : ℕ → UInt32 → Option (List String)
  | 0, _ => some []
  | left + 1, x =>
    (currentBrokerURL w { c with brokerIdx := x }).bind fun u =>
      (dials w c left (x + 1)).map (u :: ·)

/-- The pointer an attempt dials from, in the round numbered `i`. -/
def dialled (i : ℕ) (x : UInt32) : UInt32 := if 0 < i then x + 1 else x

/-- INTERNAL: What the loop does when every broker refuses. The induction is on the attempts
left; after the first of them the pointer moves before each. -/
theorem passLoop_refuses (w : IntSize) (ctx : Bool) (hr : ∀ i, refuses (rounds i)) (c : Brokers)
    (hc : c.redirectOnce = none) (left : ℕ) :
    ∀ (i : ℕ) (x : UInt32) (b : Bool) (ds : List String) (errs : List (String × ℕ)),
      (0 < i → b = true) →
      match dials w c left (dialled i x) with
      | none => (passLoop w ctx rounds left i b ⟨{ c with brokerIdx := x }, ds, errs⟩).2 = .panicked
      | some us => (passLoop w ctx rounds left i b ⟨{ c with brokerIdx := x }, ds, errs⟩).2 =
            .exhausted ∧
          (passLoop w ctx rounds left i b ⟨{ c with brokerIdx := x }, ds, errs⟩).1.dialled =
            ds ++ us := by
  induction left with
  | zero =>
    intro i x b ds errs _
    simp [dials, passLoop]
  | succ left ih =>
    intro i x b ds errs hb
    obtain ⟨hset, hflush, hend, hctx, err, hans⟩ := hr i
    -- the pointer of this attempt
    have hc' : (if 0 < i ∧ b = true then ({ c with brokerIdx := x } : Brokers).advance
        else { c with brokerIdx := x }) = { c with brokerIdx := dialled i x } := by
      unfold dialled
      by_cases hi : 0 < i
      · rw [if_pos ⟨hi, hb hi⟩, if_pos hi]
        rfl
      · rw [if_neg fun h => hi h.1, if_neg hi]
    have hnext : nextBrokerURL w { c with brokerIdx := dialled i x } =
        (currentBrokerURL w { c with brokerIdx := dialled i x }).map
          fun u => ({ c with brokerIdx := dialled i x }, u, false) := by
      simp [nextBrokerURL, hc]
    have hflush' : ¬ (0 < i ∧ ¬ (rounds i).flushed = true) := by simp [hflush]
    have hloop : ∀ u, currentBrokerURL w { c with brokerIdx := dialled i x } = some u →
        passLoop w ctx rounds (left + 1) i b ⟨{ c with brokerIdx := x }, ds, errs⟩ =
          passLoop w ctx rounds left (i + 1) true
            ⟨{ c with brokerIdx := dialled i x }, ds ++ [u], errs ++ [(u, err)]⟩ := by
      intro u hu
      rw [passLoop]
      simp only [hset, if_neg hflush', hc', hnext, hu, Option.map_some, hans, hend, redirectFrom,
        hctx, Bool.false_eq_true, and_false, if_false, Bool.not_false]
    have hstep : dials w c (left + 1) (dialled i x) =
        (currentBrokerURL w { c with brokerIdx := dialled i x }).bind fun u =>
          (dials w c left (dialled i x + 1)).map (u :: ·) := rfl
    rw [hstep]
    cases hu : currentBrokerURL w { c with brokerIdx := dialled i x } with
    | none =>
      simp only [Option.bind_none]
      rw [passLoop]
      simp only [hset, if_neg hflush', hc', hnext, hu, Option.map_none]
    | some u =>
      have hrest := ih (i + 1) (dialled i x) true (ds ++ [u]) (errs ++ [(u, err)]) fun _ => rfl
      rw [show dialled (i + 1) (dialled i x) = dialled i x + 1 from if_pos (Nat.succ_pos i),
        ← hloop u hu] at hrest
      simp only [Option.bind_some]
      cases hus : dials w c left (dialled i x + 1) with
      | none =>
        rw [hus] at hrest
        exact hrest
      | some us =>
        rw [hus] at hrest
        simp only [Option.map_some]
        refine ⟨hrest.1, ?_⟩
        rw [hrest.2, append_assoc, singleton_append]

/-! ### The entries of a walk -/

/-- The pointer after `j` more attempts. -/
def pointer (x : UInt32) (j : ℕ) : UInt32 := x + UInt32.ofNat j

theorem pointer_zero (x : UInt32) : pointer x 0 = x := by simp [pointer]

theorem pointer_succ (x : UInt32) (j : ℕ) : pointer x (j + 1) = pointer (x + 1) j := by
  unfold pointer
  rw [UInt32.ofNat_add, UInt32.add_assoc, UInt32.add_comm (UInt32.ofNat j)]
  rfl

theorem pointer_toNat (x : UInt32) (j : ℕ) : (pointer x j).toNat = (x.toNat + j) % 2 ^ 32 := by
  unfold pointer
  rw [UInt32.toNat_add, UInt32.toNat_ofNat', Nat.add_mod_mod]

/-- INTERNAL: A walk that stays in the list, entry by entry. -/
theorem dials_of_entries (w : IntSize) (c : Brokers) (u : ℕ → String) (left : ℕ) :
    ∀ (x : UInt32) (i : ℕ), (∀ j < left,
      currentBrokerURL w { c with brokerIdx := pointer x j } = some (u (i + j))) →
      dials w c left x = some ((List.range' i left).map u) := by
  induction left with
  | zero => intro x i _; rfl
  | succ left ih =>
    intro x i h
    have h0 := h 0 (Nat.succ_pos left)
    rw [pointer_zero, Nat.add_zero] at h0
    have hrest : dials w c left (x + 1) = some ((List.range' (i + 1) left).map u) := by
      refine ih (x + 1) (i + 1) fun j hj => ?_
      rw [← pointer_succ, h (j + 1) (Nat.succ_lt_succ hj), Nat.add_right_comm, Nat.add_assoc]
    rw [dials, h0, Option.bind_some, hrest]
    rfl

/-- INTERNAL: The entries of a walk that stayed in the list. -/
theorem dials_getElem? (w : IntSize) (c : Brokers) (left : ℕ) :
    ∀ (x : UInt32) (us : List String), dials w c left x = some us → ∀ j < left,
      us[j]? = currentBrokerURL w { c with brokerIdx := pointer x j } ∧
        (currentBrokerURL w { c with brokerIdx := pointer x j }).isSome = true := by
  induction left with
  | zero =>
    intro x us _ j hj
    exact absurd hj (Nat.not_lt_zero j)
  | succ left ih =>
    intro x us h j hj
    obtain ⟨u, hu, hrest⟩ := Option.bind_eq_some_iff.mp h
    obtain ⟨vs, hvs, rfl⟩ := Option.map_eq_some_iff.mp hrest
    cases j with
    | zero =>
      rw [pointer_zero, hu]
      exact ⟨rfl, rfl⟩
    | succ j =>
      rw [pointer_succ, List.getElem?_cons_succ]
      exact ih (x + 1) vs hvs j (Nat.lt_of_succ_lt_succ hj)

/-- The walk from pointer value `s` over `n` brokers stays clear of the wrap of the pointer and
of its negative values, or meets them where they do no harm. -/
def Covers (w : IntSize) (n s : ℕ) : Prop :=
  match w with
  | .int64 => s + n ≤ 2 ^ 32 ∨ n ∣ 2 ^ 32
  | .int32 => s + n ≤ 2 ^ 31 ∨ n = 1 ∨ (n ∣ 2 ^ 31 ∧ s + n = 2 ^ 31 + 1)

/-- INTERNAL: Under `Covers` attempt `j` is at entry `s + j`, counted around the list. -/
theorem entry_of_covers (h : Covers w n x.toNat) {j : ℕ} (hj : j < n) :
    entry w n (pointer x j) = some ((x.toNat + j) % n) := by
  unfold entry
  rw [pointer_toNat]
  cases w with
  | int64 =>
    rcases h with h | h
    · rw [Nat.mod_eq_of_lt (show x.toNat + j < 2 ^ 32 by omega)]
    · rw [Nat.mod_mod_of_dvd _ h]
  | int32 =>
    have hx := x.toNat_lt
    rcases h with h | rfl | ⟨hd, h⟩
    · have hlt : (x.toNat + j) % 2 ^ 32 = x.toNat + j := Nat.mod_eq_of_lt (by omega)
      simp only [hlt]
      rw [if_pos (by omega)]
    · simp only [Nat.mod_one, Nat.one_dvd, if_true, ite_self]
    · have hlt : (x.toNat + j) % 2 ^ 32 = x.toNat + j := Nat.mod_eq_of_lt (by omega)
      simp only [hlt]
      by_cases hlast : x.toNat + j < 2 ^ 31
      · rw [if_pos hlast]
      · have hsum : x.toNat + j = 2 ^ 31 := by omega
        rw [if_neg hlast, hsum, show 2 ^ 32 - 2 ^ 31 = 2 ^ 31 by norm_num, if_pos hd,
          Nat.mod_eq_zero_of_dvd hd]

/-- INTERNAL: Past the wrap of the pointer two attempts dial the same entry. With `k` attempts
before the wrap and `2 ^ 32` leaving the remainder `r`, these are the first entry twice, or the
entry of the first attempt. -/
theorem same_entry_of_wrap {s : ℕ} (hs : s < 2 ^ 32) (hwrap : 2 ^ 32 < s + n) (hd : ¬ n ∣ 2 ^ 32) :
    ∃ i j, i < j ∧ j < n ∧ (s + i) % 2 ^ 32 % n = (s + j) % 2 ^ 32 % n := by
  have hn : 0 < n := by omega
  obtain ⟨k, hk⟩ : ∃ k, s + k = 2 ^ 32 := ⟨2 ^ 32 - s, by omega⟩
  have hrn : 2 ^ 32 % n < n := Nat.mod_lt _ hn
  have hr0 : 0 < 2 ^ 32 % n := Nat.pos_of_ne_zero fun h => hd (Nat.dvd_of_mod_eq_zero h)
  have hq : n * (2 ^ 32 / n) + 2 ^ 32 % n = 2 ^ 32 := Nat.div_add_mod _ _
  generalize hr : 2 ^ 32 % n = r at hrn hr0 hq
  generalize 2 ^ 32 / n = q at hq
  by_cases hrk : r ≤ k
  · refine ⟨k - r, k, by omega, by omega, ?_⟩
    rw [hk, Nat.mod_self, Nat.zero_mod, Nat.mod_eq_of_lt (show s + (k - r) < 2 ^ 32 by omega),
      show s + (k - r) = n * q by omega, Nat.mul_mod_right]
  · refine ⟨0, r, hr0, hrn, ?_⟩
    have hsum : s + r = r - k + 2 ^ 32 := by omega
    have hs' : s = n * q + (r - k) := by omega
    rw [hsum, Nat.add_mod_right, Nat.mod_eq_of_lt (show r - k < 2 ^ 32 by omega),
      Nat.add_zero, Nat.mod_eq_of_lt hs, hs', Nat.mul_add_mod]

/-- INTERNAL: Outside `Covers` a walk with a 32-bit `int` leaves the list. -/
theorem entry_none_of_not_covers (hn : 0 < n) (h : ¬ Covers .int32 n x.toNat) :
    ∃ j < n, entry .int32 n (pointer x j) = none := by
  have hx := x.toNat_lt
  simp only [Covers, not_or, not_and] at h
  obtain ⟨hlong, hone, hlast⟩ := h
  have hn2 : 2 ≤ n := by omega
  -- a negative value whose distance to `2 ^ 32` is no multiple of `n`
  have hneg : ∀ j, (x.toNat + j) % 2 ^ 32 ≥ 2 ^ 31 → ¬ n ∣ 2 ^ 32 - (x.toNat + j) % 2 ^ 32 →
      entry .int32 n (pointer x j) = none := by
    intro j hge hnd
    unfold entry
    simp only [pointer_toNat]
    rw [if_neg (by omega), if_neg hnd]
  -- two neighbours are not both multiples
  have hnext : ∀ m, n ∣ m + 1 → ¬ n ∣ m := by
    intro m h1 h0
    have := (Nat.dvd_add_right h0).mp h1
    have := Nat.le_of_dvd Nat.one_pos this
    omega
  by_cases hbig : 2 ^ 31 ≤ x.toNat
  · have h0 : (x.toNat + 0) % 2 ^ 32 = x.toNat := Nat.mod_eq_of_lt hx
    by_cases hd : n ∣ 2 ^ 32 - x.toNat
    · have hle := Nat.le_of_dvd (by omega) hd
      have h1 : (x.toNat + 1) % 2 ^ 32 = x.toNat + 1 := Nat.mod_eq_of_lt (by omega)
      refine ⟨1, by omega, hneg 1 (by omega) ?_⟩
      rw [h1]
      refine hnext _ ?_
      rw [show 2 ^ 32 - (x.toNat + 1) + 1 = 2 ^ 32 - x.toNat by omega]
      exact hd
    · refine ⟨0, hn, hneg 0 (by omega) ?_⟩
      rw [h0]
      exact hd
  · have hmid : (x.toNat + (2 ^ 31 - x.toNat)) % 2 ^ 32 = 2 ^ 31 := by omega
    by_cases hd : n ∣ 2 ^ 31
    · have hmid1 : (x.toNat + (2 ^ 31 - x.toNat + 1)) % 2 ^ 32 = 2 ^ 31 + 1 := by omega
      refine ⟨2 ^ 31 - x.toNat + 1, by have := hlast hd; omega, hneg _ (by omega) ?_⟩
      rw [hmid1]
      refine hnext _ ?_
      rw [show 2 ^ 32 - (2 ^ 31 + 1) + 1 = 2 ^ 31 by norm_num]
      exact hd
    · refine ⟨2 ^ 31 - x.toNat, by omega, hneg _ (by omega) ?_⟩
      rw [hmid, show 2 ^ 32 - 2 ^ 31 = 2 ^ 31 by norm_num]
      exact hd

/-- INTERNAL: Under `Covers` the walk is once around the list, from the entry of the pointer. -/
theorem dials_of_covers (h : Covers w c.brokerURLs.length x.toNat) :
    dials w c c.brokerURLs.length x = some (c.brokerURLs.rotate x.toNat) := by
  have hwalk : ∀ j < c.brokerURLs.length,
      currentBrokerURL w { c with brokerIdx := pointer x j } =
        some ((c.brokerURLs.rotate x.toNat).getD (0 + j) "") := by
    intro j hj
    rw [currentBrokerURL_at w c _ (Nat.lt_of_le_of_lt (Nat.zero_le j) hj), entry_of_covers h hj,
      Option.bind_some, Nat.zero_add, getD_eq_getElem?_getD, List.getElem?_rotate hj,
      Nat.add_comm, List.getElem?_eq_getElem (Nat.mod_lt _ (Nat.lt_of_le_of_lt (Nat.zero_le j) hj))]
    rfl
  rw [dials_of_entries w c (fun i => (c.brokerURLs.rotate x.toNat).getD i "") _ x 0 hwalk]
  congr 1
  apply ext_getElem
  · simp
  · intro i h1 h2
    simp [getD_eq_getElem?_getD, List.getElem?_eq_getElem h2]

/-- `n` different URLs. -/
def someURLs (n : ℕ) : List String := (List.range n).map
    fun i => String.ofList (List.replicate i 'a')

theorem someURLs_length (n : ℕ) : (someURLs n).length = n := by simp [someURLs]

theorem someURLs_nodup (n : ℕ) : (someURLs n).Nodup := by
  refine List.Nodup.map (fun i j h => ?_) nodup_range
  have hlist := congrArg (fun s => s.toList.length) h
  simpa using hlist

/-- INTERNAL: Outside `Covers` the walk over different brokers is not one over the whole list. -/
theorem not_perm_of_not_covers (hn : 0 < c.brokerURLs.length) (hnodup : c.brokerURLs.Nodup)
    (h : ¬ Covers w c.brokerURLs.length x.toNat) {us : List String}
    (hus : dials w c c.brokerURLs.length x = some us) : ¬ us.Perm c.brokerURLs := by
  have hget := dials_getElem? w c c.brokerURLs.length x us hus
  cases w with
  | int32 =>
    obtain ⟨j, hj, hnone⟩ := entry_none_of_not_covers hn h
    have hsome := (hget j hj).2
    rw [currentBrokerURL_at _ _ _ hn, hnone] at hsome
    cases hsome
  | int64 =>
    simp only [Covers, not_or, not_le] at h
    obtain ⟨i, j, hij, hj, heq⟩ := same_entry_of_wrap x.toNat_lt h.1 h.2
    have hsame : us[i]? = us[j]? := by
      rw [(hget i (Nat.lt_trans hij hj)).1, (hget j hj).1, currentBrokerURL_at _ _ _ hn,
        currentBrokerURL_at _ _ _ hn]
      simp only [entry, pointer_toNat, heq]
    intro hperm
    have hnd := List.nodup_iff_getElem?_ne_getElem?.mp (hperm.nodup_iff.mpr hnodup)
    refine hnd i j hij ?_ hsame
    rw [hperm.length_eq]
    exact hj

/-! ### connectFirst and redial -/

/-- Where `connectFirst` starts. -/
def start (order : FailoverOrder) (x : UInt32) : UInt32 := if order = .priority then 0 else x

/-- `connectFirst` failed: no broker accepted, and it did not panic. -/
def ConnectFailed (r : ConnectResult) : Prop := (∃ err, r = .failedOnly err) ∨ ∃ errs,
    r = .failed errs

/-- INTERNAL: `connectFirst` when every broker refuses. -/
theorem connectFirst_refuses (w : IntSize) (c : Brokers) (hc : c.redirectOnce = none)
    (hr : ∀ i, refuses (rounds i)) :
    match dials w c c.brokerURLs.length (start c.order c.brokerIdx) with
    | none => (connectFirst w c rounds).2 = .panicked
    | some us => ConnectFailed (connectFirst w c rounds).2 ∧
        (connectFirst w c rounds).1.dialled = us := by
  have hstart : (if c.order = .priority then { c with brokerIdx := 0 } else c) =
      { c with brokerIdx := start c.order c.brokerIdx } := by
    unfold start
    split <;> rfl
  have hloop := passLoop_refuses w true hr c hc c.brokerURLs.length 0
    (start c.order c.brokerIdx) false [] [] (fun h => absurd h (Nat.lt_irrefl 0))
  unfold connectFirst
  simp only [hstart]
  rw [show dialled 0 (start c.order c.brokerIdx) = start c.order c.brokerIdx from rfl] at hloop
  cases hus : dials w c c.brokerURLs.length (start c.order c.brokerIdx) with
  | none =>
    rw [hus] at hloop
    simp only [hloop]
  | some us =>
    rw [hus] at hloop
    refine ⟨?_, hloop.2⟩
    simp only [hloop.1]
    split
    · exact .inl ⟨_, rfl⟩
    · exact .inr ⟨_, rfl⟩

/-- INTERNAL: An attempt of `redial` under `FailoverPriority` when every broker refuses. -/
theorem redialAttempt_refuses (w : IntSize) (c : Brokers) (hc : c.redirectOnce = none)
    (hp : c.order = .priority) (hr : ∀ i, refuses (rounds i)) :
    match dials w c c.brokerURLs.length 0 with
    | none => (redialAttempt w c rounds).2 = .panicked
    | some us => (∃ errs, (redialAttempt w c rounds).2 = .failed errs) ∧
        (redialAttempt w c rounds).1.dialled = us := by
  have hloop := passLoop_refuses w false hr c hc c.brokerURLs.length 0 0 false [] []
    (fun h => absurd h (Nat.lt_irrefl 0))
  unfold redialAttempt
  simp only [hp, if_true]
  rw [show dialled 0 0 = 0 from rfl] at hloop
  cases hus : dials w c c.brokerURLs.length 0 with
  | none =>
    rw [hus] at hloop
    rw [hp] at hloop
    simp only [hloop]
  | some us =>
    rw [hus] at hloop
    rw [hp] at hloop
    simp only [hloop.1]
    exact ⟨⟨_, rfl⟩, hloop.2⟩

/-- `connectFirst` over `n` brokers from pointer `x`, when no redirect arrives, the list does not
change and every broker refuses: it fails after dialling each listed broker once. -/
def TriesEach (w : IntSize) (order : FailoverOrder) (n : ℕ) (x : UInt32) : Prop :=
  ∀ (c : Brokers) (rounds : ℕ → Round), c.order = order → c.brokerURLs.length = n →
    c.brokerIdx = x → c.redirectOnce = none → (∀ i, refuses (rounds i)) →
      ConnectFailed (connectFirst w c rounds).2 ∧
        (connectFirst w c rounds).1.dialled.Perm c.brokerURLs

/-- The same for one attempt of `redial` under `FailoverPriority`, which goes in order. -/
def RedialsInOrder (w : IntSize) (n : ℕ) : Prop :=
  ∀ (c : Brokers) (rounds : ℕ → Round), c.order = .priority → c.brokerURLs.length = n →
    c.redirectOnce = none → (∀ i, refuses (rounds i)) →
      (∃ errs, (redialAttempt w c rounds).2 = .failed errs) ∧
        (redialAttempt w c rounds).1.dialled = c.brokerURLs

theorem covers_iff_triesEach (w : IntSize) (order : FailoverOrder) (n : ℕ) (hn : 0 < n)
    (x : UInt32) : TriesEach w order n x ↔ Covers w n (start order x).toNat := by
  constructor
  · intro h
    by_contra hcov
    -- a list of different brokers, all of which refuse
    obtain ⟨c, rfl, hlen, rfl, hc, hnd⟩ : ∃ c : Brokers, c.order = order ∧
        c.brokerURLs.length = n ∧ c.brokerIdx = x ∧ c.redirectOnce = none ∧ c.brokerURLs.Nodup :=
      ⟨⟨order, someURLs n, x, none⟩, rfl, someURLs_length n, rfl, rfl, someURLs_nodup n⟩
    have hr : ∀ i : ℕ, refuses ((fun _ => { answer := .refused 0 none }) i) :=
      fun _ => ⟨rfl, rfl, rfl, rfl, 0, rfl⟩
    have hrun := connectFirst_refuses w c hc hr
    obtain ⟨hfail, hperm⟩ := h c _ rfl hlen rfl hc hr
    subst hlen
    cases hus : dials w c c.brokerURLs.length (start c.order c.brokerIdx) with
    | none =>
      rw [hus] at hrun
      rw [hrun] at hfail
      rcases hfail with ⟨_, h⟩ | ⟨_, h⟩ <;> cases h
    | some us =>
      rw [hus] at hrun
      rw [hrun.2] at hperm
      exact not_perm_of_not_covers hn hnd hcov hus hperm
  · rintro hcov c rounds rfl rfl rfl hc hr
    have hrun := connectFirst_refuses w c hc hr
    rw [dials_of_covers hcov] at hrun
    refine ⟨hrun.1, ?_⟩
    rw [hrun.2]
    exact rotate_perm _ _

theorem covers_iff_redialsInOrder (w : IntSize) (n : ℕ) (hn : 0 < n) :
    RedialsInOrder w n ↔ Covers w n 0 := by
  constructor
  · intro h
    by_contra hcov
    obtain ⟨c, hp, hlen, hc, hnd⟩ : ∃ c : Brokers, c.order = .priority ∧
        c.brokerURLs.length = n ∧ c.redirectOnce = none ∧ c.brokerURLs.Nodup :=
      ⟨⟨.priority, someURLs n, 0, none⟩, rfl, someURLs_length n, rfl, someURLs_nodup n⟩
    have hr : ∀ i : ℕ, refuses ((fun _ => { answer := .refused 0 none }) i) :=
      fun _ => ⟨rfl, rfl, rfl, rfl, 0, rfl⟩
    have hrun := redialAttempt_refuses w c hc hp hr
    obtain ⟨⟨errs, hfail⟩, hdial⟩ := h c _ hp hlen hc hr
    subst hlen
    cases hus : dials w c c.brokerURLs.length 0 with
    | none =>
      rw [hus] at hrun
      rw [hrun] at hfail
      cases hfail
    | some us =>
      rw [hus] at hrun
      rw [hrun.2] at hdial
      refine not_perm_of_not_covers hn hnd hcov hus ?_
      rw [hdial]
  · rintro hcov c rounds hp rfl hc hr
    have hrun := redialAttempt_refuses w c hc hp hr
    rw [dials_of_covers (x := 0) hcov] at hrun
    refine ⟨hrun.1, ?_⟩
    rw [hrun.2]
    exact rotate_zero _

theorem currentBrokerURL_mem_iff (w : IntSize) (c : Brokers) (hn : 0 < c.brokerURLs.length) :
    (∃ u ∈ c.brokerURLs, currentBrokerURL w c = some u) ↔
      w = .int64 ∨ c.brokerIdx.toNat < 2 ^ 31 ∨
        c.brokerURLs.length ∣ 2 ^ 32 - c.brokerIdx.toNat := by
  have hmem : (∃ u ∈ c.brokerURLs, currentBrokerURL w c = some u) ↔
      (entry w c.brokerURLs.length c.brokerIdx).isSome = true := by
    rw [currentBrokerURL_eq w c hn]
    cases hk : entry w c.brokerURLs.length c.brokerIdx with
    | none => simp
    | some k =>
      have hlt := entry_lt hn hk
      simp [List.getElem?_eq_getElem hlt]
  rw [hmem]
  cases w with
  | int64 => simp [entry]
  | int32 =>
    unfold entry
    by_cases hlt : c.brokerIdx.toNat < 2 ^ 31
    · simp only [if_pos hlt]
      exact ⟨fun _ => .inr (.inl hlt), fun _ => rfl⟩
    · simp only [if_neg hlt]
      by_cases hd : c.brokerURLs.length ∣ 2 ^ 32 - c.brokerIdx.toNat
      · simp only [if_pos hd]
        exact ⟨fun _ => .inr (.inr hd), fun _ => rfl⟩
      · simp only [if_neg hd]
        refine ⟨fun h => (Bool.false_ne_true h).elim, ?_⟩
        rintro (h | h | h)
        · cases h
        · exact absurd h hlt
        · exact absurd h hd

/-- **When every listed broker is tried.** For every size of `int`, every number of brokers and
every pointer the walk can start at: the current entry is one of the list exactly when the
pointer, as an `int`, is not negative (or divides evenly), and `connectFirst`, or one attempt of
`redial` in list order, dials each broker once before it fails exactly when the walk stays clear
of the wrap of the pointer at `2 ^ 32` and of its negative values. -/
theorem every_broker_tried_iff_covers (w : IntSize) (n : ℕ) (hn : 0 < n) (x : UInt32) :
    (∀ c : Brokers, c.brokerURLs.length = n → c.brokerIdx = x →
      ((∃ u ∈ c.brokerURLs, currentBrokerURL w c = some u) ↔
        w = .int64 ∨ x.toNat < 2 ^ 31 ∨ n ∣ 2 ^ 32 - x.toNat)) ∧
    (∀ order, TriesEach w order n x ↔ Covers w n (start order x).toNat) ∧
    (RedialsInOrder w n ↔ Covers w n 0) := by
  refine ⟨?_, fun order => covers_iff_triesEach w order n hn x, covers_iff_redialsInOrder w n hn⟩
  rintro c rfl rfl
  exact currentBrokerURL_mem_iff w c hn

/-- Three brokers and a pointer one before its wrap: every one of them is tried when the platform
has a 64-bit `int` exactly if three divides `2 ^ 32`, and it does not. -/
theorem three_brokers_before_the_wrap :
    ¬ TriesEach .int64 .rotate 3 0xFFFFFFFF ∧ TriesEach .int64 .rotate 3 7 := by
  have hbad := (every_broker_tried_iff_covers .int64 3 (by decide) 0xFFFFFFFF).2.1 .rotate
  have hgood := (every_broker_tried_iff_covers .int64 3 (by decide) 7).2.1 .rotate
  exact ⟨fun h => absurd (hbad.mp h) (by unfold Covers start; decide),
    hgood.mpr (by unfold Covers start; decide)⟩

/-- The first broker is dialled twice and the last one not at all; with a 32-bit `int` the second
of two brokers is out of the list. -/
theorem a_broker_is_left_out :
    (connectFirst .int64 ⟨.rotate, ["a", "b", "c"], 0xFFFFFFFF, none⟩
      (fun i => { answer := .refused i none })) =
      (⟨⟨.rotate, ["a", "b", "c"], 1, none⟩, ["a", "a", "b"], [("a", 0), ("a", 1), ("b", 2)]⟩,
        .failed [("a", 0), ("a", 1), ("b", 2)]) ∧
    (connectFirst .int32 ⟨.rotate, ["a", "b"], 0x80000001, none⟩
      (fun i => { answer := .refused i none })).2 = .panicked ∧
    currentBrokerURL .int32 ⟨.rotate, ["a", "b"], 0x80000001, none⟩ = none := by
  decide

end Mqttv5.Guarantees
