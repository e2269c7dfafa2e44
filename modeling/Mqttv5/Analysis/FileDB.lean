import Mqttv5.Program.FileDB

/-!
# Buckets in order

A bucket's pairs stand in the order of their keys, each key once, so they are known as soon as it
is known what the bucket holds under each key. From this follows how the pairs change with every
write of the file store and the file queue. The numbers and times of a value are read back as
they were written.
-/

set_option autoImplicit false

namespace Mqttv5.Analysis

open Mqttv5.Computation Model Program List FiniteMap

variable {b : Bucket}

/-! ### The fields of a value -/

theorem ofUnixNano_unixNano {t : ℤ} (hlow : -2 ^ 63 ≤ t) (hhigh : t < 2 ^ 63) :
    ofUnixNano (ofBigEndian (bigEndian 8 (unixNano t))) = t := by
  obtain ⟨n, hn⟩ := Int.eq_ofNat_of_zero_le (Int.emod_nonneg t (b := 2 ^ 64) (by decide))
  have hlt : t % 2 ^ 64 < 2 ^ 64 := Int.emod_lt_of_pos t (by decide)
  have hdiv := Int.emod_add_mul_ediv t (2 ^ 64)
  rw [hn] at hlt hdiv
  have hmod : n % 256 ^ 8 = n := Nat.mod_eq_of_lt (by omega)
  rw [ofBigEndian_bigEndian, unixNano, hn, Int.toNat_natCast, hmod]
  have hsigned : (if n < 2 ^ 63 then (n : ℤ) else (n : ℤ) - 2 ^ 64) = t := by
    split <;> omega
  exact hsigned

theorem ofNat_bigEndian (v : UInt64) : UInt64.ofNat (ofBigEndian (bigEndian 8 v.toNat)) = v := by
  have hlt : v.toNat < 256 ^ 8 := v.toNat_lt
  rw [ofBigEndian_bigEndian, Nat.mod_eq_of_lt hlt, UInt64.ofNat_toNat]

theorem optionalField_present {n : ℕ} (name : String) {b : Bytes} (rest : Bytes)
    (hlen : b.length = n) : optionalField true n name (b ++ rest) = .ok (some b, rest) := by
  have hroom : ¬ (b ++ rest).length < n := by
    rw [length_append]
    omega
  simp only [optionalField, not_true_eq_false, if_false, hroom, take_left' hlen,
    drop_left' hlen]

/-! ### The order of keys -/

theorem bigEndian_mod (n v : ℕ) : bigEndian n (v % 256 ^ n) = bigEndian n v := by
  suffices h : ∀ m, n ≤ m → bigEndian n (v % 256 ^ m) = bigEndian n v from h n (Nat.le_refl n)
  induction n with
  | zero =>
    intro m _
    rfl
  | succ n ih =>
    intro m hm
    obtain ⟨k, rfl⟩ : ∃ k, m = n + (1 + k) := ⟨m - n - 1, by omega⟩
    have hbyte : (v % 256 ^ (n + (1 + k))) / 256 ^ n % 256 = v / 256 ^ n % 256 := by
      rw [Nat.pow_add, Nat.mod_mul_right_div_self, Nat.pow_add, Nat.pow_one, Nat.mod_mul_right_mod]
    have hhead : UInt8.ofNat (v % 256 ^ (n + (1 + k)) / 256 ^ n) = UInt8.ofNat (v / 256 ^ n) := by
      apply UInt8.toNat_inj.mp
      rw [UInt8.toNat_ofNat', UInt8.toNat_ofNat']
      exact hbyte
    rw [bigEndian, bigEndian, hhead, ih _ (by omega)]

/-- INTERNAL: **The bytes of two numbers are ordered as the numbers are.** -/
theorem bigEndian_lt {n v w : ℕ} (hw : w < 256 ^ n) (h : v < w) :
    bigEndian n v < bigEndian n w := by
  induction n generalizing v w with
  | zero => exact absurd hw (by rw [Nat.pow_zero]; omega)
  | succ n ih =>
    have hpos : 0 < 256 ^ n := Nat.pow_pos (by decide)
    have hdiv : v / 256 ^ n ≤ w / 256 ^ n := Nat.div_le_div_right (Nat.le_of_lt h)
    have hbyte : w / 256 ^ n < 256 := by
      rw [Nat.div_lt_iff_lt_mul hpos, Nat.mul_comm, ← Nat.pow_succ]
      exact hw
    rw [bigEndian, bigEndian, cons_lt_cons_iff]
    rcases Nat.lt_or_eq_of_le hdiv with hlt | heq
    · refine .inl (UInt8.lt_iff_toNat_lt.mpr ?_)
      rw [UInt8.toNat_ofNat', UInt8.toNat_ofNat']
      have h256 : 2 ^ 8 = 256 := rfl
      rw [h256, Nat.mod_eq_of_lt hbyte, Nat.mod_eq_of_lt (by omega)]
      exact hlt
    · refine .inr ⟨by rw [heq], ?_⟩
      rw [← bigEndian_mod n v, ← bigEndian_mod n w]
      refine ih (Nat.mod_lt _ hpos) ?_
      have hv := Nat.div_add_mod v (256 ^ n)
      have hw := Nat.div_add_mod w (256 ^ n)
      rw [heq] at hv
      omega

theorem bigEndian_le_iff {n v w : ℕ} (hv : v < 256 ^ n) (hw : w < 256 ^ n) :
    bigEndian n v ≤ bigEndian n w ↔ v ≤ w := by
  constructor
  · intro h
    by_contra hlt
    exact List.not_lt.mpr h (bigEndian_lt hv (by omega))
  · intro h
    rcases Nat.lt_or_eq_of_le h with hlt | rfl
    · exact List.le_of_lt (bigEndian_lt hw hlt)
    · exact List.le_refl _

/-! ### The pairs of a bucket -/

theorem mem_entries (b : Bucket) (k v : Bytes) :
    (k, v) ∈ b.entries ↔ FiniteMap.get b k = some v := by
  unfold Bucket.entries
  rw [mem_insertionSort, mem_toList]

/-- The keys of a bucket differ. -/
theorem entries_pairwise (b : Bucket) : b.entries.Pairwise fun x y => x.1 ≠ y.1 := by
  have hnodup : (b.entries.map Prod.fst).Nodup := by
    have hperm := (perm_insertionSort (fun x y : Bytes × Bytes => x.1 ≤ y.1)
      (FiniteMap.toList b)).map Prod.fst
    exact hperm.nodup_iff.mpr (nodup_keys b)
  exact pairwise_map.mp hnodup

theorem length_entries (b : Bucket) : b.entries.length = FiniteMap.len b :=
  length_insertionSort _ _

theorem entries_nodup (b : Bucket) : b.entries.Nodup :=
  (entries_pairwise b).imp fun hne heq => hne (congrArg Prod.fst heq)

instance : Std.Total fun x y : Bytes × Bytes => x.1 ≤ y.1 := ⟨fun x y => List.le_total x.1 y.1⟩

instance : IsTrans (Bytes × Bytes) fun x y => x.1 ≤ y.1 := ⟨fun _ _ _ h h' => List.le_trans h h'⟩

theorem entries_sorted (b : Bucket) : b.entries.Pairwise fun x y => x.1 ≤ y.1 :=
  pairwise_insertionSort _ _

/-- INTERNAL: **The pairs of a bucket are known from what it holds.** -/
theorem entries_eq_of_mem {l : List (Bytes × Bytes)}
    (hsorted : l.Pairwise fun x y => x.1 ≤ y.1) (hnodup : l.Nodup)
    (hmem : ∀ k v, (k, v) ∈ l ↔ FiniteMap.get b k = some v) : b.entries = l := by
  have hperm : b.entries.Perm l := by
    refine (perm_ext_iff_of_nodup (entries_nodup b) hnodup).mpr fun x => ?_
    rw [hmem, mem_entries]
  refine @List.Perm.eq_of_pairwise _ (fun x y => x.1 ≤ y.1) _ _ (fun x y hx hy hxy hyx => ?_)
    (entries_sorted b) hsorted hperm
  have hkey : x.1 = y.1 := List.le_antisymm hxy hyx
  have hxv := (mem_entries b x.1 x.2).mp hx
  have hyv := (hmem y.1 y.2).mp hy
  rw [hkey, hyv] at hxv
  exact Prod.ext hkey (Option.some.inj hxv).symm

/-- A key after all the others. -/
theorem entries_set_last {k : Bytes} (v : Bytes) (hlast : ∀ x ∈ b.entries, x.1 < k) :
    Bucket.entries (FiniteMap.set b k v) = b.entries ++ [(k, v)] := by
  have hnew : FiniteMap.get b k = none := by
    rw [Option.eq_none_iff_forall_ne_some]
    intro w hw
    exact List.lt_irrefl _ (hlast _ ((mem_entries b k w).mpr hw))
  refine entries_eq_of_mem ?_ ?_ fun k' v' => ?_
  · refine pairwise_append.mpr ⟨entries_sorted b, pairwise_singleton _ _, ?_⟩
    intro x hx y hy
    rw [mem_singleton.mp hy]
    exact List.le_of_lt (hlast x hx)
  · refine nodup_append.mpr ⟨entries_nodup b, nodup_singleton _, ?_⟩
    rintro x hx y hy rfl
    rw [mem_singleton.mp hy] at hx
    exact List.lt_irrefl _ (hlast _ hx)
  · rw [mem_append, mem_entries, mem_singleton, get_set]
    by_cases hk : k' = k
    · subst hk
      simp [hnew, eq_comm]
    · simp [hk]

/-- Another value under a key that is there. -/
theorem entries_set_present {k : Bytes} (v : Bytes) (hpresent : (FiniteMap.get b k).isSome) :
    Bucket.entries (FiniteMap.set b k v) = b.entries.map fun x =>
      if x.1 = k then (k, v) else x := by
  have hfst : ∀ x : Bytes × Bytes, (if x.1 = k then (k, v) else x).1 = x.1 := by
    intro x
    split
    · rename_i hx
      exact hx.symm
    · rfl
  refine entries_eq_of_mem ?_ ?_ fun k' v' => ?_
  · rw [pairwise_map]
    simp only [hfst]
    exact entries_sorted b
  · refine List.Nodup.map_on (fun x hx y hy hxy => ?_) (entries_nodup b)
    have hkey : x.1 = y.1 := by rw [← hfst x, hxy, hfst]
    have hxv := (mem_entries b x.1 x.2).mp hx
    have hyv := (mem_entries b y.1 y.2).mp hy
    rw [hkey, hyv] at hxv
    exact Prod.ext hkey (Option.some.inj hxv).symm
  · obtain ⟨w, hw⟩ := Option.isSome_iff_exists.mp hpresent
    rw [mem_map, get_set]
    by_cases hk : k' = k
    · subst hk
      rw [if_pos rfl]
      constructor
      · rintro ⟨x, -, hx⟩
        have hfst' := congrArg Prod.fst hx
        rw [hfst] at hfst'
        rw [if_pos hfst'] at hx
        rw [← (Prod.mk.inj hx).2]
      · intro hv
        refine ⟨(k', w), (mem_entries b k' w).mpr hw, ?_⟩
        rw [if_pos rfl, Option.some.inj hv]
    · rw [if_neg hk, ← mem_entries]
      constructor
      · rintro ⟨x, hx, hxe⟩
        have hfst' := congrArg Prod.fst hxe
        rw [hfst] at hfst'
        rw [if_neg (hfst' ▸ hk)] at hxe
        exact hxe ▸ hx
      · exact fun hx => ⟨_, hx, if_neg hk⟩

/-- The bucket without some of its keys. -/
theorem get_delAll (ks : List Bytes) (b : Bucket) (k : Bytes) :
    FiniteMap.get (ks.foldl (fun b k => FiniteMap.del b k) b) k =
      if k ∈ ks then none else FiniteMap.get b k := by
  induction ks generalizing b with
  | nil => simp
  | cons k' ks ih =>
    rw [foldl_cons, ih, get_del]
    by_cases hks : k ∈ ks
    · simp [hks]
    · by_cases hk : k = k'
      · simp [hk]
      · simp [hks, hk]

theorem entries_delAll (ks : List Bytes) (b : Bucket) :
    Bucket.entries (ks.foldl (fun b k => FiniteMap.del b k) b) =
      b.entries.filter fun x => x.1 ∉ ks := by
  refine entries_eq_of_mem ((entries_sorted b).filter _) ((entries_nodup b).filter _) fun k v => ?_
  rw [mem_filter, mem_entries, get_delAll]
  by_cases hk : k ∈ ks
  · simp [hk]
  · simp [hk]

/-- Each of the keys that is there makes the bucket shorter by one. -/
theorem len_delAll {ks : List Bytes} (hnodup : ks.Nodup)
    (hpresent : ∀ k ∈ ks, (FiniteMap.get b k).isSome) :
    FiniteMap.len (ks.foldl (fun b k => FiniteMap.del b k) b) + ks.length = FiniteMap.len b := by
  induction ks generalizing b with
  | nil => rfl
  | cons k ks ih =>
    obtain ⟨hk, hnodup⟩ := nodup_cons.mp hnodup
    obtain ⟨v, hv⟩ := Option.isSome_iff_exists.mp (hpresent k mem_cons_self)
    have hrest : ∀ k' ∈ ks, (FiniteMap.get (FiniteMap.del b k) k').isSome := by
      intro k' hk'
      rw [get_del, if_neg (fun heq : k' = k => hk (heq ▸ hk'))]
      exact hpresent k' (.tail _ hk')
    have hlen := ih hnodup hrest
    have hdel := len_del hv
    rw [foldl_cons, length_cons]
    omega

end Mqttv5.Analysis
