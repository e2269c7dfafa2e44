import Mathlib.Data.Finset.Card
import Mathlib.Data.Finset.Interval
import Mathlib.Order.Interval.Finset.Nat
import Mqttv5.Program.Identifiers

/-!
# The packet identifier table

`Balanced t reserved` is the account the table keeps: every token in the channel stands for
an identifier in use or for a reservation not yet taken. While a reservation is held some
identifier is free, so `take` finds one.
-/

set_option autoImplicit false

namespace Mqttv5.Analysis

open Model Program

variable {t t' : IDTable} {reserved id : ℕ} {o : Owner}

/-- The identifiers in use. -/
def used (t : IDTable) : Finset ℕ := (Finset.Icc 1 t.max).filter fun id => t.owner id ≠ .none

structure Balanced (t : IDTable) (reserved : ℕ) : Prop where
  range : ∀ id, t.owner id ≠ .none → 1 ≤ id ∧ id ≤ t.max
  next : 1 ≤ t.next ∧ t.next ≤ t.max
  tokens : t.inUse = (used t).card + reserved
  room : t.inUse ≤ t.max

theorem balanced_new (max : ℕ) (h : 0 < max) : Balanced (newIDTable max) 0 := by
  refine ⟨?_, ⟨le_refl 1, h⟩, ?_, Nat.zero_le _⟩
  · intro id hid
    exact absurd rfl hid
  · simp [used, newIDTable]

theorem mem_used (h : Balanced t reserved) (id : ℕ) : id ∈ used t ↔ t.owner id ≠ .none := by
  simp only [used, Finset.mem_filter, Finset.mem_Icc]
  exact ⟨fun hid => hid.2, fun hid => ⟨h.range id hid, hid⟩⟩

/-! ## take -/

/-- The identifier `takeLoop` looks at in round `i`. -/
def probe (t : IDTable) (i : ℕ) : ℕ := (t.next - 1 + i) % t.max + 1

/-- One round moves the hint to the next probe. -/
theorem probe_advance (t : IDTable) (hnext : 1 ≤ t.next ∧ t.next ≤ t.max) (i : ℕ) :
    probe { t with next := if t.next = t.max then 1 else t.next + 1 } i = probe t (i + 1) := by
  simp only [probe]
  split
  · rename_i heq
    have harith : t.next - 1 + (i + 1) = t.max + i := by omega
    rw [harith, Nat.add_mod_left]
    simp
  · have harith : t.next + 1 - 1 + i = t.next - 1 + (i + 1) := by omega
    rw [harith]

theorem probe_zero (t : IDTable) (hnext : 1 ≤ t.next ∧ t.next ≤ t.max) : probe t 0 = t.next := by
  simp only [probe, Nat.add_zero]
  rw [Nat.mod_eq_of_lt (by omega)]
  omega

/-- The loop gives up only after probing identifiers in use. -/
theorem takeLoop_none (fuel : ℕ) (t : IDTable) (o : Owner)
    (hnext : 1 ≤ t.next ∧ t.next ≤ t.max) (h : takeLoop fuel t o = none) :
    ∀ i < fuel, t.owner (probe t i) ≠ .none := by
  induction fuel generalizing t with
  | zero => intro i hi; omega
  | succ fuel ih =>
    unfold takeLoop at h
    simp only at h
    split at h
    · cases h
    · rename_i howner
      intro i hi
      cases i with
      | zero => rw [probe_zero t hnext]; exact howner
      | succ i =>
        have hnext' : 1 ≤ (if t.next = t.max then 1 else t.next + 1) ∧
            (if t.next = t.max then 1 else t.next + 1) ≤ t.max := by
          split <;> omega
        have := ih _ hnext' h i (by omega)
        rw [probe_advance t hnext i] at this
        exact this

/-- What the loop finds was free, in range, and is now owned. -/
theorem takeLoop_some (fuel : ℕ) (t : IDTable) (o : Owner) (id : ℕ) (t' : IDTable)
    (hnext : 1 ≤ t.next ∧ t.next ≤ t.max) (h : takeLoop fuel t o = some (id, t')) :
    t.owner id = .none ∧ (1 ≤ id ∧ id ≤ t.max) ∧ (1 ≤ t'.next ∧ t'.next ≤ t.max) ∧
      t' = { t with owner := Function.update t.owner id o, next := t'.next } := by
  induction fuel generalizing t with
  | zero => cases h
  | succ fuel ih =>
    unfold takeLoop at h
    simp only at h
    have hnext' : 1 ≤ (if t.next = t.max then 1 else t.next + 1) ∧
        (if t.next = t.max then 1 else t.next + 1) ≤ t.max := by
      split <;> omega
    split at h
    · rename_i howner
      obtain ⟨rfl, rfl⟩ := Prod.mk.inj (Option.some.inj h)
      exact ⟨howner, hnext, hnext', rfl⟩
    · obtain ⟨hfree, hrange, hn, ht⟩ := ih _ hnext' h
      exact ⟨hfree, hrange, hn, ht⟩

/-- The probes of `max` rounds are all the identifiers. -/
theorem probe_surjective (t : IDTable) (hnext : 1 ≤ t.next ∧ t.next ≤ t.max) (id : ℕ)
    (hid : 1 ≤ id ∧ id ≤ t.max) : ∃ i < t.max, probe t i = id := by
  by_cases hle : t.next ≤ id
  · refine ⟨id - t.next, by omega, ?_⟩
    simp only [probe]
    rw [Nat.mod_eq_of_lt (by omega)]
    omega
  · refine ⟨t.max - t.next + id, by omega, ?_⟩
    simp only [probe]
    have harith : t.next - 1 + (t.max - t.next + id) = t.max + (id - 1) := by omega
    rw [harith, Nat.add_mod_left, Nat.mod_eq_of_lt (by omega)]
    omega

/-- INTERNAL: **A reservation guarantees an identifier.** -/
theorem take_some (h : Balanced t reserved) (hres : 0 < reserved) (o : Owner) :
    ∃ id t', take t o = some (id, t') := by
  cases htake : take t o with
  | some r => exact ⟨r.1, r.2, rfl⟩
  | none =>
    exfalso
    have hall : ∀ id ∈ Finset.Icc 1 t.max, id ∈ used t := by
      intro id hid
      rw [Finset.mem_Icc] at hid
      obtain ⟨i, hi, rfl⟩ := probe_surjective t h.next id hid
      exact (mem_used h _).mpr (takeLoop_none t.max t o h.next htake i hi)
    have hcard : (Finset.Icc 1 t.max).card ≤ (used t).card := Finset.card_le_card hall
    rw [Nat.card_Icc] at hcard
    have htokens := h.tokens
    have hroom := h.room
    omega

/-! ## The account -/

theorem used_update_insert (t : IDTable) (id : ℕ)
    (o : Owner) (next inUse : ℕ) (hid : 1 ≤ id ∧ id ≤ t.max) (ho : o ≠ .none) :
    used { t with owner := Function.update t.owner id o, next := next, inUse := inUse } =
      insert id (used t) := by
  ext q
  simp only [used, Finset.mem_filter, Finset.mem_Icc, Finset.mem_insert]
  by_cases hq : q = id
  · subst hq
    simp [hid, ho]
  · simp [hq]

section

variable (h : Balanced t reserved)
include h

theorem balanced_reserve (hroom : t.inUse < t.max) :
    Balanced { t with inUse := t.inUse + 1 } (reserved + 1) := by
  refine ⟨h.range, h.next, ?_, hroom⟩
  have htokens := h.tokens
  have hused : used { t with inUse := t.inUse + 1 } = used t := rfl
  rw [hused]
  simp only
  omega

theorem balanced_take (ho : o ≠ .none) (hres : 0 < reserved) (htake : take t o = some (id, t')) :
    Balanced t' (reserved - 1) ∧ t.owner id = .none ∧ (1 ≤ id ∧ id ≤ t.max) ∧
      t'.owner = Function.update t.owner id o ∧ t'.max = t.max := by
  obtain ⟨hfree, hrange, hnext, ht⟩ := takeLoop_some t.max t o id t' h.next htake
  have hused : used t' = insert id (used t) := by
    rw [ht]
    exact used_update_insert t id o _ _ hrange ho
  have hnot : id ∉ used t := fun hmem => (mem_used h id).mp hmem hfree
  have htokens := h.tokens
  have hinUse : t'.inUse = t.inUse := by rw [ht]
  have hmax : t'.max = t.max := by rw [ht]
  have howner : t'.owner = Function.update t.owner id o := by rw [ht]
  refine ⟨⟨?_, by rw [hmax]; exact hnext, ?_, ?_⟩, hfree, hrange, howner, hmax⟩
  · intro q hq
    rw [hmax]
    by_cases hqid : q = id
    · rw [hqid]
      exact hrange
    · rw [howner, Function.update_of_ne hqid] at hq
      exact h.range q hq
  · rw [hused, Finset.card_insert_of_notMem hnot, hinUse]
    omega
  · rw [hinUse, hmax]
    exact h.room

theorem balanced_claim (ho : o ≠ .none) (hclaim : claim t id o = some t') :
    Balanced t' reserved ∧ t.owner id = .none ∧ t'.owner = Function.update t.owner id o ∧
      t'.max = t.max := by
  unfold claim at hclaim
  split at hclaim
  · cases hclaim
  · rename_i hcond
    split at hclaim
    · rename_i hroom
      cases hclaim
      have hfree : t.owner id = .none := by
        by_contra hcon
        exact hcond (.inr (.inr hcon))
      have hid : 1 ≤ id ∧ id ≤ t.max := by
        refine ⟨Nat.one_le_iff_ne_zero.mpr fun hz => hcond (.inl hz), ?_⟩
        by_contra hcon
        exact hcond (.inr (.inl (Nat.lt_of_not_le hcon)))
      have hnot : id ∉ used t := fun hmem => (mem_used h id).mp hmem hfree
      have hused := used_update_insert t id o t.next (t.inUse + 1) hid ho
      have htokens := h.tokens
      refine ⟨⟨?_, h.next, ?_, hroom⟩, hfree, rfl, rfl⟩
      · intro q hq
        by_cases hqid : q = id
        · rw [hqid]
          exact hid
        · simp only [Function.update_of_ne hqid] at hq
          exact h.range q hq
      · rw [hused, Finset.card_insert_of_notMem hnot]
        simp only
        omega
    · cases hclaim

end

/-- With no reservation out, a free identifier in range can be claimed. -/
theorem claim_some (h : Balanced t 0) (hid : 1 ≤ id ∧ id ≤ t.max) (hfree : t.owner id = .none)
    (o : Owner) : ∃ t', claim t id o = some t' := by
  have hlt : t.inUse < t.max := by
    have hsub : used t ⊆ (Finset.Icc 1 t.max).erase id := by
      intro q hq
      have hmem := Finset.mem_filter.mp hq
      refine Finset.mem_erase.mpr ⟨?_, hmem.1⟩
      rintro rfl
      exact hmem.2 hfree
    have hcard := Finset.card_le_card hsub
    rw [Finset.card_erase_of_mem (Finset.mem_Icc.mpr hid), Nat.card_Icc] at hcard
    have htokens := h.tokens
    omega
  have hcond : ¬ (id = 0 ∨ t.max < id ∨ t.owner id ≠ .none) := by
    rintro (hz | hlt | hcon)
    · omega
    · omega
    · exact hcon hfree
  exact ⟨_, by unfold claim; rw [if_neg hcond, if_pos hlt]⟩

theorem used_update_erase (t : IDTable) (id : ℕ) (inUse : ℕ) :
    used { t with owner := Function.update t.owner id .none, inUse := inUse } =
      (used t).erase id := by
  ext q
  simp only [used, Finset.mem_filter, Finset.mem_Icc, Finset.mem_erase]
  by_cases hq : q = id
  · subst hq
    simp
  · simp [hq]

/-- Releasing an identifier in use finds its token in the channel. -/
theorem balanced_release {e : Engine} (h : Balanced e.ids reserved) (howner : e.ids.owner id = o)
    (ho : o ≠ .none) :
    Balanced (releaseLocked e id o).ids reserved ∧
      (releaseLocked e id o).stuck = e.stuck ∧
      (releaseLocked e id o).ids.owner = Function.update e.ids.owner id .none := by
  have hin : e.ids.owner id ≠ .none := by rw [howner]; exact ho
  have hrange := h.range id hin
  have hmem := (mem_used h id).mpr hin
  have hcard : 0 < (used e.ids).card := Finset.card_pos.mpr ⟨id, hmem⟩
  have htokens := h.tokens
  have hroom := h.room
  have hcond : ¬ (id = 0 ∨ e.ids.owner id ≠ o) := by
    rintro (h0 | hne)
    · exact Nat.one_le_iff_ne_zero.mp hrange.1 h0
    · exact hne howner
  have hrel : releaseLocked e id o = { e with
      ids := { e.ids with
        owner := Function.update e.ids.owner id .none
        inUse := e.ids.inUse - 1 }
      stuck := e.stuck || e.ids.inUse = 0 } := if_neg hcond
  rw [hrel]
  refine ⟨⟨?_, h.next, ?_, ?_⟩, ?_, rfl⟩
  · intro q hq
    simp only at hq ⊢
    by_cases hqid : q = id
    · rw [hqid, Function.update_self] at hq
      exact absurd rfl hq
    · rw [Function.update_of_ne hqid] at hq
      exact h.range q hq
  · rw [used_update_erase, Finset.card_erase_of_mem hmem]
    simp only
    omega
  · simp only
    omega
  · simp only [Bool.or_eq_left_iff_imp, decide_eq_true_eq]
    omega

end Mqttv5.Analysis
