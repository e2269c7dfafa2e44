import Mathlib.Data.List.AList

/-!
# Finite maps with an enumeration

A map with finitely many keys, read by `get`, changed by `set` and `del`, and ranged
over through `toList`. The carrier is Mathlib's association list without repeated keys;
this file only fixes one spelling for reading a map after an update (`get_set`,
`get_del`) and for the correspondence between reading a map and ranging over it
(`mem_toList`), which is all the developments above it use.
-/

set_option autoImplicit false

namespace Mqttv5.Computation

open List

/-- A map from `K` to `V` with finitely many keys. -/
def FiniteMap (K V : Type) : Type := AList (fun _ : K => V)

namespace FiniteMap

variable {K V : Type}

instance : EmptyCollection (FiniteMap K V) := ⟨(∅ : AList (fun _ : K => V))⟩

/-- The pairs of the map, in the order it is ranged over. -/
def toList (m : FiniteMap K V) : List (K × V) := (AList.entries m).map fun e => (e.1, e.2)

/-- The values of the map, in the order it is ranged over. -/
def vals (m : FiniteMap K V) : List V := m.toList.map Prod.snd

/-- The number of keys. -/
def len (m : FiniteMap K V) : ℕ := m.toList.length

/-- Ranging over a map visits each key once. -/
theorem nodup_keys (m : FiniteMap K V) : (m.toList.map Prod.fst).Nodup := by
  have h := AList.keys_nodup m
  simpa [toList, AList.keys, List.keys, Function.comp_def] using h

variable [DecidableEq K]

/-- The value under `k`, if there is one. -/
def get (m : FiniteMap K V) (k : K) : Option V := AList.lookup k m

/-- The map with `v` under `k`. -/
def set (m : FiniteMap K V) (k : K) (v : V) : FiniteMap K V := AList.insert k v m

/-- The map without `k`. -/
def del (m : FiniteMap K V) (k : K) : FiniteMap K V := AList.erase k m

/-- INTERNAL: The empty map has no key. -/
@[simp, grind =]
theorem get_empty (k : K) : (∅ : FiniteMap K V).get k = none := AList.lookup_empty k

/-- INTERNAL: Reading after a write. -/
@[simp, grind =]
theorem get_set (m : FiniteMap K V) (k k' : K) (v : V) :
    (m.set k v).get k' = if k' = k then some v else m.get k' := by
  by_cases h : k' = k
  · subst h
    rw [if_pos rfl]
    exact AList.lookup_insert (β := fun _ => V) m
  · rw [if_neg h]
    exact AList.lookup_insert_ne (β := fun _ => V) h

/-- INTERNAL: Reading after a delete. -/
@[simp, grind =]
theorem get_del (m : FiniteMap K V) (k k' : K) :
    (m.del k).get k' = if k' = k then none else m.get k' := by
  by_cases h : k' = k
  · subst h
    rw [if_pos rfl]
    exact AList.lookup_erase (β := fun _ => V) k' m
  · rw [if_neg h]
    exact AList.lookup_erase_ne (β := fun _ => V) h

/-- INTERNAL: Where a value comes from after a write. -/
theorem of_get_set {m : FiniteMap K V} {k k' : K} {v w : V} (h : (m.set k v).get k' = some w) :
    m.get k' = some w ∨ k' = k ∧ w = v := by
  rw [get_set] at h
  split at h
  · exact .inr ⟨‹_›, (Option.some.inj h).symm⟩
  · exact .inl h

/-- INTERNAL: A value that is left after a delete. -/
theorem of_get_del {m : FiniteMap K V} {k k' : K} {w : V} (h : (m.del k).get k' = some w) :
    m.get k' = some w ∧ k' ≠ k := by
  rw [get_del] at h
  split at h
  · cases h
  · exact ⟨h, ‹_›⟩

/-- Ranging over a map visits exactly the pairs that can be read from it. -/
theorem mem_toList (m : FiniteMap K V) (k : K) (v : V) : (k, v) ∈ m.toList ↔ m.get k = some v := by
  have h : m.get k = some v ↔ (⟨k, v⟩ : Sigma fun _ : K => V) ∈ AList.entries m :=
    AList.mem_lookup_iff (a := k) (b := v) (s := m)
  rw [h, toList, mem_map]
  constructor
  · rintro ⟨⟨a, b⟩, he, heq⟩
    obtain ⟨rfl, rfl⟩ := Prod.mk.inj heq
    exact he
  · exact fun he => ⟨_, he, rfl⟩

/-- INTERNAL: A value has a key. -/
theorem mem_vals (m : FiniteMap K V) (v : V) : v ∈ m.vals ↔ ∃ k, m.get k = some v := by
  simp only [vals, mem_map, Prod.exists, exists_eq_right, mem_toList]

omit [DecidableEq K] in
/-- The length of a map is the number of its keys. -/
theorem len_eq (m : FiniteMap K V) : m.len = (AList.keys m).length := by
  simp [len, toList, AList.keys, List.keys]

/-- A new key makes the map longer by one. -/
theorem len_set {m : FiniteMap K V} {k : K} (v : V) (h : m.get k = none) :
    (m.set k v).len = m.len + 1 := by
  have hk : k ∉ AList.keys m := fun hk => by
    have hsome := AList.lookup_isSome.mpr (AList.mem_keys.mpr hk)
    rw [show AList.lookup k m = none from h] at hsome
    cases hsome
  have hkeys : AList.keys (m.set k v) = k :: (AList.keys m).erase k := AList.keys_insert m
  rw [len_eq, len_eq, hkeys, erase_of_not_mem hk, length_cons]

/-- A key less makes the map shorter by one. -/
theorem len_del {m : FiniteMap K V} {k : K} {v : V} (h : m.get k = some v) :
    (m.del k).len + 1 = m.len := by
  have hk : k ∈ AList.keys m := AList.mem_keys.mp (AList.lookup_isSome.mp (by
    rw [show AList.lookup k m = some v from h]
    rfl))
  have hkeys : AList.keys (m.del k) = (AList.keys m).erase k := AList.keys_erase k m
  have hpos := length_pos_of_mem hk
  rw [len_eq, len_eq, hkeys, length_erase_of_mem hk]
  omega

end FiniteMap

end Mqttv5.Computation
