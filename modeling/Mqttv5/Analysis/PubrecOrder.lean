import Mqttv5.Analysis.Session

/-!
# The order of the PUBRECs

Beside a run stands the list of the PUBRECs it has applied, over all its processes. Each number of
the sequence that was taken for a PUBREC has a place in that list, and the places are in the order
of the numbers (`Placed`); so the flows that wait for a PUBCOMP, in the order of their numbers,
are in the order in which their PUBRECs were applied.
-/

set_option autoImplicit false

namespace Mqttv5.Analysis

open Mqttv5.Computation Model Program Interface List FiniteMap
open Function (update_of_ne update_self)

/-- `place` leads from the numbers taken for PUBRECs into the list of those applied, in order. -/
structure Placed (who : ℕ → Option Mark) (place : ℕ → ℕ) (log : List (PacketID × ℕ)) : Prop where
  found : ∀ n m i, who n = some m → m.sent = some i → log[place n]? = some (m.id, i)
  mono : ∀ n m i n' m' i', who n = some m → m.sent = some i → who n' = some m' →
    m'.sent = some i' → n < n' → place n < place n'

section Placed

variable {s t : Sys} {a : Event} {who who' : ℕ → Option Mark} {place : ℕ → ℕ}
  {log : List (PacketID × ℕ)}

/-- INTERNAL: A number is taken for a PUBREC when it is the last one applied. -/
theorem Placed.step (h : Placed who place log)
    (hbound : ∀ n m, who n = some m → n < s.eng.nextSeq) (hn : Noted s a t who who') :
    Placed who' (Function.update place s.eng.nextSeq log.length) (log ++ applied s t a) := by
  have hlt : ∀ n m i, who n = some m → m.sent = some i → place n < log.length := by
    intro n m i hm hi
    obtain ⟨hlen, -⟩ := List.getElem?_eq_some_iff.mp (h.found n m i hm hi)
    exact hlen
  -- Where a PUBREC's number comes from.
  have hcases : ∀ n m i, who' n = some m → m.sent = some i →
      who n = some m ∧ n ≠ s.eng.nextSeq ∨ n = s.eng.nextSeq ∧ applied s t a = [(m.id, i)] := by
    intro n m i hm hi
    rcases hn n m hm with hold | hnone | ⟨hnext, j, hj, happlied⟩
    · exact .inl ⟨hold, (hbound n m hold).ne⟩
    · rw [hi] at hnone
      cases hnone
    · rw [hi] at hj
      cases hj
      exact .inr ⟨hnext, happlied⟩
  refine ⟨?_, ?_⟩
  · intro n m i hm hi
    rcases hcases n m i hm hi with ⟨hold, hne⟩ | ⟨rfl, happlied⟩
    · rw [update_of_ne hne, getElem?_append_left (hlt n m i hold hi)]
      exact h.found n m i hold hi
    · rw [update_self, happlied, getElem?_concat_length]
  · intro n m i n' m' i' hm hi hm' hi' hless
    rcases hcases n m i hm hi with ⟨hold, hne⟩ | ⟨rfl, -⟩
    · rw [update_of_ne hne]
      rcases hcases n' m' i' hm' hi' with ⟨hold', hne'⟩ | ⟨rfl, -⟩
      · rw [update_of_ne hne']
        exact h.mono n m i n' m' i' hold hi hold' hi' hless
      · rw [update_self]
        exact hlt n m i hold hi
    · rcases hcases n' m' i' hm' hi' with ⟨hold', -⟩ | ⟨rfl, -⟩
      · exact absurd (hbound n' m' hold') (by omega)
      · exact absurd hless (Nat.lt_irrefl _)

end Placed

end Mqttv5.Analysis
