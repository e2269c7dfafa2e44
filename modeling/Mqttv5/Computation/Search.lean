import Mathlib.Order.Basic

/-!
# Binary search

The loop of `sort.Search`: the smallest index of a range at which a predicate holds, if it holds
from there on.
-/

set_option autoImplicit false

namespace Mqttv5.Computation

/-- The rounds that are left of a search in `[lo, hi)`. -/
def searchLoop (p : ℕ → Bool) : (fuel lo hi : ℕ) → ℕ
  | 0, lo, _ => lo
  | fuel + 1, lo, hi =>
    if lo < hi then
      if p ((lo + hi) / 2) then searchLoop p fuel lo ((lo + hi) / 2)
      else searchLoop p fuel ((lo + hi) / 2 + 1) hi
    else lo

/-- The first index below `n` at which `p` holds, or `n`. -/
def search (n : ℕ) (p : ℕ → Bool) : ℕ := searchLoop p n 0 n

/-- INTERNAL: `p` fails below the interval and holds above it, in every round. -/
theorem searchLoop_spec {n : ℕ} {p : ℕ → Bool}
    (hp : ∀ i j, i ≤ j → j < n → p i = true → p j = true) (fuel : ℕ) :
    ∀ lo hi, lo ≤ hi → hi ≤ n → hi - lo ≤ fuel → (∀ i < lo, p i = false) →
      (∀ i, hi ≤ i → i < n → p i = true) →
      searchLoop p fuel lo hi ≤ n ∧ (∀ i < searchLoop p fuel lo hi, p i = false) ∧
        ∀ i, searchLoop p fuel lo hi ≤ i → i < n → p i = true := by
  induction fuel with
  | zero =>
    intro lo hi hle hn hfuel hbelow habove
    obtain rfl : lo = hi := by omega
    exact ⟨hn, hbelow, habove⟩
  | succ fuel ih =>
    intro lo hi hle hn hfuel hbelow habove
    unfold searchLoop
    split
    · split
      · rename_i hmid
        exact ih _ _ (by omega) (by omega) (by omega) hbelow fun i hi' hi'' => hp _ i hi' hi'' hmid
      · rename_i hmid
        refine ih _ _ (by omega) hn (by omega) (fun i hi' => ?_) habove
        by_contra hcon
        exact hmid (hp i _ (by omega) (by omega) (by simpa using hcon))
    · obtain rfl : lo = hi := by omega
      exact ⟨hn, hbelow, habove⟩

/-- INTERNAL: **Binary search** finds the first index at which `p` holds. -/
theorem search_spec {n : ℕ} {p : ℕ → Bool} (hp : ∀ i j, i ≤ j → j < n → p i = true → p j = true) :
    search n p ≤ n ∧ (∀ i < search n p, p i = false) ∧
      ∀ i, search n p ≤ i → i < n → p i = true :=
  searchLoop_spec hp n 0 n (Nat.zero_le n) (Nat.le_refl n) (by omega) (fun i hi => by omega)
    fun i hi hi' => by omega

end Mqttv5.Computation
