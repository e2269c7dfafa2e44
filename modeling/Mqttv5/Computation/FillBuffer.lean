import Mathlib.Data.List.Basic

/-!
# Buffers filled in place

A buffer taken from a pool has a length and no contents one may rely on. Writers store into
it at an offset and hand the next offset on. `Fills w xs` is the rule they are used by: run at
any offset of any buffer with room, `w` stores exactly `xs` there, touches nothing else, and
returns the offset after it.
-/

set_option autoImplicit false

namespace Mqttv5.Computation

open List

/-- The cells of a buffer; `none` is a cell not written since the buffer was taken. -/
abbrev Cells (α : Type) := List (Option α)

variable {α : Type}

namespace Cells

def fresh (n : ℕ) : Cells α := List.replicate n none

/-- Assignments to the cells from `off` on; `none` is an index out of range. -/
def store (buf : Cells α) (off : ℕ) (xs : List α) : Option (Cells α) :=
  if off + xs.length ≤ buf.length then
    some (buf.take off ++ xs.map some ++ buf.drop (off + xs.length))
  else none

/-- `copy(buf[off:], xs)`: as many of `xs` as there is room for, and how many they were. -/
def copyAt (buf : Cells α) (off : ℕ) (xs : List α) : Option (Cells α × ℕ) :=
  if off ≤ buf.length then
    let n := min (buf.length - off) xs.length
    some (buf.take off ++ (xs.take n).map some ++ buf.drop (off + n), n)
  else none

/-- INTERNAL: A buffer in two parts. -/
theorem fresh_add (m n : ℕ) : (fresh (m + n) : Cells α) = fresh m ++ fresh n :=
  replicate_add m n none

/-- INTERNAL: A buffer has its length. -/
theorem fresh_length (n : ℕ) : (fresh n : Cells α).length = n := length_replicate

end Cells

/-- A writer: the buffer and the offset to write at, the buffer after it and the next offset. -/
abbrev Filler (α : Type) := Cells α → ℕ → Option (Cells α × ℕ)

def Fills (w : Filler α) (xs : List α) : Prop :=
  ∀ (pre rest : Cells α), xs.length ≤ rest.length →
    w (pre ++ rest) pre.length =
      some (pre ++ xs.map some ++ rest.drop xs.length, pre.length + xs.length)

/-- INTERNAL: To write nothing. -/
theorem fills_nothing : Fills (fun buf off => some (buf, off)) ([] : List α) := by
  intro pre rest _
  simp

/-- INTERNAL: What a store leaves in the buffer. -/
theorem store_eq (pre rest : Cells α) (xs : List α) (h : xs.length ≤ rest.length) :
    Cells.store (pre ++ rest) pre.length xs =
      some (pre ++ xs.map some ++ rest.drop xs.length) := by
  unfold Cells.store
  rw [if_pos (by simpa using h), take_left', drop_append]
  · simp
  · rfl

/-- INTERNAL: What a copy leaves in it. -/
theorem copyAt_eq (pre rest : Cells α) (xs : List α) (h : xs.length ≤ rest.length) :
    Cells.copyAt (pre ++ rest) pre.length xs =
      some (pre ++ xs.map some ++ rest.drop xs.length, xs.length) := by
  unfold Cells.copyAt
  have hn : min ((pre ++ rest).length - pre.length) xs.length = xs.length := by
    rw [length_append]
    omega
  rw [if_pos (by simp), hn]
  simp [drop_append]

/-- A store, with the offset moved past what was stored. -/
theorem fills_store (xs : List α) :
    Fills (fun buf off => (buf.store off xs).map (·, off + xs.length)) xs := by
  intro pre rest h
  simp [store_eq pre rest xs h]

/-- INTERNAL: A copy writes its bytes. -/
theorem fills_copyAt (xs : List α) :
    Fills (fun buf off => (buf.copyAt off xs).map fun (b, n) => (b, off + n)) xs := by
  intro pre rest h
  simp [copyAt_eq pre rest xs h]

variable {v w : Filler α} {xs ys : List α}

/-- Writers run one after the other. -/
theorem Fills.andThen (hv : Fills v xs) (hw : Fills w ys) :
    Fills (fun buf off => (v buf off).bind fun r => w r.1 r.2) (xs ++ ys) := by
  intro pre rest h
  rw [length_append] at h
  have h1 := hv pre rest (by omega)
  have h2 := hw (pre ++ xs.map some) (rest.drop xs.length) (by rw [length_drop]; omega)
  have hlen : (pre ++ xs.map some).length = pre.length + xs.length := by simp
  rw [hlen] at h2
  simp only [h1, Option.bind_some, h2]
  simp [drop_drop, Nat.add_assoc]

/-- The same writer in other words. -/
theorem Fills.of_eq (hv : Fills v xs) (h : ∀ buf off, w buf off = v buf off) : Fills w xs := by
  intro pre rest hr
  rw [h]
  exact hv pre rest hr

/-- A writer after a store. -/
theorem Fills.afterStore (xs : List α) (hw : Fills w ys) :
    Fills (fun buf off => (buf.store off xs).bind fun b => w b (off + xs.length)) (xs ++ ys) := by
  refine Fills.of_eq ((fills_store xs).andThen hw) fun buf off => ?_
  cases buf.store off xs <;> simp

/-- INTERNAL: The same bytes. -/
theorem Fills.congr (hw : Fills w xs) (h : xs = ys) :
    Fills w ys := h ▸ hw

/-- A writer that is skipped under a condition fills nothing then. -/
theorem Fills.ite (c : Prop) [Decidable c] (hv : Fills v xs) (hw : Fills w ys) :
    Fills (fun buf off => if c then v buf off else w buf off) (if c then xs else ys) := by
  by_cases h : c
  · simpa only [if_pos h] using hv
  · simpa only [if_neg h] using hw

/-- A writer run once for each element of a list. -/
theorem fills_foldlM {β : Type} (w : β → Filler α) (enc : β → List α) (bs : List β)
    (hw : ∀ b ∈ bs, Fills (w b) (enc b)) :
    Fills (fun buf off => bs.foldlM (fun r b => w b r.1 r.2) (buf, off)) (bs.flatMap enc) := by
  induction bs with
  | nil => exact Fills.of_eq fills_nothing fun _ _ => rfl
  | cons b bs ih =>
    exact (hw b mem_cons_self).andThen
      (ih fun b' hb' => hw b' (mem_cons_of_mem b hb'))

/-- A buffer of exactly the length of what is written into it is written everywhere. -/
theorem Fills.fresh (hw : Fills w xs) {n : ℕ} (hn : n = xs.length) :
    w (Cells.fresh n) 0 = some (xs.map some, n) := by
  subst hn
  have h := hw [] (Cells.fresh xs.length) (by simp [Cells.fresh])
  simpa [Cells.fresh] using h

end Mqttv5.Computation
