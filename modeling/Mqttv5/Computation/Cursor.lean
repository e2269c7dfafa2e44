import Mathlib.Data.List.Nodup

/-!
# A list with a cursor

A queue that is walked once from the front while members leave it and new ones join it at
the back. `Splits l c done todo` says that the cursor `c` stands in `l` between the members
already passed and those to come; the lemmas say how each change of the list moves the
cursor. The cursor is the member it stands at, as in an intrusive linked list: stepping
past a member is `succIn`.
-/

set_option autoImplicit false

namespace Mqttv5.Computation

open List

variable {α : Type}

/-- The member of `l` behind `a`. -/
def succIn [DecidableEq α] (l : List α) (a : α) : Option α :=
  ((l.dropWhile (· ≠ a)).drop 1).head?

/-- INTERNAL: What follows an element. -/
theorem succIn_append [DecidableEq α] {l₁ : List α} {a : α} (l₂ : List α) (h : a ∉ l₁) :
    succIn (l₁ ++ a :: l₂) a = l₂.head? := by
  induction l₁ with
  | nil => simp [succIn]
  | cons b l₁ ih =>
    have hb : b ≠ a := fun hb => h (hb ▸ mem_cons_self)
    have htail : a ∉ l₁ := fun ha => h (.tail _ ha)
    simpa [succIn, hb] using ih htail

/-- The cursor `c` stands in `l` behind `done` and in front of `todo`. -/
structure Splits (l : List α) (c : Option α) (done todo : List α) : Prop where
  list : l = done ++ todo
  cursor : c = todo.head?

namespace Splits

variable {l done todo : List α} {c : Option α}

/-- A cursor set to the head has the whole list to come. -/
theorem reset (l : List α) : Splits l l.head? [] l := ⟨rfl, rfl⟩

/-- INTERNAL: A cursor is at the first element to come. -/
theorem todo_of_some {a : α} (h : Splits l (some a) done todo) : ∃ rest, todo = a :: rest := by
  cases todo with
  | nil => simpa using h.cursor
  | cons b rest =>
    have hb : b = a := by simpa using h.cursor.symm
    exact ⟨rest, by rw [hb]⟩

/-- A member that joins at the back is to come, and the cursor stands at it when
it had run out. -/
theorem push (h : Splits l c done todo) (a : α) :
    Splits (l ++ [a]) (if c = none then some a else c) done (todo ++ [a]) := by
  refine ⟨by rw [h.list, append_assoc], ?_⟩
  have hc := h.cursor
  cases todo with
  | nil => simp [hc]
  | cons b rest => simp [hc]

variable [DecidableEq α]

/-- Stepping the cursor past the member it stands at. -/
theorem advance {a : α} (h : Splits l (some a) done todo) (hl : l.Nodup) :
    ∃ rest, todo = a :: rest ∧ Splits l (succIn l a) (done ++ [a]) rest := by
  obtain ⟨rest, rfl⟩ := h.todo_of_some
  have hnot : a ∉ done := by
    intro ha
    rw [h.list, nodup_append] at hl
    exact hl.2.2 a ha a mem_cons_self rfl
  refine ⟨rest, rfl, ⟨by simpa using h.list, ?_⟩⟩
  rw [h.list, succIn_append rest hnot]

/-- A member leaves the list; a cursor that stands at it steps past it. -/
theorem erase (h : Splits l c done todo) (hl : l.Nodup) (a : α) (ha : a ∈ l) :
    Splits (l.erase a) (if c = some a then succIn l a else c) (done.erase a) (todo.erase a) := by
  obtain rfl := h.list
  rw [nodup_append] at hl
  obtain ⟨hdone, htodo, hdisj⟩ := hl
  by_cases had : a ∈ done
  · have hat : a ∉ todo := fun hat => hdisj a had a hat rfl
    have hc : c ≠ some a := by
      intro hc
      obtain ⟨rest, hrest⟩ := todo_of_some (hc ▸ h)
      exact hat (hrest ▸ mem_cons_self)
    rw [if_neg hc, erase_append_left _ had, erase_of_not_mem hat]
    exact ⟨rfl, h.cursor⟩
  · have hat : a ∈ todo := by simpa [had] using ha
    rw [erase_append_right _ had, erase_of_not_mem had]
    refine ⟨rfl, ?_⟩
    by_cases hc : c = some a
    · obtain ⟨rest, rfl⟩ := todo_of_some (hc ▸ h)
      rw [if_pos hc, succIn_append rest had, erase_cons_head]
    · rw [if_neg hc, h.cursor]
      cases todo with
      | nil => rfl
      | cons b rest =>
        have hb : b ≠ a := by
          intro hb
          exact hc (by rw [h.cursor, hb]; rfl)
        rw [erase_cons_tail (by simpa using hb)]
        rfl

end Splits

end Mqttv5.Computation
