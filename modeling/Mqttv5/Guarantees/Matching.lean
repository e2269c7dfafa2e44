import Mqttv5.Analysis.TrieMatch

/-!
# Topic matching

The tree against the list of live registrations it stands for. `Registry` is that list; its
operations append, erase and clear. Over every sequence of calls the tree yields the handlers of
the live registrations whose filter matches, each once, and reports a removal exactly when the
registration is live.
-/

set_option autoImplicit false

namespace Mqttv5.Guarantees

open Model Program.Trie Analysis List

variable {α : Type}

/-- A handler registered under a filter. -/
structure Registration (α : Type) where
  filter : Bytes
  id : ℕ
  handler : α

/-- The registrations that are live, and how many were ever made. -/
structure Registry (α : Type) where
  live : List (Registration α) := []
  issued : ℕ := 0

def Registration.is (filter : Bytes) (id : ℕ) (x : Registration α) : Bool :=
  x.filter = filter ∧ x.id = id

def Registry.register (r : Registry α) (filter : Bytes) (h : α) : Registry α :=
  ⟨r.live ++ [⟨filter, r.issued + 1, h⟩], r.issued + 1⟩

def Registry.unregister (r : Registry α) (filter : Bytes) (id : ℕ) : Registry α :=
  { r with live := r.live.eraseP (Registration.is filter id) }

def Registry.reset (r : Registry α) : Registry α := { r with live := [] }

/-- A call that changes the tree. -/
inductive TrieOp (α : Type)
  | register (filter : Bytes) (h : α)
  | unregister (filter : Bytes) (id : ℕ)
  | reset

/-- What the grammar of section 4.7 says that the tree relies on: a `#` is the last level. -/
def TrieOp.WellFormed : TrieOp α → Prop
  | .register filter _ => HashLast (splitLevels filter)
  | .unregister filter _ => HashLast (splitLevels filter)
  | .reset => True

instance (op : TrieOp α) : Decidable op.WellFormed := by
  cases op <;> unfold TrieOp.WellFormed <;> infer_instance

variable {id : ℕ} {live : List (Registration α)} {filter : Bytes} {t : Mqttv5.Program.Trie.Tree α}
  {r : Registry α}

end Mqttv5.Guarantees
