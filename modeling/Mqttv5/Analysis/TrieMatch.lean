import Mqttv5.Program.Trie

/-!
# What the trie yields

An edit of the entries at the node of one filter (`Edited`) adds to, or takes from, what `Match`
yields for exactly the topics the filter matches, and leaves the entries of every other filter
alone. `Register` and `Unregister` are such edits; what they do follows from that.
-/

set_option autoImplicit false

namespace Mqttv5.Analysis

open Model Program Program.Trie List

variable {α : Type}

variable {l l' : List (Entry α)} {d : List α}

theorem plus_ne_hash : plus ≠ Trie.hash := by decide

/-- The node below that is reached by `+`, empty when it is missing. -/
def plusNode (n : Node α) : Node α := n.plusChild.getD .empty

/-- The node below that is reached by `#`. -/
def hashNode (n : Node α) : Node α := n.hashChild.getD .empty

/-- The node below that is reached by a literal level. -/
def levelNode (n : Node α) (level : Bytes) : Node α := (n.children.lookup level).getD .empty

theorem matchLevels_empty (ts : List Bytes) : (Node.empty : Node α).matchLevels ts = [] := by
  cases ts <;> rfl

theorem hashHandlers_eq (n : Node α) :
    n.hashHandlers = (hashNode n).handlers.map Entry.handler := by
  unfold Node.hashHandlers hashNode
  cases n.hashChild <;> rfl

theorem matchLevels_nil (n : Node α) : n.matchLevels [] =
    (hashNode n).handlers.map Entry.handler ++ n.handlers.map Entry.handler := by
  rw [Node.matchLevels, hashHandlers_eq]

/-- What a node yields, from the nodes below it. -/
theorem matchLevels_cons (n : Node α) (t : Bytes) (ts : List Bytes) : n.matchLevels (t :: ts) =
    (hashNode n).handlers.map Entry.handler ++
      ((plusNode n).matchLevels ts ++ (levelNode n t).matchLevels ts) := by
  rw [Node.matchLevels, hashHandlers_eq]
  unfold plusNode levelNode
  cases n.plusChild <;> cases n.children.lookup t <;>
    simp only [Option.getD_none, Option.getD_some, matchLevels_empty]

theorem matchDollar_cons (n : Node α) (t : Bytes) (ts : List Bytes) :
    n.matchDollar (t :: ts) = (levelNode n t).matchLevels ts := by
  unfold Node.matchDollar levelNode
  cases h : n.children.lookup t with
  | none => simp only [h, Option.getD_none, matchLevels_empty]
  | some child => simp only [h, Option.getD_some]

/-! ### Edits of the entries of one filter -/

/-- `n'` is `n` with the entries `l` at the node of a filter replaced by `l'`. -/
def Edited (l l' : List (Entry α)) : List Bytes → Node α → Node α → Prop
  | [], n, n' => n.handlers = l ∧ n'.handlers = l' ∧ plusNode n' = plusNode n ∧
      hashNode n' = hashNode n ∧ levelNode n' = levelNode n
  | level :: levels, n, n' =>
    n'.handlers = n.handlers ∧
    if level = plus then
      Edited l l' levels (plusNode n) (plusNode n') ∧ hashNode n' = hashNode n ∧
        levelNode n' = levelNode n
    else if level = hash then
      (hashNode n).handlers = l ∧ (hashNode n').handlers = l' ∧ plusNode n' = plusNode n ∧
        levelNode n' = levelNode n
    else
      Edited l l' levels (levelNode n level) (levelNode n' level) ∧ plusNode n' = plusNode n ∧
        hashNode n' = hashNode n ∧ ∀ k ≠ level, levelNode n' k = levelNode n k

theorem Edited.symm (fs : List Bytes) :
    ∀ {n n' : Node α}, Edited l l' fs n n' → Edited l' l fs n' n := by
  induction fs with
  | nil =>
    rintro n n' ⟨hl, hl', hp, hh, hc⟩
    exact ⟨hl', hl, hp.symm, hh.symm, hc.symm⟩
  | cons f fs ih =>
    rintro n n' ⟨hs, h⟩
    refine ⟨hs.symm, ?_⟩
    by_cases hplus : f = plus
    · rw [if_pos hplus] at h ⊢
      exact ⟨ih h.1, h.2.1.symm, h.2.2.symm⟩
    · rw [if_neg hplus] at h ⊢
      by_cases hhash : f = Trie.hash
      · rw [if_pos hhash] at h ⊢
        exact ⟨h.2.1, h.1, h.2.2.1.symm, h.2.2.2.symm⟩
      · rw [if_neg hhash] at h ⊢
        exact ⟨ih h.1, h.2.1.symm, h.2.2.1.symm, fun k hk => (h.2.2.2 k hk).symm⟩

/-- INTERNAL: **What an edit does to a match.** The handlers `d` that the entries lose are
yielded no more for exactly the topics the filter matches. The induction is on the levels of the
filter; every case moves `d` to the front of one part of what the node yields. -/
theorem Edited.matchLevels (hd : (l.map Entry.handler).Perm (d ++ l'.map Entry.handler))
    (fs : List Bytes) :
    ∀ (ts : List Bytes) {n n' : Node α}, Edited l l' fs n n' →
      (n.matchLevels ts).Perm ((if levelsMatch fs ts then d else []) ++ n'.matchLevels ts) := by
  induction fs with
  | nil =>
    rintro (- | ⟨t, ts⟩) n n' ⟨hl, hl', hp, hh, hc⟩
    · rw [matchLevels_nil, matchLevels_nil, hh, hl, hl', show levelsMatch [] [] = true from rfl,
        if_pos rfl]
      exact (hd.append_left _).trans (perm_append_comm_assoc _ _ _)
    · rw [matchLevels_cons, matchLevels_cons, hh, hp, hc]
      exact .refl _
  | cons f fs ih =>
    rintro ts n n' ⟨hs, h⟩
    split at h
    · rename_i hf
      obtain ⟨h, hh, hc⟩ := h
      subst hf
      rcases ts with - | ⟨t, ts⟩
      · rw [matchLevels_nil, matchLevels_nil, hh, hs]
        exact .refl _
      · rw [matchLevels_cons, matchLevels_cons, hh, hc,
          show levelsMatch (plus :: fs) (t :: ts) = levelsMatch fs ts by
            simp [levelsMatch, plus_ne_hash]]
        refine (((ih ts h).append_right _).append_left _).trans ?_
        rw [append_assoc]
        exact perm_append_comm_assoc _ _ _
    · split at h
      · rename_i hf
        obtain ⟨hl, hl', hp, hc⟩ := h
        subst hf
        rw [show levelsMatch (hash :: fs) ts = true by simp [levelsMatch], if_pos rfl]
        rcases ts with - | ⟨t, ts⟩
        · rw [matchLevels_nil, matchLevels_nil, hs, hl, hl', ← append_assoc]
          exact hd.append_right _
        · rw [matchLevels_cons, matchLevels_cons, hp, hc, hl, hl', ← append_assoc d]
          exact hd.append_right _
      · rename_i hplus hhash
        obtain ⟨h, hp, hh, hc⟩ := h
        rcases ts with - | ⟨t, ts⟩
        · rw [matchLevels_nil, matchLevels_nil, hh, hs,
            show levelsMatch (f :: fs) [] = false by simp [levelsMatch, hhash]]
          exact .refl _
        · rw [matchLevels_cons, matchLevels_cons, hh, hp]
          by_cases ht : t = f
          · subst ht
            rw [show levelsMatch (t :: fs) (t :: ts) = levelsMatch fs ts by
              simp [levelsMatch, hhash]]
            refine (((ih ts h).append_left _).append_left _).trans ?_
            refine ((perm_append_comm_assoc _ _ _).append_left _).trans ?_
            exact perm_append_comm_assoc _ _ _
          · rw [hc t ht, show levelsMatch (f :: fs) (t :: ts) = false by
              simp [levelsMatch, hhash, hplus, Ne.symm ht]]
            exact .refl _

/-- The same for a topic that starts with `$`, which a leading wildcard does not
match. -/
theorem Edited.matchDollar (hd : (l.map Entry.handler).Perm (d ++ l'.map Entry.handler)) (f : Bytes)
    (fs : List Bytes) (t : Bytes) (ts : List Bytes) {n n' : Node α}
    (h : Edited l l' (f :: fs) n n') :
    (n.matchDollar (t :: ts)).Perm
      ((if levelsMatch (f :: fs) (t :: ts) && !(f = plus ∨ f = hash) then d else []) ++
        n'.matchDollar (t :: ts)) := by
  obtain ⟨-, h⟩ := h
  rw [matchDollar_cons, matchDollar_cons]
  split at h
  · rename_i hf
    rw [h.2.2]
    simp [hf]
  · split at h
    · rename_i hf
      rw [h.2.2.2]
      simp [hf]
    · rename_i hplus hhash
      by_cases ht : t = f
      · subst ht
        rw [show (levelsMatch (t :: fs) (t :: ts) && !decide (t = plus ∨ t = hash)) =
          levelsMatch fs ts by simp [levelsMatch, hhash, hplus]]
        exact Edited.matchLevels hd fs ts h.1
      · rw [h.2.2.2 t ht, show levelsMatch (f :: fs) (t :: ts) = false by
          simp [levelsMatch, hhash, hplus, Ne.symm ht]]
        exact .refl _

/-- A `#` among the levels of a filter is the last of them. -/
def HashLast : List Bytes → Prop
  | [] => True
  | f :: fs => (f = hash → fs = []) ∧ HashLast fs

instance HashLast.decidable : (fs : List Bytes) → Decidable (HashLast fs)
  | [] => .isTrue trivial
  | _ :: fs => @instDecidableAnd _ _ _ (HashLast.decidable fs)

end Mqttv5.Analysis
