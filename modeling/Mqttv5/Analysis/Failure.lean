import Mqttv5.Analysis.Inward

/-!
# The failure of a session

`failLocked` in one equation: the flows of the session end with the error, the inbound flows
are dead, every map and list is empty; the identifiers, the write queues and the connection
are as they were. `Dead` is the shape it leaves.
-/

set_option autoImplicit false

namespace Mqttv5.Analysis

open Model Program List

variable (e : Engine)

theorem foldl_killIn (l : List InPtr) :
    l.foldl killIn e = { e with ins := fun h =>
      if h ∈ l then { e.ins h with dead := true } else e.ins h } := by
  induction l generalizing e with
  | nil => simp
  | cons x rest ih =>
    rw [foldl_cons, ih]
    simp only [killIn, setIn]
    congr 1
    funext h
    by_cases hx : h = x
    · subst hx
      simp
    · simp [hx]

/-- A flow completed `n` times with the failure. -/
def failedFlow (err : StoreError) (n : ℕ) (o : Out) : Out :=
  { o with finished := true, err := some (.store err), done := o.done + n }

/-- The Settle that the end of the session calls for an ended flow that was kept. -/
def orphanSettle (o : Out) : Option SettleFn :=
  if o.adopted ∨ ¬ o.settling then o.settle else none

theorem foldl_failFlow (err : StoreError) (l : List OutPtr) :
    l.foldl (failFlow err) e = { e with
      outs := fun q => if q ∈ l then failedFlow err (l.count q) (e.outs q) else e.outs q
      dropped := e.dropped ++
        l.filterMap fun p => (e.outs p).settle.map fun f => (p, f, .store err) } := by
  induction l generalizing e with
  | nil => simp
  | cons p rest ih =>
    have hone : failFlow err e p = { e with
        outs := Function.update e.outs p (failedFlow err 1 (e.outs p))
        dropped := e.dropped ++
          ((e.outs p).settle.map fun f => (p, f, PubErr.store err)).toList } := by
      unfold failFlow
      simp only [setOut, Function.update_self, failedFlow]
      cases (e.outs p).settle with
      | none => simp
      | some f => rfl
    have hsettle : ∀ q, (Function.update e.outs p (failedFlow err 1 (e.outs p)) q).settle =
        (e.outs q).settle := by
      intro q
      by_cases hq : q = p
      · simp [hq, failedFlow]
      · simp [hq]
    rw [foldl_cons, hone, ih]
    simp only [hsettle, append_assoc, filterMap_cons]
    congr 1
    · funext q
      by_cases hq : q = p
      · subst hq
        by_cases hmem : q ∈ rest
        · simp [hmem, failedFlow, Nat.add_assoc, Nat.add_comm]
        · simp [hmem, count_eq_zero_of_not_mem hmem]
      · simp [hq, Ne.symm hq]
    · cases (e.outs p).settle <;> simp

theorem foldl_failOrphan (err : StoreError) (l : List OutPtr) :
    l.foldl (failOrphan err) e = { e with
      dropped := e.dropped ++
        l.filterMap fun p => (orphanSettle (e.outs p)).map fun f => (p, f, .store err) } := by
  induction l generalizing e with
  | nil => simp
  | cons p rest ih =>
    have hone : failOrphan err e p = { e with dropped := e.dropped ++
        ((orphanSettle (e.outs p)).map fun f => (p, f, PubErr.store err)).toList } := by
      unfold failOrphan orphanSettle
      simp only
      cases (e.outs p).settle with
      | none => simp
      | some f =>
        simp only
        split
        · rfl
        · simp
    rw [foldl_cons, hone, ih]
    simp only [append_assoc, filterMap_cons]
    cases orphanSettle (e.outs p) <;> simp

/-- The calls a failure has to make: the Settle of each flow of the session, and that of
each kept flow whose adopter still waits. -/
def failDrops (err : StoreError) : List (OutPtr × SettleFn × PubErr) :=
  ((sortByPubSeq e (e.pub ++ e.rel)).filterMap fun p =>
    (e.outs p).settle.map fun f => (p, f, PubErr.store err)) ++
  e.orphans.vals.filterMap fun p =>
    (orphanSettle (e.outs p)).map fun f => (p, f, PubErr.store err)

/-- INTERNAL: **The failure of a session**, field by field. -/
theorem failLocked_eq (err : StoreError) (h : e.failure = none) :
    failLocked e err = { e with
      failure := some err
      epoch := e.epoch + 1
      ins := fun h => if h ∈ e.inn.vals then { e.ins h with dead := true } else e.ins h
      inn := ∅
      fifo := []
      ctrl := []
      outs := fun q => if q ∈ e.pub ++ e.rel then
          failedFlow err ((e.pub ++ e.rel).count q) (e.outs q)
        else e.outs q
      pub := []
      rel := []
      out := ∅
      refs := ∅
      orphans := ∅
      cursor := none
      dropped := e.dropped ++ failDrops e err } := by
  unfold failLocked
  rw [if_neg (by simp [h])]
  simp only [foldl_killIn, drainFlowsLocked, clearIn]
  have hperm : (sortByPubSeq e (e.pub ++ e.rel)).Perm (e.pub ++ e.rel) :=
    perm_insertionSort _ _
  have hflows : ∀ q, (if q ∈ sortByPubSeq e (e.pub ++ e.rel) then
        failedFlow err ((sortByPubSeq e (e.pub ++ e.rel)).count q) (e.outs q) else e.outs q) =
      if q ∈ e.pub ++ e.rel then failedFlow err ((e.pub ++ e.rel).count q) (e.outs q)
        else e.outs q := by
    intro q
    rw [hperm.count_eq]
    simp only [hperm.mem_iff]
  generalize hd : ({ e with
      failure := some err
      epoch := e.epoch + 1
      ins := fun h => if h ∈ e.inn.vals then { e.ins h with dead := true } else e.ins h
      inn := ∅
      fifo := []
      ctrl := []
      pub := []
      rel := [] } : Engine) = d
  have hsort : ∀ l, sortByPubSeq { e with
      failure := some err
      epoch := e.epoch + 1
      ins := fun h => if h ∈ e.inn.vals then { e.ins h with dead := true } else e.ins h
      inn := ∅
      fifo := []
      ctrl := [] } l = sortByPubSeq e l := fun _ => rfl
  rw [hsort]
  have hsame : ∀ q, orphanSettle (if q ∈ e.pub ++ e.rel then
      failedFlow err ((e.pub ++ e.rel).count q) (e.outs q) else e.outs q) =
      orphanSettle (e.outs q) := by
    intro q
    split
    · rfl
    · rfl
  have houts : d.outs = e.outs := by rw [← hd]
  rw [foldl_failFlow, foldl_failOrphan]
  simp only [houts, hflows, hsame, failDrops, ← append_assoc]
  rw [← hd]

/-- A failure starts a new epoch. -/
theorem statics_failLocked (err : StoreError) (h : e.failure = none) :
    statics (failLocked e err) = { statics e with epoch := e.epoch + 1, failure := some err } := by
  have heq := failLocked_eq e err h
  rw [heq]
  rfl

theorem failLocked_of_failed (err : StoreError) (h : e.failure ≠ none) :
    failLocked e err = e := if_pos (Option.isSome_iff_ne_none.mpr h)

/-- What is left of a session that has failed. -/
structure Dead (e : Engine) : Prop where
  out : e.out = ∅
  refs : e.refs = ∅
  orphans : e.orphans = ∅
  inn : e.inn = ∅
  pub : e.pub = []
  rel : e.rel = []
  fifo : e.fifo = []
  ctrl : e.ctrl = []
  cursor : e.cursor = none

theorem dead_failLocked (err : StoreError) (h : e.failure = none) : Dead (failLocked e err) := by
  have heq := failLocked_eq e err h
  rw [heq]
  exact ⟨rfl, rfl, rfl, rfl, rfl, rfl, rfl, rfl, rfl⟩

end Mqttv5.Analysis
