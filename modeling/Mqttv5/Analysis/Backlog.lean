import Mathlib.Algebra.BigOperators.Group.Finset.Basic
import Mqttv5.Analysis.Slot

/-!
# The backlog of store writes

Every function of the engine but the completion of a write and the end of the session only
adds writes at the ends of the queues, each counted in `writes` (`Adds`). `Counted` says what
the counter counts: the writes in the queues and those that are finished but not yet reported.
-/

set_option autoImplicit false

namespace Mqttv5.Analysis

open Model Program List
open Function (update_of_ne update_self)

/-- The writes for `k` among `l`, in order. -/
def jobsFor (l : List (RecordKey × Job)) (k : RecordKey) : List Job :=
  (l.filter fun x => x.1 = k).map Prod.snd

@[simp]
theorem jobsFor_nil (k : RecordKey) : jobsFor [] k = [] := rfl

@[simp]
theorem jobsFor_append (l l' : List (RecordKey × Job)) (k : RecordKey) :
    jobsFor (l ++ l') k = jobsFor l k ++ jobsFor l' k := by
  simp [jobsFor]

theorem jobsFor_cons (x : RecordKey × Job) (l : List (RecordKey × Job)) (k : RecordKey) :
    jobsFor (x :: l) k = if x.1 = k then x.2 :: jobsFor l k else jobsFor l k := by
  unfold jobsFor
  by_cases hx : x.1 = k <;> simp [hx]

theorem mem_jobsFor {l : List (RecordKey × Job)} {k : RecordKey} {j : Job} :
    j ∈ jobsFor l k ↔ (k, j) ∈ l := by
  simp [jobsFor]

/-- `e'` is `e` with writes added at the ends of its queues, each as `ok` says. -/
def Adds (ok : RecordKey → Job → Prop) (e e' : Engine) : Prop :=
  ∃ l : List (RecordKey × Job), (∀ x ∈ l, ok x.1 x.2) ∧
    (∀ k, e'.queues k = e.queues k ++ jobsFor l k) ∧ e'.writes = e.writes + l.length

namespace Adds

variable {ok : RecordKey → Job → Prop} {e e' e'' : Engine}

theorem of_eq (hq : e'.queues = e.queues) (hw : e'.writes = e.writes) : Adds ok e e' :=
  ⟨[], by simp, by simp [hq], by simp [hw]⟩

theorem trans (h : Adds ok e e') (h' : Adds ok e' e'') : Adds ok e e'' := by
  obtain ⟨l, hok, hq, hw⟩ := h
  obtain ⟨l', hok', hq', hw'⟩ := h'
  refine ⟨l ++ l', ?_, ?_, ?_⟩
  · intro x hx
    rcases mem_append.mp hx with hx | hx
    · exact hok x hx
    · exact hok' x hx
  · intro k
    rw [hq', hq, jobsFor_append, append_assoc]
  · rw [hw', hw, length_append]
    push_cast
    omega

theorem mono {ok' : RecordKey → Job → Prop} (h : Adds ok e e') (hok : ∀ k j, ok k j → ok' k j) :
    Adds ok' e e' := by
  obtain ⟨l, hl, hrest⟩ := h
  exact ⟨l, fun x hx => hok _ _ (hl x hx), hrest⟩

theorem queueLocked (e : Engine) (k : RecordKey) (o : FlowPtr) (j : JobKind)
    (hok : ok k ⟨j, o, e.epoch, .queued⟩) : Adds ok e (queueLocked e k o j) := by
  refine ⟨[(k, ⟨j, o, e.epoch, .queued⟩)], by simpa using hok, ?_, by simp [Program.queueLocked]⟩
  intro k'
  rw [jobsFor_cons]
  unfold Program.queueLocked
  by_cases hk : k = k'
  · subst hk
    simp
  · simp [hk, update_of_ne (Ne.symm hk)]

/-- Queues only grow. -/
theorem mem_cases (h : Adds ok e e') {k : RecordKey} {j : Job} (hj : j ∈ e'.queues k) :
    j ∈ e.queues k ∨ ok k j := by
  obtain ⟨l, hok, hq, -⟩ := h
  rw [hq, mem_append, mem_jobsFor] at hj
  rcases hj with hj | hj
  · exact .inl hj
  · exact .inr (hok _ hj)

end Adds

/-- A write that has just been queued: of the present epoch, for a record of its own side and,
when it puts one, under the key of that record. -/
structure Fresh (epoch : ℕ) (k : RecordKey) (j : Job) : Prop where
  epoch : j.epoch = epoch
  stage : j.stage = .queued
  side : isOutbound j.kind = true ↔ k.dir = .outbound
  key : ∀ r, putOf j.kind = some r → r.key = k

/-- A write that is not the first of its flow. -/
def Later (epoch : ℕ) (k : RecordKey) (j : Job) : Prop := Fresh epoch k j ∧ isNew j.kind = false

/-- A write for a flow that has ended. -/
def Closing (epoch : ℕ) (k : RecordKey) (j : Job) : Prop :=
  Later epoch k j ∧ ∀ r, putOf j.kind = some r → r.phase = .completed

/-- `reporting` finished writes are not counted off yet. -/
def Counted (e : Engine) (reporting : ℕ) : Prop :=
  ∃ K : Finset RecordKey, (∀ k, k ∉ K → e.queues k = []) ∧
    e.writes = (∑ k ∈ K, (e.queues k).length : ℕ) + reporting

namespace Counted

variable {e e' : Engine} {n : ℕ}

section

variable (h : Counted e n)
include h

theorem congr (hq : e'.queues = e.queues) (hw : e'.writes = e.writes) : Counted e' n := by
  obtain ⟨K, hout, hsum⟩ := h
  exact ⟨K, fun k hk => by rw [hq]; exact hout k hk, by rw [hw, hq]; exact hsum⟩

/-- The sum over more keys than needed. -/
theorem extend (k : RecordKey) : ∃ K : Finset RecordKey, k ∈ K ∧
    (∀ k, k ∉ K → e.queues k = []) ∧ e.writes = (∑ k ∈ K, (e.queues k).length : ℕ) + n := by
  obtain ⟨K, hout, hsum⟩ := h
  refine ⟨insert k K, Finset.mem_insert_self k K, ?_, ?_⟩
  · intro k' hk'
    exact hout k' fun hmem => hk' (Finset.mem_insert_of_mem hmem)
  · by_cases hk : k ∈ K
    · rw [Finset.insert_eq_of_mem hk]
      exact hsum
    · rw [Finset.sum_insert hk, hout k hk]
      simpa using hsum

/-- A change of one queue, counted. -/
theorem update (k : RecordKey) (hother : ∀ k', k' ≠ k → e'.queues k' = e.queues k') {m : ℕ}
    (hw : e'.writes + (e.queues k).length + n = e.writes + (e'.queues k).length + m) :
    Counted e' m := by
  obtain ⟨K, hk, hout, hsum⟩ := h.extend k
  refine ⟨K, ?_, ?_⟩
  · intro k' hk'
    have hne : k' ≠ k := fun heq => hk' (heq ▸ hk)
    rw [hother k' hne]
    exact hout k' hk'
  · have hsplit : ∀ q : RecordKey → List Job, (∑ k ∈ K, (q k).length : ℕ) =
        (q k).length + ∑ k ∈ K.erase k, (q k).length := fun q =>
      (Finset.add_sum_erase K (fun k => (q k).length) hk).symm
    have hsame : (∑ k ∈ K.erase k, (e'.queues k).length) = ∑ k ∈ K.erase k,
      (e.queues k).length := by
      refine Finset.sum_congr rfl ?_
      intro k' hk'
      rw [hother k' (Finset.ne_of_mem_erase hk')]
    rw [hsplit] at hsum
    rw [hsplit, hsame]
    push_cast at hsum ⊢
    omega

theorem adds {ok : RecordKey → Job → Prop} (ha : Adds ok e e') : Counted e' n := by
  obtain ⟨l, -, hq, hw⟩ := ha
  induction l generalizing e with
  | nil => exact h.congr (funext fun k => by simpa using hq k) (by simpa using hw)
  | cons x l ih =>
    -- One write first, then the rest.
    let d : Engine := { e with
      queues := Function.update e.queues x.1 (e.queues x.1 ++ [x.2])
      writes := e.writes + 1 }
    have hd : Counted d n := by
      refine h.update x.1 ?_ ?_
      · intro k' hk'
        exact update_of_ne hk' _ _
      · simp only [d, update_self, length_append, length_singleton]
        push_cast
        omega
    refine ih hd ?_ ?_
    · intro k
      rw [hq k, jobsFor_cons]
      by_cases hk : x.1 = k
      · subst hk
        simp [d]
      · simp [d, hk, update_of_ne (Ne.symm hk)]
    · rw [hw]
      simp only [d, length_cons]
      push_cast
      omega

/-- With the counter at zero there is no write left. -/
theorem idle (hw : e.writes = 0) : (∀ k, e.queues k = []) ∧ n = 0 := by
  obtain ⟨K, hout, hsum⟩ := h
  have hzero : (∑ k ∈ K, (e.queues k).length) = 0 ∧ n = 0 := by omega
  refine ⟨?_, hzero.2⟩
  intro k
  by_cases hk : k ∈ K
  · exact length_eq_zero_iff.mp (Finset.sum_eq_zero_iff.mp hzero.1 k hk)
  · exact hout k hk

theorem setStage (k : RecordKey) (st : Stage) : Counted (setStage e k st) n := by
  cases hq : e.queues k with
  | nil =>
    have : Program.setStage e k st = e := by
      unfold Program.setStage
      rw [hq]
    rw [this]
    exact h
  | cons j rest =>
    have heq : Program.setStage e k st =
        { e with queues := Function.update e.queues k ({ j with stage := st } :: rest) } := by
      unfold Program.setStage
      rw [hq]
    rw [heq]
    refine h.update k (fun k' hk' => update_of_ne hk' _ _) ?_
    simp [hq]

theorem cancelLocked (k : RecordKey) (o : FlowPtr) : Counted (cancelLocked e k o) n := by
  unfold Program.cancelLocked
  split
  · exact h
  · rename_i head rest hq
    refine h.update k (fun k' hk' => update_of_ne hk' _ _) ?_
    have hle := length_filter_le (fun j : Job => decide (j.owner ≠ o)) rest
    simp only [update_self, hq, length_cons]
    push_cast [hle]
    omega

theorem popJob (k : RecordKey) (hk : e.queues k ≠ []) : Counted (popJob e k) (n + 1) := by
  refine h.update k (fun k' hk' => update_of_ne hk' _ _) ?_
  have hpos : 0 < (e.queues k).length := length_pos_iff.mpr hk
  simp only [Program.popJob, update_self, length_tail]
  omega

theorem reportJob (hn : 0 < n) : Counted (reportJob e) (n - 1) := by
  obtain ⟨K, hout, hsum⟩ := h
  refine ⟨K, hout, ?_⟩
  simp only [Program.reportJob]
  omega

end

end Counted

end Mqttv5.Analysis
