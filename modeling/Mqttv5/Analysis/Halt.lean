import Mqttv5.Analysis.Told

/-!
# A failed session

Between its failure and the next `Restore` a session does nothing but run the store writes that
are queued: each in its turn, record by record. No flow changes, nothing is handed out, and no
flow is added. `Halted s t` says so of a run from `s` to `t`.
-/

set_option autoImplicit false

namespace Mqttv5.Analysis

open Mqttv5.Computation Model Program Interface List
open Function (update_of_ne)

variable {j : Job}

def hasRun (j : Job) : Bool :=
  match j.stage with
  | .ran _ => true
  | _ => false

/-- The writes of a queue that have yet to run. -/
def pending (q : List Job) : List JobKind := (q.filter fun j => !hasRun j).map Job.kind

/-- The writes of a record among those that ran. -/
def ranAt (k : RecordKey) (l : List (RecordKey × Job)) : List JobKind :=
  (l.filter fun x => x.1 = k).map fun x => x.2.kind

theorem ranAt_append (k : RecordKey) (l l' : List (RecordKey × Job)) :
    ranAt k (l ++ l') = ranAt k l ++ ranAt k l' := by
  simp [ranAt]

structure Halted (s t : Sys) : Prop where
  failure : t.eng.failure = s.eng.failure
  outs : t.eng.outs = s.eng.outs
  nextOut : t.eng.nextOut = s.eng.nextOut
  nextIn : t.eng.nextIn = s.eng.nextIn
  nextSeq : t.eng.nextSeq = s.eng.nextSeq
  sent : t.sent = s.sent
  writes : ∃ new, t.ran = s.ran ++ new ∧
    ∀ k, ranAt k new ++ pending (t.eng.queues k) = pending (s.eng.queues k)

namespace Halted

variable {s t u : Sys}

theorem trans (h : Halted s t) (h' : Halted t u) : Halted s u := by
  obtain ⟨new, hran, hq⟩ := h.writes
  obtain ⟨new', hran', hq'⟩ := h'.writes
  refine ⟨h'.failure.trans h.failure, h'.outs.trans h.outs, h'.nextOut.trans h.nextOut,
    h'.nextIn.trans h.nextIn, h'.nextSeq.trans h.nextSeq, h'.sent.trans h.sent, new ++ new', ?_, ?_⟩
  · rw [hran', hran, append_assoc]
  · intro k
    rw [ranAt_append, append_assoc, hq', hq]

/-- A step that is none of a write's. -/
theorem of_same (hf : t.eng.failure = s.eng.failure) (ho : t.eng.outs = s.eng.outs)
    (hn : t.eng.nextOut = s.eng.nextOut ∧ t.eng.nextIn = s.eng.nextIn ∧
      t.eng.nextSeq = s.eng.nextSeq)
    (hsent : t.sent = s.sent) (hran : t.ran = s.ran) (hq : t.eng.queues = s.eng.queues) :
    Halted s t :=
  ⟨hf, ho, hn.1, hn.2.1, hn.2.2, hsent, [], by rw [hran, append_nil], fun k => by rw [hq]; rfl⟩

theorem refl (s : Sys) : Halted s s := of_same rfl rfl ⟨rfl, rfl, rfl⟩ rfl rfl rfl

/-- The write at the head of its queue gets on without running. -/
theorem of_stage {k : RecordKey} {rest : List Job} {st : Stage}
    (hq : s.eng.queues k = j :: rest) (hj : hasRun j = false)
    (hst : hasRun { j with stage := st } = false) (heng : t.eng = setStage s.eng k st)
    (hsent : t.sent = s.sent) (hran : t.ran = s.ran) : Halted s t := by
  have heq : setStage s.eng k st = { s.eng with
      queues := Function.update s.eng.queues k ({ j with stage := st } :: rest) } := by
    simp only [setStage, hq]
  rw [heq] at heng
  refine ⟨by rw [heng], by rw [heng], by rw [heng], by rw [heng], by rw [heng], hsent, [],
    by rw [hran, append_nil], ?_⟩
  intro k'
  rw [heng]
  by_cases hk : k' = k
  · subst hk
    simp [pending, ranAt, hq, hj, hst]
  · simp [ranAt, update_of_ne hk]

end Halted

section Step

variable {on : Prop} {s t : Sys} {a : Event}

end Step

end Mqttv5.Analysis
