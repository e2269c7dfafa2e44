import Mqttv5.Analysis.FlowRule

/-!
# The writes in the queues

`JobInv` is what holds of every queued write: it is for a record of its own side, it is of the
present epoch until the session fails and of an earlier one afterwards, and the flow of a first
Put has not been handed out.
-/

set_option autoImplicit false

namespace Mqttv5.Analysis

open Model Program Interface
open Function (update_of_ne update_self)

/-- The PUBLISH of a flow waits for its first Put. -/
def Unsent (e : Engine) : Prop :=
  ∀ id, ∀ j ∈ e.queues (outKey id), isNew j.kind = true →
    ∃ p, j.owner = .out p ∧ (e.outs p).id = id ∧ (e.outs p).attempted = false

/-- Every write of `e'` is one of `e`, perhaps in another stage. -/
def SubJobs (e e' : Engine) : Prop :=
  ∀ k, ∀ j' ∈ e'.queues k, ∃ j ∈ e.queues k,
    j.kind = j'.kind ∧ j.owner = j'.owner ∧ j.epoch = j'.epoch

theorem SubJobs.of_subset {e e' : Engine} (h : ∀ k, ∀ j ∈ e'.queues k, j ∈ e.queues k) :
    SubJobs e e' := fun k j hj => ⟨j, h k j hj, rfl, rfl, rfl⟩

section

variable (e : Engine)

theorem subJobs_setStage (k : RecordKey) (st : Stage) :
    SubJobs e (setStage e k st) := by
  intro k' j' hj'
  unfold setStage at hj'
  split at hj'
  · exact ⟨j', hj', rfl, rfl, rfl⟩
  · rename_i j rest hq
    by_cases hk : k' = k
    · subst hk
      simp only [update_self, List.mem_cons] at hj'
      rcases hj' with rfl | hj'
      · exact ⟨j, head_mem hq, rfl, rfl, rfl⟩
      · exact ⟨j', by rw [hq]; exact .tail _ hj', rfl, rfl, rfl⟩
    · simp only [update_of_ne hk] at hj'
      exact ⟨j', hj', rfl, rfl, rfl⟩

theorem subJobs_popJob (k : RecordKey) : SubJobs e (popJob e k) := by
  apply SubJobs.of_subset
  intro k' j hj
  unfold popJob at hj
  by_cases hk : k' = k
  · subst hk
    simp only [update_self] at hj
    exact List.mem_of_mem_tail hj
  · simpa only [update_of_ne hk] using hj

theorem cancelLocked_subset (k : RecordKey) (o : FlowPtr) :
    ∀ k', ∀ j ∈ (cancelLocked e k o).queues k', j ∈ e.queues k' := by
  intro k' j hj
  unfold cancelLocked at hj
  split at hj
  · exact hj
  · rename_i head rest hq
    by_cases hk : k' = k
    · subst hk
      simp only [update_self, List.mem_cons] at hj
      rw [hq]
      rcases hj with rfl | hj
      · exact List.mem_cons_self
      · exact .tail _ (List.mem_of_mem_filter hj)
    · simpa only [update_of_ne hk] using hj

/-- A failed first Put takes the flow's other writes with it. -/
theorem dropNew_jobs (p : OutPtr) (err : ℕ) :
    (dropNew e p err).queues = (cancelLocked e (outKey (e.outs p).id) (.out p)).queues ∧
    (dropNew e p err).writes = (cancelLocked e (outKey (e.outs p).id) (.out p)).writes := by
  have hcancel : ∀ d : Engine, d.queues = e.queues → d.writes = e.writes →
      (cancelLocked d (outKey (e.outs p).id) (.out p)).queues =
        (cancelLocked e (outKey (e.outs p).id) (.out p)).queues ∧
      (cancelLocked d (outKey (e.outs p).id) (.out p)).writes =
        (cancelLocked e (outKey (e.outs p).id) (.out p)).writes := by
    intro d hq hw
    unfold cancelLocked
    rw [hq, hw]
    split
    · exact ⟨hq, hw⟩
    · exact ⟨rfl, rfl⟩
  have hrelease : ∀ (d : Engine) (id : PacketID) (o : Owner),
      (releaseLocked d id o).queues = d.queues ∧ (releaseLocked d id o).writes = d.writes := by
    intro d id o
    obtain ⟨ids, stuck, heq⟩ := releaseLocked_eq d id o
    rw [heq]
    exact ⟨rfl, rfl⟩
  unfold dropNew
  simp only [hrelease]
  have := hcancel
    { e with putErr := Function.update e.putErr p (some ⟨"put outbound", err⟩) } rfl rfl
  split
  · exact this
  · exact this

/-- The `after` of a write drops writes of its flow or adds to them. -/
theorem afterJob_jobs (j : Job) (res : Option JobErr) :
    (SubJobs e (afterJob e j res).1 ∧ ∀ n, Counted e n → Counted (afterJob e j res).1 n) ∨
    Adds (Closing e.epoch) e (afterJob e j res).1 := by
  have hdrop : ∀ p err, SubJobs e (dropNew e p err) ∧
      ∀ n, Counted e n → Counted (dropNew e p err) n := by
    intro p err
    obtain ⟨hq, hw⟩ := dropNew_jobs e p err
    refine ⟨SubJobs.of_subset ?_, ?_⟩
    · rw [hq]
      exact cancelLocked_subset e _ _
    · intro n hn
      exact (hn.cancelLocked (outKey (e.outs p).id) (.out p)).congr hq hw
  rcases j with ⟨kind, owner, epoch, stage⟩
  cases kind with
  | putNew r =>
    rcases owner with p | h <;> rcases res with _ | (err | err)
    · exact .inr (Adds.of_eq rfl rfl)
    · exact .inl (hdrop p err)
    · exact .inl (hdrop p err)
    · exact .inr (Adds.of_eq rfl rfl)
    · exact .inr (Adds.of_eq rfl rfl)
    · exact .inr (Adds.of_eq rfl rfl)
  | settle f o r =>
    right
    rcases owner with p | h <;> rcases res with _ | (err | err)
    · exact adds_settleAfter (setOut e p fun o => { o with settling := false }) p false
    · exact Adds.of_eq rfl rfl
    · exact adds_settleAfter (setOut e p fun o => { o with settling := false }) p true
    · exact Adds.of_eq rfl rfl
    · exact Adds.of_eq rfl rfl
    · exact Adds.of_eq rfl rfl
  | putOut r | putIn r | deleteIn =>
    right; rcases res with _ | (err | err) <;> exact Adds.of_eq rfl rfl

end

namespace Unsent

variable {e e' : Engine}

theorem of_sub (h : Unsent e) (hj : ∀ id, ∀ j' ∈ e'.queues (outKey id), isNew j'.kind = true →
      ∃ j ∈ e.queues (outKey id), j.kind = j'.kind ∧ j.owner = j'.owner)
    (hid : ∀ p, (e'.outs p).id = (e.outs p).id)
    (hsent : ∀ p, (e'.outs p).attempted = true → (e.outs p).attempted = true) : Unsent e' := by
  intro id j' hj' hnew
  obtain ⟨j, hmem, hkind, howner⟩ := hj id j' hj' hnew
  obtain ⟨p, hp, hpid, hatt⟩ := h id j hmem (hkind ▸ hnew)
  refine ⟨p, howner ▸ hp, (hid p).trans hpid, ?_⟩
  by_contra hcon
  have := hsent p (by simpa using hcon)
  rw [hatt] at this
  cases this

/-- Writes are added, none of them a first Put, and the flows are the same. -/
theorem adds {epoch : ℕ} (h : Unsent e) (ha : Adds (Later epoch) e e')
    (hid : ∀ p, (e'.outs p).id = (e.outs p).id)
    (hsent : ∀ p, (e'.outs p).attempted = true → (e.outs p).attempted = true) : Unsent e' := by
  refine h.of_sub ?_ hid hsent
  intro id j hj hnew
  rcases ha.mem_cases hj with hj | hj
  · exact ⟨j, hj, rfl, rfl⟩
  · rw [hj.2] at hnew
    cases hnew

end Unsent

/-- Flows with one send queue have one identifier and were handed out alike. -/
theorem flow_of_sendQueue {e e' : Engine} (h : sendQueue e' = sendQueue e) (p : OutPtr) :
    (e'.outs p).id = (e.outs p).id ∧ (e'.outs p).attempted = (e.outs p).attempted := by
  have hflow : flowOf (e'.outs p) = flowOf (e.outs p) := congrFun (congrArg SendQueue.flows h) p
  exact ⟨congrArg Interface.Flow.id hflow, congrArg Interface.Flow.attempted hflow⟩

/-- A flow that leaves the send queue stays the flow it was. -/
theorem flow_of_finish {e e' : Engine} {q : OutPtr} (h : sendQueue e' = (sendQueue e).finish q)
    (p : OutPtr) :
    (e'.outs p).id = (e.outs p).id ∧ (e'.outs p).attempted = (e.outs p).attempted := by
  have hflow : flowOf (e'.outs p) = ((sendQueue e).finish q).flows p :=
    congrFun (congrArg SendQueue.flows h) p
  have hsame : (((sendQueue e).finish q).flows p).id = (e.outs p).id ∧
      (((sendQueue e).finish q).flows p).attempted = (e.outs p).attempted := by
    unfold SendQueue.finish SendQueue.close SendQueue.setFlow SendQueue.unlink
    by_cases hp : p = q
    · subst hp
      simp [flowOf]
    · simp [hp, flowOf]
  exact ⟨(congrArg Interface.Flow.id hflow).trans hsame.1,
    (congrArg Interface.Flow.attempted hflow).trans hsame.2⟩

theorem unsent_flowRule : FlowRule Unsent := by
  refine ⟨?_, ?_, ?_⟩
  · intro e e' h hq id j hj hnew
    rw [hq.queues] at hj
    obtain ⟨p, howner, hid, hatt⟩ := h id j hj hnew
    refine ⟨p, howner, (hq.outs p).id.trans hid, ?_⟩
    by_contra hcon
    rcases hq.sent p (by simpa using hcon) with hsent | hempty
    · rw [hatt] at hsent
      cases hsent
    · rw [hid] at hempty
      rw [hempty] at hj
      cases hj
  · intro e d p id h _ hl hd
    have hsame := flow_of_sendQueue (sendQueue_retireLocked d p hd.finished)
    have hflow : ∀ q, (d.outs q).id = (e.outs q).id ∧
        (d.outs q).attempted = (e.outs q).attempted := by
      intro q
      by_cases hq : q = p
      · subst hq
        exact ⟨hd.touches.id_eq, hd.attempted⟩
      · rw [hd.touches.outs q hq]
        exact ⟨rfl, rfl⟩
    have hdu : Unsent d := h.of_sub (fun i j hj _ =>
      ⟨j, by rw [← hd.queues_eq]; exact hj, rfl, rfl⟩)
      (fun q => (hflow q).1) fun q hq => (hflow q).2 ▸ hq
    exact hdu.adds ((adds_retireLocked d p).mono fun _ _ hj => hj.1) (fun q => (hsame q).1)
      fun q hq => (hsame q).2 ▸ hq
  · intro e d p id h _ hl hd
    have hsame := flow_of_sendQueue (sendQueue_putOutLocked d p)
    have hflow : ∀ q, (d.outs q).id = (e.outs q).id ∧
        ((d.outs q).attempted = true → (e.outs q).attempted = true) := by
      intro q
      by_cases hq : q = p
      · subst hq
        exact ⟨hd.touches.id_eq, hd.sent⟩
      · rw [hd.touches.outs q hq]
        exact ⟨rfl, fun h => h⟩
    have hdu : Unsent d := h.of_sub (fun i j hj _ =>
      ⟨j, by rw [← hd.queues_eq]; exact hj, rfl, rfl⟩)
      (fun q => (hflow q).1) fun q => (hflow q).2
    exact hdu.adds (adds_putOutLocked d p) (fun q => (hsame q).1) fun q hq => (hsame q).2 ▸ hq

structure JobInv (e : Engine) : Prop where
  side : ∀ k, ∀ j ∈ e.queues k, isOutbound j.kind = true ↔ k.dir = .outbound
  current : e.failure = none → ∀ k, ∀ j ∈ e.queues k, j.epoch = e.epoch
  stale : e.failure ≠ none → ∀ k, ∀ j ∈ e.queues k, j.epoch < e.epoch
  key : ∀ k, ∀ j ∈ e.queues k, ∀ r, putOf j.kind = some r → r.key = k
  unsent : Unsent e

/-- Without writes there is nothing to say about them. -/
theorem jobInv_of_idle {e : Engine} (h : ∀ k, e.queues k = []) : JobInv e := by
  refine ⟨?_, ?_, ?_, ?_, ?_⟩
  · intro k j hj
    rw [h k] at hj
    cases hj
  · intro _ k j hj
    rw [h k] at hj
    cases hj
  · intro _ k j hj
    rw [h k] at hj
    cases hj
  · intro k j hj
    rw [h k] at hj
    cases hj
  · intro id j hj
    rw [h _] at hj
    cases hj

namespace JobInv

variable {e e' : Engine}

theorem sub (h : JobInv e) (hs : SubJobs e e') (hf : e'.failure = e.failure)
    (hep : e'.epoch = e.epoch) (hu : Unsent e') : JobInv e' := by
  refine ⟨?_, ?_, ?_, ?_, hu⟩
  · intro k j' hj'
    obtain ⟨j, hj, hkind, -, -⟩ := hs k j' hj'
    rw [← hkind]
    exact h.side k j hj
  · intro hnone k j' hj'
    obtain ⟨j, hj, -, -, hepoch⟩ := hs k j' hj'
    rw [← hepoch, hep]
    exact h.current (hf ▸ hnone) k j hj
  · intro hsome k j' hj'
    obtain ⟨j, hj, -, -, hepoch⟩ := hs k j' hj'
    rw [← hepoch, hep]
    exact h.stale (hf ▸ hsome) k j hj
  · intro k j' hj' r hr
    obtain ⟨j, hj, hkind, -, -⟩ := hs k j' hj'
    rw [← hkind] at hr
    exact h.key k j hj r hr

theorem adds (h : JobInv e) (hnone : e.failure = none) (ha : Adds (Fresh e.epoch) e e')
    (hf : e'.failure = e.failure) (hep : e'.epoch = e.epoch) (hu : Unsent e') : JobInv e' := by
  refine ⟨?_, ?_, ?_, ?_, hu⟩
  · intro k j hj
    rcases ha.mem_cases hj with hj | hj
    · exact h.side k j hj
    · exact hj.side
  · intro _ k j hj
    rw [hep]
    rcases ha.mem_cases hj with hj | hj
    · exact h.current hnone k j hj
    · exact hj.epoch
  · intro hsome
    exact absurd (hf.trans hnone) hsome
  · intro k j hj r hr
    rcases ha.mem_cases hj with hj | hj
    · exact h.key k j hj r hr
    · exact hj.key r hr

/-- A change outside the queues and the flows. -/
theorem congr (h : JobInv e) (hq : e'.queues = e.queues) (ho : e'.outs = e.outs)
    (hf : e'.failure = e.failure) (hep : e'.epoch = e.epoch) : JobInv e' := by
  refine h.sub (SubJobs.of_subset fun k j hj => by rw [← hq]; exact hj) hf hep ?_
  refine h.unsent.of_sub (fun id j hj _ => ⟨j, by rw [← hq]; exact hj, rfl, rfl⟩) ?_ ?_
  · intro p
    rw [ho]
  · intro p
    rw [ho]
    exact fun h => h

theorem failLocked (h : JobInv e) (err : StoreError) : JobInv (failLocked e err) := by
  by_cases hf : e.failure = none
  · have heq := failLocked_eq e err hf
    rw [heq]
    refine ⟨h.side, ?_, ?_, h.key, ?_⟩
    · intro hcon
      cases hcon
    · intro _ k j hj
      have := h.current hf k j hj
      show j.epoch < e.epoch + 1
      omega
    · refine h.unsent.of_sub (fun id j hj _ => ⟨j, hj, rfl, rfl⟩) ?_ ?_
      · intro p
        simp only
        split <;> rfl
      · intro p
        simp only
        split <;> exact fun h => h
  · rw [failLocked_of_failed e err hf]
    exact h

end JobInv

end Mqttv5.Analysis
