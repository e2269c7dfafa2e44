import Mqttv5.Analysis.Holding
import Mqttv5.Analysis.InboxView
import Mqttv5.Analysis.SendOrder

/-!
# Invariants of the outbound flows

A live flow changes in three ways only: its bookkeeping moves (`Quiet`), it is changed and its
record is written again (`Rewritten`), or it ends and is retired (`Ended`). An invariant that
these three keep is a `FlowRule`, and every operation of the engine on flows that exist keeps
a `FlowRule`: the loops of the engine are gone through here once.
-/

set_option autoImplicit false

namespace Mqttv5.Analysis

open Model Program Interface

variable {e d : Engine} {p : OutPtr} {id : PacketID} {loose : List OutPtr}

/-- Two states of a flow that no record and no retirement tells apart. -/
structure SameFlow (store : Bool) (o o' : Out) : Prop where
  id : o'.id = o.id
  finished : o'.finished = o.finished
  settling : o'.settling = o.settling
  adopted : o'.adopted = o.adopted
  settle : o'.settle = o.settle
  ref : o'.ref = o.ref
  phase : o'.phase = o.phase
  seq : o'.seq = o.seq
  pubSeq : o'.pubSeq = o.pubSeq
  err : o'.err = o.err
  outcome : o.finished = true → encodeOutcome o' = encodeOutcome o
  record : store = true → record o' = record o

/-- INTERNAL: A flow is the same as itself. -/
theorem SameFlow.refl (store : Bool) (o : Out) : SameFlow store o o :=
  ⟨rfl, rfl, rfl, rfl, rfl, rfl, rfl, rfl, rfl, rfl, fun _ => rfl, fun _ => rfl⟩

/-- A step that leaves the identifiers, the flows and the writes of their records alone; it
may hand out the PUBLISH of a flow that has no write to wait for. -/
structure Quiet (e e' : Engine) : Prop where
  ids : e'.ids = e.ids
  stuck : e'.stuck = e.stuck
  cfg : e'.cfg = e.cfg
  epoch : e'.epoch = e.epoch
  failure : e'.failure = e.failure
  nextOut : e'.nextOut = e.nextOut
  nextSeq : e'.nextSeq = e.nextSeq
  outs : ∀ q, SameFlow e.cfg.store (e.outs q) (e'.outs q)
  sent : ∀ q, (e'.outs q).attempted = true → (e.outs q).attempted = true ∨
    e.queues (outKey (e.outs q).id) = []
  jobs : Adds (FreshIn e.epoch) e e'
  out : e'.out = e.out
  orphans : e'.orphans = e.orphans
  refs : e'.refs = e.refs
  dropped : e'.dropped = e.dropped

namespace Quiet

variable {e e' e'' : Engine}

/-- A step that changes none of the fields an outbound invariant reads. -/
theorem of_eq (hids : e'.ids = e.ids) (hstuck : e'.stuck = e.stuck)
    (hstat : e'.cfg = e.cfg ∧ e'.epoch = e.epoch ∧ e'.failure = e.failure)
    (hnext : e'.nextOut = e.nextOut) (hseq : e'.nextSeq = e.nextSeq) (houts : e'.outs = e.outs)
    (hjobs : e'.queues = e.queues ∧ e'.writes = e.writes) (hout : e'.out = e.out)
    (horph : e'.orphans = e.orphans) (hprod : e'.refs = e.refs ∧ e'.dropped = e.dropped) :
    Quiet e e' :=
  ⟨hids, hstuck, hstat.1, hstat.2.1, hstat.2.2, hnext, hseq,
    fun q => by rw [houts]; exact SameFlow.refl _ _, fun q hq => .inl (by rw [← houts]; exact hq),
    Adds.of_eq hjobs.1 hjobs.2, hout, horph, hprod.1, hprod.2⟩

/-- INTERNAL: The writes of outbound records stay. -/
theorem queues (h : Quiet e e') (i : PacketID) : e'.queues (outKey i) = e.queues (outKey i) := by
  obtain ⟨l, hl, hq, -⟩ := h.jobs
  have hnone : jobsFor l (outKey i) = [] := by
    refine List.eq_nil_iff_forall_not_mem.mpr ?_
    intro j hj
    have := (hl _ (mem_jobsFor.mp hj)).1
    cases this
  rw [hq, hnone, List.append_nil]

/-- INTERNAL: Nothing happens. -/
theorem refl (e : Engine) : Quiet e e :=
  of_eq rfl rfl ⟨rfl, rfl, rfl⟩ rfl rfl rfl ⟨rfl, rfl⟩ rfl rfl ⟨rfl, rfl⟩

/-- INTERNAL: One quiet step after another. -/
theorem trans (h : Quiet e e') (h' : Quiet e' e'') : Quiet e e'' := by
  refine ⟨h'.ids.trans h.ids, h'.stuck.trans h.stuck, h'.cfg.trans h.cfg, h'.epoch.trans h.epoch,
    h'.failure.trans h.failure, h'.nextOut.trans h.nextOut, h'.nextSeq.trans h.nextSeq, ?_, ?_,
    h.jobs.trans (h.epoch ▸ h'.jobs), h'.out.trans h.out, h'.orphans.trans h.orphans,
    h'.refs.trans h.refs, h'.dropped.trans h.dropped⟩
  on_goal 2 =>
    intro q hq
    rcases h'.sent q hq with hq | hq
    · exact h.sent q hq
    · rw [(h.outs q).id, h.queues] at hq
      exact .inr hq
  intro q
  have h₁ := h.outs q
  have h₂ := h'.outs q
  rw [h.cfg] at h₂
  refine ⟨h₂.id.trans h₁.id, h₂.finished.trans h₁.finished, h₂.settling.trans h₁.settling,
    h₂.adopted.trans h₁.adopted, h₂.settle.trans h₁.settle, h₂.ref.trans h₁.ref,
    h₂.phase.trans h₁.phase, h₂.seq.trans h₁.seq, h₂.pubSeq.trans h₁.pubSeq,
    h₂.err.trans h₁.err, ?_, ?_⟩
  · intro hfin
    exact (h₂.outcome (h₁.finished.trans hfin)).trans (h₁.outcome hfin)
  · intro hstore
    exact (h₂.record hstore).trans (h₁.record hstore)

/-- A change of one flow that no record and no retirement sees. -/
theorem setOut (e : Engine) (p : OutPtr) (f : Out → Out)
    (hf : SameFlow e.cfg.store (e.outs p) (f (e.outs p)))
    (hsent : (f (e.outs p)).attempted = true → (e.outs p).attempted = true ∨
      e.queues (outKey (e.outs p).id) = []) : Quiet e (setOut e p f) := by
  have hself : (Program.setOut e p f).outs p = f (e.outs p) := by simp [Program.setOut]
  have hother : ∀ q, q ≠ p → (Program.setOut e p f).outs q = e.outs q := fun q hq => by
    simp [Program.setOut, hq]
  refine ⟨rfl, rfl, rfl, rfl, rfl, rfl, rfl, ?_, ?_, Adds.of_eq rfl rfl, rfl, rfl, rfl, rfl⟩
  · intro q
    by_cases hq : q = p
    · rw [hq, hself]
      exact hf
    · rw [hother q hq]
      exact SameFlow.refl _ _
  · intro q
    by_cases hq : q = p
    · rw [hq, hself]
      exact hsent
    · rw [hother q hq]
      exact .inl

/-- INTERNAL: A loop of quiet steps. -/
theorem foldl {α : Type} (f : Engine → α → Engine) (hf : ∀ e x, Quiet e (f e x)) (l : List α)
    (e : Engine) : Quiet e (l.foldl f e) := by
  induction l generalizing e with
  | nil => exact refl e
  | cons x rest ih => exact (hf e x).trans (ih _)

/-- INTERNAL: The inbound half is quiet. -/
theorem of_inward (h : Inward e e') : Quiet e e' := by
  have hsame := h.rest
  have houts : e'.outs = e.outs := (congrArg Engine.outs hsame :)
  refine ⟨(congrArg Engine.ids hsame :), (congrArg Engine.stuck hsame :),
    (congrArg Engine.cfg hsame :), (congrArg Engine.epoch hsame :),
    (congrArg Engine.failure hsame :), (congrArg Engine.nextOut hsame :),
    (congrArg Engine.nextSeq hsame :), fun q => ?_, fun q hq => .inl (houts ▸ hq), h.jobs,
    (congrArg Engine.out hsame :), (congrArg Engine.orphans hsame :),
    (congrArg Engine.refs hsame :), (congrArg Engine.dropped hsame :)⟩
  rw [houts]
  exact SameFlow.refl _ _

variable (e : Engine)

/-- INTERNAL: A control packet is. -/
theorem pushCtrlLocked (t : PacketType) (id : PacketID) (rc : ReasonCode) (g : Bool)
    (h : Option InPtr) (src : Option FlowPtr) : Quiet e (pushCtrlLocked e t id rc g h src) :=
  of_eq rfl rfl ⟨rfl, rfl, rfl⟩ rfl rfl rfl ⟨rfl, rfl⟩ rfl rfl ⟨rfl, rfl⟩

/-- INTERNAL: So is taking the flows off their lists. -/
theorem drainFlowsLocked : Quiet e (drainFlowsLocked e).1 :=
  of_eq rfl rfl ⟨rfl, rfl, rfl⟩ rfl rfl rfl ⟨rfl, rfl⟩ rfl rfl ⟨rfl, rfl⟩

/-- INTERNAL: So is giving up a unit of quota. -/
theorem clearCounted (p : OutPtr) : Quiet e (clearCounted e p) :=
  setOut e p _ ⟨rfl, rfl, rfl, rfl, rfl, rfl, rfl, rfl, rfl, rfl, fun _ => rfl, fun _ => rfl⟩ Or.inl

/-- INTERNAL: So is a new connection. -/
theorem bindLocked (ci : ConnInfo) : Quiet e (bindLocked e ci) := by
  unfold Program.bindLocked
  refine trans ?_ (foldl _ clearCounted _ _)
  exact of_eq rfl rfl ⟨rfl, rfl, rfl⟩ rfl rfl rfl ⟨rfl, rfl⟩ rfl rfl ⟨rfl, rfl⟩

/-- INTERNAL: So is a resume. -/
theorem resumeLocked : Quiet e (resumeLocked e) :=
  of_eq rfl rfl ⟨rfl, rfl, rfl⟩ rfl rfl rfl ⟨rfl, rfl⟩ rfl rfl ⟨rfl, rfl⟩

/-- INTERNAL: So is the cursor's way back. -/
theorem rewindLocked (ci : ConnInfo) : Quiet e (rewindLocked e ci) :=
  of_eq rfl rfl ⟨rfl, rfl, rfl⟩ rfl rfl rfl ⟨rfl, rfl⟩ rfl rfl ⟨rfl, rfl⟩

/-- INTERNAL: So is the end of a connection. -/
theorem disconnected (l : LinkID) : Quiet e (disconnected e l) := by
  unfold Program.disconnected
  split
  · exact of_eq rfl rfl ⟨rfl, rfl, rfl⟩ rfl rfl rfl ⟨rfl, rfl⟩ rfl rfl ⟨rfl, rfl⟩
  · exact refl e

/-- INTERNAL: So is handing out a stored flow. -/
theorem handOut (p : OutPtr) (hstored : e.queues (outKey (e.outs p).id) = []) :
    Quiet e (handOut e p) := by
  unfold Program.handOut
  refine trans (setOut e p (fun o => { o with attempted := true, counted := true })
    ⟨rfl, rfl, rfl, rfl, rfl, rfl, rfl, rfl, rfl, rfl, fun _ => rfl, fun _ => rfl⟩
    fun _ => .inr hstored) ?_
  exact of_eq rfl rfl ⟨rfl, rfl, rfl⟩ rfl rfl rfl ⟨rfl, rfl⟩ rfl rfl ⟨rfl, rfl⟩

/-- Without a store the packet can change on its own. -/
theorem shorten (p : OutPtr) (left : ℕ) (hstore : e.cfg.store = false) :
    Quiet e (shorten e p left) := by
  refine setOut e p _ ⟨rfl, rfl, rfl, rfl, rfl, rfl, rfl, rfl, rfl, rfl, fun _ => rfl, ?_⟩ Or.inl
  intro hcon
  rw [hstore] at hcon
  cases hcon

/-- INTERNAL: So is keeping the broker's answer. -/
theorem setReason (p : OutPtr) (rc : ReasonCode) (refused : Option PubErr)
    (hlive : (e.outs p).finished = false) : Quiet e (setReason e p rc refused) := by
  unfold Program.setReason
  split
  · exact refl e
  · refine setOut e p _ ⟨rfl, rfl, rfl, rfl, rfl, rfl, rfl, rfl, rfl, rfl, ?_, fun _ => rfl⟩ Or.inl
    intro hcon
    rw [hlive] at hcon
    cases hcon

end Quiet

/-- What the steps before its record is written again leave of a live flow. -/
structure Rewritten (e d : Engine) (p : OutPtr) (id : PacketID) : Prop where
  touches : Touches e d p id
  queues : d.queues (outKey id) = e.queues (outKey id)
  finished : (d.outs p).finished = (e.outs p).finished
  settling : (d.outs p).settling = (e.outs p).settling
  adopted : (d.outs p).adopted = (e.outs p).adopted
  settle : (d.outs p).settle = (e.outs p).settle
  ref : (d.outs p).ref = (e.outs p).ref
  pubSeq : (d.outs p).pubSeq = (e.outs p).pubSeq
  sent : (d.outs p).attempted = true → (e.outs p).attempted = true
  phase : (e.outs p).phase ≠ .completed → (d.outs p).phase ≠ .completed
  place : (d.outs p).phase = .awaitPubcomp → (d.outs p).seq = e.nextSeq ∧ e.nextSeq < d.nextSeq
  nextSeq : e.nextSeq ≤ d.nextSeq
  out : d.out = e.out
  orphans : d.orphans = e.orphans
  writes : d.writes = e.writes
  refs : d.refs = e.refs
  dropped : d.dropped = e.dropped

/-- INTERNAL: The rewrite of a flow has not queued its Put yet. -/
theorem Rewritten.queues_eq (h : Rewritten e d p id) : d.queues = e.queues := by
  funext k
  by_cases hk : k = outKey id
  · rw [hk, h.queues]
  · exact h.touches.queues k hk

/-- INTERNAL: The end of a flow has queued nothing yet. -/
theorem Ended.queues_eq (h : Ended e d p id) : d.queues = e.queues := by
  funext k
  by_cases hk : k = outKey id
  · rw [hk, h.queues]
  · exact h.touches.queues k hk

/-- A change of the flow alone. -/
theorem Rewritten.setOut (e : Engine) (p : OutPtr) (id : PacketID) (f : Out → Out)
    (hid : (f (e.outs p)).id = (e.outs p).id)
    (hflags : (f (e.outs p)).finished = (e.outs p).finished ∧
      (f (e.outs p)).settling = (e.outs p).settling ∧
      (f (e.outs p)).adopted = (e.outs p).adopted ∧ (f (e.outs p)).settle = (e.outs p).settle ∧
      (f (e.outs p)).ref = (e.outs p).ref ∧ (f (e.outs p)).pubSeq = (e.outs p).pubSeq)
    (hsent : (f (e.outs p)).attempted = true → (e.outs p).attempted = true)
    (hphase : (e.outs p).phase ≠ .completed → (f (e.outs p)).phase ≠ .completed)
    (hplace : (f (e.outs p)).phase ≠ .awaitPubcomp) : Rewritten e (setOut e p f) p id := by
  obtain ⟨hfin, hset, had, hsettle, href, hseq⟩ := hflags
  have hself : (Program.setOut e p f).outs p = f (e.outs p) := by simp [Program.setOut]
  refine ⟨Touches.setOut e p id f hid href (fun h => hfin.trans h), rfl, ?_, ?_, ?_, ?_, ?_, ?_,
    ?_, ?_, ?_, le_rfl, rfl, rfl, rfl, rfl, rfl⟩
  all_goals rw [hself]
  all_goals first | assumption | exact fun h => absurd h hplace

/-- A flow of the session, under its identifier. -/
structure LiveFlow (e : Engine) (p : OutPtr) (id : PacketID) : Prop where
  get : e.out.get id = some p
  live : (e.outs p).finished = false
  id_eq : (e.outs p).id = id

/-- INTERNAL: A flow on a list lives. -/
theorem liveFlow_of_listed (ho : (sendQueue e).Ordered loose)
    (hp : p ∈ (sendQueue e).listed loose) :
    LiveFlow e p (e.outs p).id := by
  have hlive := (ho.mem p).mp hp
  exact ⟨(ho.get _ p).mpr ⟨hlive, rfl⟩, hlive.2, rfl⟩

/-- INTERNAL: The flow at an identifier lives. -/
theorem liveFlow_of_get (ho : (sendQueue e).Ordered loose) (hget : e.out.get id = some p) :
    LiveFlow e p id :=
  ⟨hget, (ho.live_of_get hget).2, ho.id_of_get hget⟩

/-- INTERNAL: A quiet step kills no flow. -/
theorem LiveFlow.quiet {e' : Engine} (h : LiveFlow e p id) (hq : Quiet e e') : LiveFlow e' p id :=
  ⟨by rw [hq.out]; exact h.get, by rw [(hq.outs p).finished]; exact h.live,
    by rw [(hq.outs p).id]; exact h.id_eq⟩

/-- An invariant of the outbound flows. -/
structure FlowRule (I : Engine → Prop) : Prop where
  quiet : ∀ e e', I e → Quiet e e' → I e'
  retire : ∀ e d p id, I e → e.failure = none → LiveFlow e p id → Ended e d p id →
    I (retireLocked d p)
  rewrite : ∀ e d p id, I e → e.failure = none → LiveFlow e p id → Rewritten e d p id →
    I (putOutLocked d p)

/-- An invariant of the outbound flows as long as no PUBREC is applied: no flow goes over to the
PUBREC order. -/
structure PubRule (I : Engine → Prop) : Prop where
  quiet : ∀ e e', I e → Quiet e e' → I e'
  retire : ∀ e d p id, I e → e.failure = none → LiveFlow e p id → Ended e d p id →
    I (retireLocked d p)
  rewrite : ∀ e d p id, I e → e.failure = none → LiveFlow e p id → Rewritten e d p id →
    (d.outs p).phase ≠ .awaitPubcomp → I (putOutLocked d p)

/-- INTERNAL: What every operation on flows keeps is kept by those that apply no PUBREC. -/
theorem FlowRule.pubRule {I : Engine → Prop} (R : FlowRule I) : PubRule I :=
  ⟨R.quiet, R.retire, fun e d p id h hf hl hd _ => R.rewrite e d p id h hf hl hd⟩

/-- INTERNAL: Two invariants of the outbound flows are one. -/
theorem FlowRule.and {I J : Engine → Prop} (R : FlowRule I) (R' : FlowRule J) :
    FlowRule fun e => I e ∧ J e :=
  ⟨fun e e' h hq => ⟨R.quiet e e' h.1 hq, R'.quiet e e' h.2 hq⟩,
    fun e d p id h hf hl hd => ⟨R.retire e d p id h.1 hf hl hd, R'.retire e d p id h.2 hf hl hd⟩,
    fun e d p id h hf hl hd => ⟨R.rewrite e d p id h.1 hf hl hd, R'.rewrite e d p id h.2 hf hl hd⟩⟩

namespace PubRule

variable {I : Engine → Prop} {e : Engine} {p : OutPtr} {id : PacketID}

section

variable (R : PubRule I)
include R

/-- INTERNAL: A flow ends. -/
theorem endFlow (h : I e) (hf : e.failure = none) (hl : LiveFlow e p id)
    (err : Option PubErr) : I (endFlow e p err) :=
  R.retire e _ p id h hf hl
    (Ended.finishLocked (Touches.unlinkLocked e p id) rfl rfl rfl rfl rfl ⟨rfl, rfl⟩ hl.id_eq err)

/-- INTERNAL: A flow ends on the broker's answer. -/
theorem endAcked (h : I e) (hf : e.failure = none) (hl : LiveFlow e p id)
    (err : Option PubErr) : I (endAcked e p err) :=
  R.retire e _ p id h hf hl
    (Ended.finishLocked (Touches.unlinkLocked e p id) rfl rfl rfl rfl rfl
      ⟨rfl, rfl⟩ hl.id_eq err).creditLocked

/-- The end of a flow on an answer that may be a refusal. -/
theorem refused (h : I e) (hf : e.failure = none) (hl : LiveFlow e p id)
    (rc : ReasonCode) (r : Option PubErr) : I (Program.endAcked (setReason e p rc r) p r) := by
  have hq := Quiet.setReason e p rc r hl.live
  exact R.endAcked (R.quiet _ _ h hq) (hq.failure.trans hf) (hl.quiet hq) r

end

/-! ### The producers and the broker's answers -/

section Operations

variable (R : PubRule I) (h : I e) (ho : (sendQueue e).Ordered [])
include R h ho

/-- INTERNAL: `Withdraw`. -/
theorem withdraw (hf : e.failure = none) (hp : p < e.nextOut) : I (withdraw e p).1 := by
  unfold Program.withdraw
  split
  · exact h
  · rename_i hcond
    have hfin : (e.outs p).finished = false := by
      by_contra hcon
      exact hcond (.inl (by simpa using hcon))
    exact R.endFlow h hf (liveFlow_of_listed ho ((ho.mem p).mpr ⟨hp, hfin⟩)) _

/-- INTERNAL: A PUBACK. -/
theorem handlePuback (id : PacketID) (rc : ReasonCode) (r : Option PubErr) :
    I (handlePuback e id rc r) := by
  unfold Program.handlePuback
  split
  · exact h
  · rename_i hfail
    split
    · exact h
    · rename_i p hget
      split
      · exact h
      · exact R.refused h (by simpa using hfail) (liveFlow_of_get ho hget) rc r

/-- INTERNAL: A PUBCOMP. -/
theorem handlePubcomp (id : PacketID) : I (handlePubcomp e id) := by
  unfold Program.handlePubcomp
  split
  · exact h
  · rename_i hfail
    split
    · exact h
    · rename_i p hget
      split
      · exact h
      · exact R.endAcked h (by simpa using hfail) (liveFlow_of_get ho hget) none

end Operations

/-! ### Connections -/

section

variable (R : PubRule I) (h : I e)
include R h

section

variable (hf : e.failure = none)
include hf

/-- INTERNAL: A flow of a lost session. -/
theorem loseFlow (hl : LiveFlow e p id) (now : Time) :
    I (loseFlow now e p) := by
  unfold Program.loseFlow
  split
  · exact R.retire e _ p id h hf hl
      (Ended.finishLocked (Touches.refl e p id) rfl rfl rfl rfl rfl ⟨rfl, rfl⟩ hl.id_eq _)
  · have hset : Rewritten e (setOut e p fun o => asNew o now) p id := by
      refine Rewritten.setOut e p id (fun o => asNew o now) ?_ ?_ ?_ ?_ ?_
      · unfold asNew
        simp only
        split <;> rfl
      · unfold asNew
        simp only
        split <;> exact ⟨rfl, rfl, rfl, rfl, rfl, rfl⟩
      · unfold asNew
        simp only
        split <;> simp
      · intro _
        unfold asNew
        simp only
        split <;> split <;> simp
      · unfold asNew
        simp only
        split <;> split <;> simp
    have hphase : (asNew (e.outs p) now).phase ≠ .awaitPubcomp := by
      unfold asNew
      simp only
      split <;> split <;> simp
    have ht := hset.touches
    refine R.rewrite e _ p id h hf hl ?_ (by simpa [setOut] using hphase)
    exact ⟨⟨ht.ids, ht.stuck, ht.statics, ht.nextOut, ht.outs, ht.id_eq, ht.ref_eq, ht.finished,
      ht.queues, ht.out, ht.orphans⟩, hset.queues, hset.finished, hset.settling, hset.adopted,
      hset.settle, hset.ref, hset.pubSeq, hset.sent, hset.phase, hset.place, hset.nextSeq, hset.out,
      hset.orphans, hset.writes, hset.refs, hset.dropped⟩

/-- INTERNAL: All flows of a lost session. -/
theorem foldl_loseFlow (now : Time) {flows : List OutPtr}
    (hlose : Losing e flows) : I (flows.foldl (Program.loseFlow now) e) := by
  induction flows generalizing e with
  | nil => exact h
  | cons p rest ih =>
    have hl := liveFlow_of_listed (p := p) hlose.ordered (by simp [SendQueue.listed])
    refine ih (R.loseFlow h hf hl now) ?_ (hlose.loseFlow now)
    exact (same_failure (Acts.loseFlow p rfl).statics).trans hf

/-- INTERNAL: The loss of the session. -/
theorem sessionLostLocked (now : Time) (ho : (sendQueue e).Ordered [])
    (hm : (sendQueue e).Metered [] []) : I (sessionLostLocked e now) := by
  unfold Program.sessionLostLocked
  have hin : sendQueue (clearIn (e.inn.toList.foldl loseIn e)) = sendQueue e :=
    (Inward.lose e).sendQueue
  have hq := Quiet.of_inward (Inward.lose e)
  generalize clearIn (e.inn.toList.foldl loseIn e) = d at hin hq ⊢
  have hlose := Losing.drainFlowsLocked (e := d) (hin ▸ ho) (hin ▸ hm)
  exact R.foldl_loseFlow (R.quiet _ _ (R.quiet _ _ h hq) (Quiet.drainFlowsLocked d))
    (hq.failure.trans hf) now hlose

/-- INTERNAL: A limit of the broker, for one flow. -/
theorem enforceLimit (hl : LiveFlow e p id) (l : Limits) (fresh : Bool) :
    I (enforceLimit l fresh e p) := by
  unfold Program.enforceLimit
  split
  · exact h
  · split
    · exact R.endFlow h hf hl _
    · split
      · exact R.rewrite e _ p id h hf hl (Rewritten.setOut e p id downgraded rfl
          ⟨rfl, rfl, rfl, rfl, rfl, rfl⟩ (fun h => h) (fun _ => by simp [downgraded])
          (by simp [downgraded])) (by simp [setOut, downgraded])
      · exact h

/-- INTERNAL: For the flows of a list. -/
theorem foldl_enforceLimit (l : Limits) (fresh : Bool) {flows : List OutPtr}
    (hlimit : Limiting e flows) : I (flows.foldl (Program.enforceLimit l fresh) e) := by
  induction flows generalizing e with
  | nil => exact h
  | cons p rest ih =>
    have hp : p ∈ e.pub := hlimit.sub p (by simp)
    have hl := liveFlow_of_listed (p := p) hlimit.ordered (by simp [SendQueue.listed, hp])
    refine ih (R.enforceLimit h hf hl l fresh) ?_ (hlimit.enforceLimit l fresh)
    exact (same_failure
      (Acts.enforceLimit (G := fun _ _ => True) p (fun _ => trivial) l fresh e).statics).trans hf

/-- INTERNAL: The limits of the broker. -/
theorem limitLocked (ci : ConnInfo) (ho : (sendQueue e).Ordered [])
    (hm : (sendQueue e).Metered [] []) : I (limitLocked e ci) := by
  unfold Program.limitLocked
  split
  · exact h
  · exact R.foldl_enforceLimit h hf _ _ ⟨ho, hm, ho.pub_nodup, fun _ hp => hp⟩

end

/-- INTERNAL: A connection. -/
theorem connected (ho : (sendQueue e).Ordered []) (ci : ConnInfo) (now : Time) :
    I (connected e ci now) := by
  unfold Program.connected
  split
  · exact h
  · rename_i hfail
    have hf : e.failure = none := by simpa using hfail
    have hq := Quiet.bindLocked e ci
    have hbind := R.quiet _ _ h hq
    have hsend := bindLocked_send e ci ho
    have hfb := hq.failure.trans hf
    simp only
    refine R.quiet _ _ ?_ (Quiet.rewindLocked _ ci)
    split
    · exact R.limitLocked (R.quiet _ _ hbind (Quiet.resumeLocked _)) hfb ci hsend.1 hsend.2
    · have hlost := sessionLostLocked_send _ now hsend.1 hsend.2
      refine R.limitLocked (R.sessionLostLocked hbind hfb now hsend.1 hsend.2) ?_ ci hlost.1 hlost.2
      exact (same_failure (statics_sessionLostLocked _ now)).trans hfb

/-! ### Collect -/

/-- INTERNAL: The PUBLISHes of a `Collect`. -/
theorem collectLoop (hf : e.failure = none) (now : Time) (fuel sent : ℕ)
    (hs : (sendQueue e).Steady) :
    I (collectLoop now fuel sent e).1 := by
  induction fuel generalizing sent e with
  | zero => exact h
  | succ fuel ih =>
    unfold Program.collectLoop
    split
    · exact h
    · rename_i p hc
      have hpub : p ∈ e.pub := hs.cursor_mem hc
      have hl := liveFlow_of_listed (p := p) hs.ordered (by simp [SendQueue.listed, hpub])
      have hsend : ∀ d : Engine, I d → Quiet e d → sendQueue d = sendQueue e →
          e.queues (outKey (e.outs p).id) = [] →
          I (Program.collectLoop now fuel (sent + 1) (Program.handOut d p)).1 := by
        intro d hd hq heq hstored
        have hstored' : d.queues (outKey (d.outs p).id) = [] := by
          rw [(hq.outs p).id, hq.queues]
          exact hstored
        refine ih (R.quiet _ _ hd (Quiet.handOut d p hstored')) (hq.failure.trans hf) (sent + 1) ?_
        rw [sendQueue_handOut, heq]
        exact hs.handOut hc
      simp only
      split
      · exact h
      · split
        · exact h
        · rename_i hwait
          have hstored : e.queues (outKey (e.outs p).id) = [] := by
            by_contra hcon
            exact hwait (.inr (.inl (by simp [storedLocked, hcon])))
          split
          · refine ih (R.endFlow h hf hl _) ?_ sent ?_
            · exact (same_failure (Acts.endFlow e p _).statics).trans hf
            · rw [sendQueue_endFlow]
              exact hs.finish (.inl hpub)
          · split
            · exact hsend e h (Quiet.refl e) rfl hstored
            · rename_i left _
              split
              · have hphase := phase_ne_of_pub hs.ordered hpub
                refine R.rewrite e _ p _ h hf hl ?_ (by simpa [shorten, setOut] using hphase)
                exact Rewritten.setOut e p _
                  (fun o => { o with expiry := left, packet := withMessageExpiry o.packet left })
                  rfl ⟨rfl, rfl, rfl, rfl, rfl, rfl⟩ (fun h => h) (fun hne => hne) hphase
              · rename_i hstore
                have hq := Quiet.shorten e p left (by simpa using hstore)
                exact hsend _ (R.quiet _ _ h hq) hq (sendQueue_shorten e p left) hstored

/-- INTERNAL: `Collect`. -/
theorem collect (gen upTo : ℕ) (now : Time) (hs : (sendQueue e).Steady) :
    I (collect e gen upTo now).1 := by
  by_cases hserves : servesLocked e gen = true
  · have hf : e.failure = none := by
      unfold servesLocked at hserves
      simp only [decide_eq_true_eq] at hserves
      exact hserves.2.2
    unfold Program.collect
    rw [if_neg (by simp [hserves])]
    simp only
    have hmark : Quiet e { e with released := max e.released upTo } :=
      Quiet.of_eq rfl rfl ⟨rfl, rfl, rfl⟩ rfl rfl rfl ⟨rfl, rfl⟩ rfl rfl ⟨rfl, rfl⟩
    have hq : Quiet e (collectControlLocked { e with released := max e.released upTo }).1 :=
      hmark.trans (.of_inward (Inward.collectControlLoop _ e.ctrl))
    refine R.collectLoop (R.quiet _ _ h hq) (hq.failure.trans hf) now _ _ ?_
    rw [collectControlLocked, (Inward.collectControlLoop _ _).sendQueue]
    exact hs
  · rw [collect_of_not_serves e gen upTo now (by simpa using hserves)]
    exact h

end

end PubRule

/-- INTERNAL: What a PUBREC does: it leaves the flows alone, ends one that the broker refused, or
takes one over to the PUBREC order, with the next sequence number. -/
theorem handlePubrec_cases {e : Engine} (ho : (sendQueue e).Ordered []) (id : PacketID)
    (rc : ReasonCode) (r : Option PubErr) :
    Quiet e (handlePubrec e id rc r) ∨
    ∃ p, e.failure = none ∧ LiveFlow e p id ∧
      (handlePubrec e id rc r = endAcked (setReason e p rc r) p r ∨
        (e.outs p).phase ≠ .awaitPubcomp ∧ ∃ d, Rewritten e d p id ∧
          (d.outs p).phase = .awaitPubcomp ∧ handlePubrec e id rc r = putOutLocked d p) := by
  unfold handlePubrec
  split
  · exact .inl (Quiet.refl e)
  · rename_i hfail
    split
    · exact .inl (Quiet.pushCtrlLocked e _ _ _ _ _ _)
    · rename_i p hget
      have hl := liveFlow_of_get ho hget
      split
      · exact .inl (Quiet.refl e)
      · split
        · exact .inl (Quiet.pushCtrlLocked e _ _ _ _ _ _)
        · rename_i hphase
          refine .inr ⟨p, by simpa using hfail, hl, ?_⟩
          split
          · exact .inl rfl
          · have hself : (setOut (unlinkLocked e p) p fun o =>
                { o with phase := .awaitPubcomp, seq := (unlinkLocked e p).nextSeq }).outs p =
                { e.outs p with phase := .awaitPubcomp, seq := e.nextSeq } := by
              simp [setOut, unlinkLocked]
            refine .inr ⟨hphase, pushCtrlLocked
              { setOut (unlinkLocked e p) p fun o =>
                  { o with phase := .awaitPubcomp, seq := (unlinkLocked e p).nextSeq } with
                nextSeq := (unlinkLocked e p).nextSeq + 1
                rel := (unlinkLocked e p).rel ++ [p] }
              .PUBREL id .success true none (some (.out p)), ?_, congrArg Out.phase hself, rfl⟩
            refine ⟨?_, rfl, ?_, ?_, ?_, ?_, ?_, ?_, fun h => ?_, ?_, ?_, Nat.le_succ _, rfl, rfl,
              rfl,
              rfl, rfl⟩
            · have ht := (Touches.unlinkLocked e p id).trans (Touches.setOut (unlinkLocked e p) p id
                (fun o => { o with phase := .awaitPubcomp, seq := (unlinkLocked e p).nextSeq })
                rfl rfl (fun h => h))
              exact ⟨ht.ids, ht.stuck, ht.statics, ht.nextOut, ht.outs, ht.id_eq, ht.ref_eq,
                ht.finished, ht.queues, ht.out, ht.orphans⟩
            all_goals simp only [pushCtrlLocked, hself] at *
            · exact h
            · intro _ hcon
              cases hcon
            · intro _
              exact ⟨trivial, Nat.lt_succ_self _⟩

/-- INTERNAL: A PUBREC keeps what every operation on flows keeps. -/
theorem FlowRule.handlePubrec {I : Engine → Prop} {e : Engine} (R : FlowRule I) (h : I e)
    (ho : (sendQueue e).Ordered []) (id : PacketID) (rc : ReasonCode) (r : Option PubErr) :
    I (handlePubrec e id rc r) := by
  rcases handlePubrec_cases ho id rc r with hq | ⟨p, hf, hl, heq | ⟨-, d, hd, -, heq⟩⟩
  · exact R.quiet _ _ h hq
  · rw [heq]
    exact R.pubRule.refused h hf hl rc r
  · rw [heq]
    exact R.rewrite e d p id h hf hl hd

/-! ### The writes the operations add -/

section Adds

variable (e : Engine) (p : OutPtr)

/-- A Put of a flow's record. -/
theorem later_putOut (e : Engine) (p : OutPtr) : Later e.epoch (outKey (e.outs p).id)
    ⟨.putOut (record (e.outs p)), .out p, e.epoch, .queued⟩ := by
  refine ⟨⟨rfl, rfl, by simp [isOutbound, outKey], ?_⟩, rfl⟩
  intro r hr
  cases hr
  rfl

/-- INTERNAL: A Put of the record is a later write. -/
theorem adds_putOutLocked : Adds (Later e.epoch) e (putOutLocked e p) := by
  unfold putOutLocked
  split
  · exact Adds.queueLocked e _ _ _ (later_putOut e p)
  · exact Adds.of_eq rfl rfl

/-- INTERNAL: A settlement closes the record. -/
theorem adds_settleLocked : Adds (Closing e.epoch) e (settleLocked e p) :=
  Adds.queueLocked (setOut e p fun o => { o with settling := true }) _ _ _
    ⟨⟨⟨rfl, rfl, by simp [isOutbound, outKey], fun _ hr => by cases hr⟩, rfl⟩,
      fun _ hr => by cases hr⟩

/-- INTERNAL: So does a completion. -/
theorem adds_completeLocked : Adds (Closing e.epoch) e (completeLocked e p) := by
  unfold completeLocked
  split
  · exact Adds.of_eq rfl rfl
  · split
    · exact Adds.of_eq rfl rfl
    · rename_i c _
      unfold putOutLocked
      split
      · refine Adds.queueLocked (setOut e p _) _ _ _ ⟨later_putOut (setOut e p _) p, ?_⟩
        intro r hr
        cases hr
        simp [record, setOut]
      · exact Adds.of_eq rfl rfl

/-- INTERNAL: The release of an identifier writes nothing else. -/
theorem adds_releaseLocked (id : PacketID) (o : Owner) :
    Adds (Closing e.epoch) e (releaseLocked e id o) := by
  obtain ⟨ids, stuck, heq⟩ := releaseLocked_eq e id o
  rw [heq]
  exact Adds.of_eq rfl rfl

/-- INTERNAL: The end of a flow closes its record. -/
theorem adds_retireLocked : Adds (Closing e.epoch) e (retireLocked e p) := by
  unfold retireLocked
  simp only
  split
  · split
    · exact adds_completeLocked { e with orphans := e.orphans.set (e.outs p).ref p } p
    · exact adds_settleLocked { e with orphans := e.orphans.set (e.outs p).ref p } p
  · split
    · exact adds_releaseLocked e _ _
    · exact adds_settleLocked e p

/-- An operation on the flows of `e` adds writes to its queues, and no more. -/
theorem adds_flowRule (e₀ : Engine) :
    FlowRule fun e => e.epoch = e₀.epoch ∧ Adds (Later e₀.epoch) e₀ e := by
  refine ⟨?_, ?_, ?_⟩
  · intro e e' h hq
    refine ⟨hq.epoch.trans h.1, h.2.trans ?_⟩
    rw [← h.1]
    exact hq.jobs.mono fun k j hj => hj.2
  · intro e d p id h _ _ hd
    have hepoch : d.epoch = e₀.epoch := (same_epoch hd.touches.statics).trans h.1
    refine ⟨(same_epoch (Acts.retireLocked d p).statics).trans hepoch, ?_⟩
    refine (h.2.trans (Adds.of_eq hd.queues_eq hd.writes)).trans ?_
    rw [← hepoch]
    exact (adds_retireLocked d p).mono fun _ _ hj => hj.1
  · intro e d p id h _ _ hd
    have hepoch : d.epoch = e₀.epoch := (same_epoch hd.touches.statics).trans h.1
    refine ⟨(same_epoch (Acts.putOutLocked d p).statics).trans hepoch, ?_⟩
    refine (h.2.trans (Adds.of_eq hd.queues_eq hd.writes)).trans ?_
    rw [← hepoch]
    exact adds_putOutLocked d p

/-- INTERNAL: `Register` queues the first Put. -/
theorem adds_register (m : Message) (now : Time) :
    Adds (Fresh e.epoch) e (register e m now).1 := by
  unfold register
  split
  · exact (adds_releaseLocked e _ _).mono fun _ _ hj => hj.1.1
  · simp only
    split
    · refine (Adds.of_eq rfl rfl).trans
        (Adds.queueLocked _ _ _ _ ⟨rfl, rfl, by simp [isOutbound, outKey], ?_⟩)
      intro r hr
      cases hr
      rfl
    · exact Adds.of_eq rfl rfl

/-- INTERNAL: `Adopt` closes the record. -/
theorem adds_adopt (ref : Bytes) (f : SettleFn) : Adds (Closing e.epoch) e (adopt e ref f).1 := by
  unfold adopt
  split
  · exact Adds.of_eq rfl rfl
  · split
    · exact Adds.of_eq rfl rfl
    · simp only
      split
      · exact Adds.of_eq rfl rfl
      · exact adds_settleLocked (setOut e _ _) _

/-- INTERNAL: Giving up closes the record. -/
theorem adds_giveUp : Adds (Closing e.epoch) e (giveUp e p) := by
  unfold giveUp
  simp only
  split
  · exact adds_releaseLocked { e with orphans := e.orphans.del (e.outs p).ref } _ _
  · exact adds_releaseLocked e _ _

/-- INTERNAL: So does what follows a settlement. -/
theorem adds_settleAfter (failed : Bool) : Adds (Closing e.epoch) e (settleAfter e p failed) := by
  unfold settleAfter
  have hcomplete : Adds (Closing e.epoch) e (if failed then completeLocked e p else e) := by
    split
    · exact adds_completeLocked e p
    · exact Adds.of_eq rfl rfl
  have hepoch : (if failed then completeLocked e p else e).epoch = e.epoch := by
    split
    · exact same_epoch (Acts.completeLocked e p).statics
    · rfl
  generalize (if failed then completeLocked e p else e) = d at hcomplete hepoch ⊢
  simp only
  refine hcomplete.trans ?_
  rw [← hepoch]
  split
  · exact adds_settleLocked (setOut d p fun o => { o with adopted := false }) p
  · split
    · exact Adds.of_eq rfl rfl
    · exact adds_giveUp d p

end Adds

end Mqttv5.Analysis
