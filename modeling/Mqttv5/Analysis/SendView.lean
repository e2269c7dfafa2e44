import Mqttv5.Interface.SendCursor
import Mqttv5.Interface.SendQuota
import Mqttv5.Model.Run

/-!
# The engine's send queue

`sendQueue e` is the send queue the engine implements. Every function of the engine that
touches an outbound flow is one of the send queue's operations, or leaves it alone: the
retirement of a flow that has ended, the store writes and all of the inbound half do not
show.
-/

set_option autoImplicit false

namespace Mqttv5.Analysis

open Model Program Interface

/-- The flow a heap cell stands for. -/
def flowOf (o : Out) : Flow :=
  { id := o.id
    qos := o.qos
    seq := o.seq
    pubSeq := o.pubSeq
    ref := o.ref
    waiting := !o.finished && o.phase = .awaitPubcomp
    attempted := o.attempted
    counted := o.counted
    finished := o.finished }

def sendQueue (e : Engine) : SendQueue :=
  { flows := fun p => flowOf (e.outs p)
    size := e.nextOut
    out := e.out
    refs := e.refs
    pub := e.pub
    rel := e.rel
    nextSeq := e.nextSeq
    cursor := e.cursor
    quota := e.quota
    quotaMax := e.quotaMax }

variable (e : Engine) (p : OutPtr)

@[simp]
theorem sendQueue_pub : (sendQueue e).pub = e.pub := rfl

@[simp]
theorem sendQueue_rel : (sendQueue e).rel = e.rel := rfl

@[simp]
theorem sendQueue_flows : (sendQueue e).flows p = flowOf (e.outs p) := rfl

/-- INTERNAL: A change of one flow, seen in the send queue. -/
theorem flowOf_setOut (f : Out → Out) :
    (fun q => flowOf ((setOut e p f).outs q)) =
      Function.update (fun q => flowOf (e.outs q)) p (flowOf (f (e.outs p))) := by
  funext q
  by_cases hq : q = p
  · subst hq
    simp [setOut]
  · simp [setOut, hq]

/-- INTERNAL: A change of one flow is one of the send queue. -/
theorem sendQueue_setOut (f : Out → Out) (g : Flow → Flow)
    (h : flowOf (f (e.outs p)) = g (flowOf (e.outs p))) :
    sendQueue (setOut e p f) = (sendQueue e).setFlow p g := by
  simp only [sendQueue, SendQueue.setFlow, ← h, ← flowOf_setOut]
  rfl

/-- INTERNAL: A change that the send queue does not see. -/
theorem sendQueue_setOut_same (f : Out → Out) (h : flowOf (f (e.outs p)) = flowOf (e.outs p)) :
    sendQueue (setOut e p f) = sendQueue e := by
  rw [sendQueue_setOut e p f id h, SendQueue.setFlow_id]

@[simp]
theorem sendQueue_queueLocked (k : RecordKey) (o : FlowPtr) (j : JobKind) :
    sendQueue (queueLocked e k o j) = sendQueue e := rfl

/-- INTERNAL: A control packet is none of its business. -/
@[simp]
theorem sendQueue_pushCtrlLocked (t : PacketType) (id : PacketID) (rc : ReasonCode) (g : Bool)
    (h : Option InPtr) (src : Option FlowPtr) :
    sendQueue (pushCtrlLocked e t id rc g h src) = sendQueue e := rfl

/-- INTERNAL: A Put changes no place. -/
@[simp]
theorem sendQueue_putOutLocked : sendQueue (putOutLocked e p) = sendQueue e := by
  unfold putOutLocked
  split <;> rfl

/-- INTERNAL: Nor does the release of an identifier. -/
@[simp]
theorem sendQueue_releaseLocked (id : PacketID) (o : Owner) :
    sendQueue (releaseLocked e id o) = sendQueue e := by
  unfold releaseLocked
  split <;> rfl

/-- INTERNAL: A completed flow was on no list. -/
theorem sendQueue_completeLocked (h : (e.outs p).finished = true) :
    sendQueue (completeLocked e p) = sendQueue e := by
  unfold completeLocked
  split
  · rfl
  · split
    · rfl
    · rw [sendQueue_putOutLocked]
      exact sendQueue_setOut_same e p _ (by simp [flowOf, h])

/-- INTERNAL: A settlement changes no place. -/
@[simp]
theorem sendQueue_settleLocked : sendQueue (settleLocked e p) = sendQueue e := by
  unfold settleLocked
  simp only [sendQueue_queueLocked]
  exact sendQueue_setOut_same e p _ rfl

/-- Disposing of a finished flow does not show in the send queue. -/
theorem sendQueue_retireLocked (h : (e.outs p).finished = true) :
    sendQueue (retireLocked e p) = sendQueue e := by
  unfold retireLocked
  simp only
  split
  · split
    · exact sendQueue_completeLocked { e with orphans := e.orphans.set (e.outs p).ref p } p h
    · rw [sendQueue_settleLocked]
      rfl
  · split
    · exact sendQueue_releaseLocked e _ _
    · exact sendQueue_settleLocked e p

/-- INTERNAL: The end of a flow closes it. -/
theorem sendQueue_finishLocked (err : Option PubErr) :
    sendQueue (finishLocked e p err) = (sendQueue e).close p := by
  have hset := sendQueue_setOut { e with out := e.out.del (e.outs p).id } p
    (fun o => { o with finished := true, err := err, done := o.done + 1 })
    (fun f => { f with finished := true, waiting := false }) (by simp [flowOf])
  unfold finishLocked
  simp only
  split
  · rename_i href
    rw [SendQueue.close_ref _ _ href]
    exact congrArg (fun b : SendQueue => { b with refs := b.refs.del (e.outs p).ref }) hset
  · rename_i href
    rw [SendQueue.close_no_ref _ _ href]
    exact hset

/-- INTERNAL: A flow that ends is finished. -/
theorem finishLocked_finished (err : Option PubErr) :
    ((finishLocked e p err).outs p).finished = true := by
  unfold finishLocked
  simp only
  split <;> simp [setOut]

/-- INTERNAL: The quota that comes back. -/
theorem sendQueue_creditLocked : sendQueue (creditLocked e p) = (sendQueue e).credit p := by
  unfold creditLocked SendQueue.credit
  have hc : ((sendQueue e).flows p).counted = (e.outs p).counted := rfl
  rw [hc]
  split
  · have hset := sendQueue_setOut e p (fun o => { o with counted := false })
      (fun f => { f with counted := false }) rfl
    exact congrArg (fun b : SendQueue => { b with quota := (sendQueue e).quota + 1 }) hset
  · rfl

/-- INTERNAL: Quota that comes back revives nothing. -/
theorem creditLocked_finished (h : (e.outs p).finished = true) :
    ((creditLocked e p).outs p).finished = true := by
  unfold creditLocked
  split
  · simpa [setOut] using h
  · exact h

/-- INTERNAL: Quota comes back before the end or after it. -/
theorem close_credit (b : SendQueue) : (b.close p).credit p = (b.credit p).close p := by
  unfold SendQueue.credit
  have hc : ((b.close p).flows p).counted = (b.flows p).counted := by
    simp [SendQueue.close, SendQueue.setFlow]
  rw [hc]
  split
  · simp [SendQueue.close, SendQueue.setFlow]
  · rfl

/-- INTERNAL: The end of a flow. -/
theorem sendQueue_endFlow (err : Option PubErr) :
    sendQueue (endFlow e p err) = (sendQueue e).finish p := by
  unfold endFlow
  rw [sendQueue_retireLocked _ _ (finishLocked_finished _ _ _), sendQueue_finishLocked]
  rfl

/-- INTERNAL: The end of a flow on the broker's answer. -/
theorem sendQueue_endAcked (err : Option PubErr) :
    sendQueue (endAcked e p err) = (sendQueue e).acked p := by
  unfold endAcked
  rw [sendQueue_retireLocked _ _ (creditLocked_finished _ _ (finishLocked_finished _ _ _)),
    sendQueue_creditLocked, sendQueue_finishLocked, close_credit]
  rfl

/-- INTERNAL: A new flow goes to the end of the send order. -/
theorem sendQueue_register (m : Message) (now : Time) (h : e.failure = none) :
    sendQueue (register e m now).1 = (sendQueue e).add m.id m.qos m.ref := by
  have hflow : flowOf (newOut e m now) =
      ⟨m.id, m.qos, e.nextSeq, e.nextSeq, m.ref, false, false, false, false⟩ := by
    unfold newOut flowOf
    by_cases hq : m.qos = 2 <;> simp [hq]
  have hflows : (fun q => flowOf (Function.update e.outs e.nextOut (newOut e m now) q)) =
      Function.update (fun q => flowOf (e.outs q)) e.nextOut (flowOf (newOut e m now)) := by
    funext q
    by_cases hq : q = e.nextOut
    · subst hq
      simp
    · simp [hq]
  unfold register
  simp only [h, Option.isSome_none, Bool.false_eq_true, if_false]
  split <;> simp only [sendQueue, queueLocked, SendQueue.add, hflows, hflow] <;> rfl

/-- INTERNAL: A failed session takes no flow. -/
theorem sendQueue_register_failed (m : Message) (now : Time) (h : e.failure.isSome = true) :
    sendQueue (register e m now).1 = sendQueue e := by
  unfold register
  rw [if_pos h]
  exact sendQueue_releaseLocked e _ _

/-- INTERNAL: `Withdraw` ends a flow that was not handed out. -/
theorem sendQueue_withdraw : sendQueue (withdraw e p).1 = sendQueue e ∨
    (e.outs p).finished = false ∧ (e.outs p).attempted = false ∧
      sendQueue (withdraw e p).1 = (sendQueue e).finish p := by
  unfold withdraw
  split
  · exact .inl rfl
  · rename_i h
    rw [not_or, Bool.not_eq_true, Bool.not_eq_true] at h
    exact .inr ⟨h.1, h.2, sendQueue_endFlow e p _⟩

/-- INTERNAL: `Adopt` changes no place. -/
theorem sendQueue_adopt (ref : Bytes) (f : SettleFn) :
    sendQueue (adopt e ref f).1 = sendQueue e := by
  unfold adopt
  split
  · rename_i p _
    exact sendQueue_setOut_same e p (fun o => { o with settle := some f }) rfl
  · split
    · rfl
    · rename_i p _
      have hset : sendQueue (setOut e p fun o => { o with settle := some f }) = sendQueue e :=
        sendQueue_setOut_same e p _ rfl
      simp only
      split
      · rw [sendQueue_setOut_same _ _ _ rfl]
        exact hset
      · rw [sendQueue_settleLocked]
        exact hset

/-- INTERNAL: The broker's answer changes no place. -/
theorem sendQueue_setReason (rc : ReasonCode) (refused : Option PubErr) :
    sendQueue (setReason e p rc refused) = sendQueue e := by
  unfold setReason
  split
  · rfl
  · exact sendQueue_setOut_same e p _ rfl

/-- A PUBACK ends the flow it is for, or does nothing. -/
theorem sendQueue_handlePuback (id : PacketID) (rc : ReasonCode) (refused : Option PubErr) :
    sendQueue (handlePuback e id rc refused) = sendQueue e ∨
    ∃ p, e.failure = none ∧ e.out.get id = some p ∧
      sendQueue (handlePuback e id rc refused) = (sendQueue e).acked p := by
  unfold handlePuback
  split
  · exact .inl rfl
  · rename_i hf
    split
    · exact .inl rfl
    · rename_i p hp
      split
      · exact .inl rfl
      · refine Or.inr ⟨p, by simpa using hf, hp, ?_⟩
        rw [sendQueue_endAcked, sendQueue_setReason]

/-- A PUBREC moves the flow it is for to the PUBREC order, ends it, or does nothing. -/
theorem sendQueue_handlePubrec (id : PacketID) (rc : ReasonCode) (refused : Option PubErr)
    (hlive : ∀ p, e.out.get id = some p → (e.outs p).finished = false) :
    sendQueue (handlePubrec e id rc refused) = sendQueue e ∨
    ∃ p, e.failure = none ∧ e.out.get id = some p ∧ ((sendQueue e).flows p).waiting = false ∧
      (sendQueue (handlePubrec e id rc refused) = (sendQueue e).acked p ∨
       sendQueue (handlePubrec e id rc refused) = (sendQueue e).toRel p) := by
  unfold handlePubrec
  split
  · exact .inl rfl
  · rename_i hf
    have hf : e.failure = none := by simpa using hf
    split
    · exact .inl rfl
    · rename_i p hp
      have hfin := hlive p hp
      split
      · exact .inl rfl
      · split
        · exact .inl rfl
        · rename_i hphase
          have hw : ((sendQueue e).flows p).waiting = false := by
            simp [sendQueue, flowOf, hphase]
          split
          · refine Or.inr ⟨p, hf, hp, hw, .inl ?_⟩
            rw [sendQueue_endAcked, sendQueue_setReason]
          · refine Or.inr ⟨p, hf, hp, hw, .inr ?_⟩
            rw [sendQueue_putOutLocked, sendQueue_pushCtrlLocked]
            have hset := sendQueue_setOut (unlinkLocked e p) p
              (fun o => { o with phase := .awaitPubcomp, seq := (unlinkLocked e p).nextSeq })
              (fun f => { f with waiting := true, seq := ((sendQueue e).unlink p).nextSeq })
              (by simp [flowOf, unlinkLocked, hfin, sendQueue, SendQueue.unlink])
            exact congrArg (fun b : SendQueue =>
              { b with nextSeq := b.nextSeq + 1, rel := b.rel ++ [p] }) hset

/-- INTERNAL: A PUBCOMP ends the flow that waits for it. -/
theorem sendQueue_handlePubcomp (id : PacketID) :
    sendQueue (handlePubcomp e id) = sendQueue e ∨
    ∃ p, e.failure = none ∧ e.out.get id = some p ∧
      sendQueue (handlePubcomp e id) = (sendQueue e).acked p := by
  unfold handlePubcomp
  split
  · exact .inl rfl
  · rename_i hf
    split
    · exact .inl rfl
    · rename_i p hp
      split
      · exact .inl rfl
      · exact .inr ⟨p, by simpa using hf, hp, sendQueue_endAcked e p _⟩

/-! ## Connections -/

/-- INTERNAL: No flow holds a unit of a new connection's quota. -/
theorem foldl_clearCounted (l : List OutPtr) :
    l.foldl clearCounted e = { e with outs := fun q =>
      if q ∈ l then { e.outs q with counted := false } else e.outs q } := by
  induction l generalizing e with
  | nil => simp
  | cons p rest ih =>
    rw [List.foldl_cons, ih]
    simp only [clearCounted, setOut]
    congr 1
    funext q
    by_cases hq : q = p
    · subst hq
      simp
    · simp [hq]

/-- INTERNAL: A new connection. -/
theorem sendQueue_bindLocked (ci : ConnInfo) :
    sendQueue (bindLocked e ci) = (sendQueue e).bind
      (if ci.receiveMaximum = 0 then 65535 else ci.receiveMaximum) := by
  unfold bindLocked
  simp only [foldl_clearCounted]
  simp only [sendQueue, SendQueue.bind]
  congr 1
  funext q
  by_cases hq : q ∈ e.out.vals
  · simp [hq, flowOf]
  · simp [hq]

/-- INTERNAL: A flow to be sent again has its first place. -/
theorem flowOf_asNew (o : Out) (now : Time) : flowOf (asNew o now) =
    { flowOf o with waiting := false, seq := o.pubSeq, attempted := false } := by
  unfold asNew
  rcases he : o.expiresAt with _ | t <;> by_cases hq : o.qos = 2 <;> simp [flowOf, hq]

/-- A lost session ends a flow or sends it again as new. -/
theorem sendQueue_loseFlow (now : Time) :
    sendQueue (loseFlow now e p) = (sendQueue e).close p ∨
    sendQueue (loseFlow now e p) = (sendQueue e).requeue p := by
  unfold loseFlow
  split
  · left
    rw [sendQueue_retireLocked _ _ (finishLocked_finished _ _ _), sendQueue_finishLocked]
  · right
    rw [sendQueue_putOutLocked]
    exact congrArg (fun b : SendQueue => { b with pub := b.pub ++ [p] })
      (sendQueue_setOut e p (fun o => asNew o now)
        (fun f => { f with waiting := false, seq := f.pubSeq, attempted := false })
        (flowOf_asNew _ _))

/-- The broker's limits end a flow, change its QoS, or leave it. -/
theorem sendQueue_enforceLimit (l : Limits) (fresh : Bool)
    (hphase : (e.outs p).phase ≠ .awaitPubcomp) :
    sendQueue (enforceLimit l fresh e p) = sendQueue e ∨
    (fresh = true ∨ (e.outs p).attempted = false) ∧
      (sendQueue (enforceLimit l fresh e p) = (sendQueue e).finish p ∨
       sendQueue (enforceLimit l fresh e p) =
         (sendQueue e).setFlow p fun f => { f with qos := 1 }) := by
  unfold enforceLimit
  split
  · exact .inl rfl
  · rename_i hguard
    have hguard : fresh = true ∨ (e.outs p).attempted = false := by
      cases fresh <;> simp_all
    split
    · exact .inr ⟨hguard, .inl (sendQueue_endFlow e p _)⟩
    · split
      · refine Or.inr ⟨hguard, .inr ?_⟩
        rw [sendQueue_putOutLocked]
        exact sendQueue_setOut e p _ _ (by simp [flowOf, downgraded, hphase])
      · exact .inl rfl

/-- INTERNAL: The cursor goes back to the start. -/
theorem sendQueue_rewindLocked (ci : ConnInfo) :
    sendQueue (rewindLocked e ci) = (sendQueue e).rewind := rfl

/-- INTERNAL: A flow is handed out. -/
theorem sendQueue_handOut : sendQueue (handOut e p) = (sendQueue e).handOut p := by
  exact congrArg (fun b : SendQueue =>
      { b with quota := (sendQueue e).quota - 1, cursor := (sendQueue e).next p })
    (sendQueue_setOut e p (fun o => { o with attempted := true, counted := true })
      (fun f => { f with attempted := true, counted := true }) rfl)

/-- INTERNAL: A shorter interval changes no place. -/
theorem sendQueue_shorten (left : ℕ) : sendQueue (shorten e p left) = sendQueue e :=
  sendQueue_setOut_same e p _ rfl

/-! ## Store writes -/

/-- INTERNAL: Nor does the stage of a write. -/
theorem sendQueue_setStage (k : RecordKey) (st : Stage) :
    sendQueue (setStage e k st) = sendQueue e := by
  unfold setStage
  split <;> rfl

/-- INTERNAL: Nor does a write that is cancelled. -/
theorem sendQueue_cancelLocked (k : RecordKey) (o : FlowPtr) :
    sendQueue (cancelLocked e k o) = sendQueue e := by
  unfold cancelLocked
  split <;> rfl

/-- A failed first Put takes its flow out of the session. -/
theorem sendQueue_dropNew (err : ℕ) : sendQueue (dropNew e p err) = (sendQueue e).finish p := by
  unfold dropNew
  simp only [sendQueue_releaseLocked]
  rw [sendQueue_setOut _ p _ (fun f => { f with finished := true, waiting := false })
    (by simp [flowOf])]
  have hcancel := sendQueue_cancelLocked
    { e with putErr := Function.update e.putErr p (some ⟨"put outbound", err⟩) }
    (outKey (e.outs p).id) (.out p)
  have hclose : sendQueue { unlinkLocked (cancelLocked
        { e with putErr := Function.update e.putErr p (some ⟨"put outbound", err⟩) }
        (outKey (e.outs p).id) (.out p)) p with
      out := (cancelLocked
        { e with putErr := Function.update e.putErr p (some ⟨"put outbound", err⟩) }
        (outKey (e.outs p).id) (.out p)).out.del (e.outs p).id } =
      { (sendQueue e).unlink p with out := (sendQueue e).out.del ((sendQueue e).flows p).id } := by
    exact congrArg (fun b : SendQueue => { b.unlink p with out := b.out.del (e.outs p).id }) hcancel
  unfold SendQueue.finish
  split
  · rename_i href
    rw [SendQueue.close_ref _ _ href]
    exact congrArg (fun b : SendQueue => { b.setFlow p fun f =>
      { f with finished := true, waiting := false } with
      refs := b.refs.del (e.outs p).ref }) hclose
  · rename_i href
    rw [SendQueue.close_no_ref _ _ href]
    exact congrArg (fun b : SendQueue =>
      b.setFlow p fun f => { f with finished := true, waiting := false }) hclose

/-- INTERNAL: Nor does a settlement that is given up. -/
theorem sendQueue_giveUp : sendQueue (giveUp e p) = sendQueue e := by
  unfold giveUp
  simp only [sendQueue_releaseLocked]
  split <;> rfl

/-- INTERNAL: Nor does what follows a settlement. -/
theorem sendQueue_settleAfter (failed : Bool) (h : (e.outs p).finished = true) :
    sendQueue (settleAfter e p failed) = sendQueue e := by
  have hcomplete : sendQueue (if failed = true then completeLocked e p else e) = sendQueue e := by
    split
    · exact sendQueue_completeLocked e p h
    · rfl
  unfold settleAfter
  generalize (if failed = true then completeLocked e p else e) = d at hcomplete ⊢
  simp only
  split
  · rw [sendQueue_settleLocked, sendQueue_setOut_same _ _ _ rfl]
    exact hcomplete
  · split
    · rw [sendQueue_setOut_same _ _ _ rfl]
      exact hcomplete
    · rw [sendQueue_giveUp]
      exact hcomplete

/-- The end of a write shows in the send queue only when it is a failed first Put. -/
theorem sendQueue_afterJob (j : Job) (res : Option JobErr)
    (hfin : ∀ p f o r, j.kind = .settle f o r → j.owner = .out p → (e.outs p).finished = true) :
    sendQueue (afterJob e j res).1 = sendQueue e ∨
    ∃ p r, j.kind = .putNew r ∧ j.owner = .out p ∧ res ≠ none ∧
      sendQueue (afterJob e j res).1 = (sendQueue e).finish p := by
  rcases j with ⟨kind, owner, epoch, stage⟩
  simp only at hfin
  have hset : ∀ p, sendQueue (setOut e p fun o => { o with settling := false }) = sendQueue e :=
    fun p => sendQueue_setOut_same e p _ rfl
  have hafter : ∀ p failed, (e.outs p).finished = true →
      sendQueue (settleAfter (setOut e p fun o => { o with settling := false }) p failed) =
        sendQueue e := by
    intro p failed h
    rw [sendQueue_settleAfter _ _ _ (by simpa [setOut] using h), hset]
  unfold afterJob
  cases kind with
  | putNew r =>
    rcases owner with p | h <;> rcases res with _ | (err | err)
    · exact .inl rfl
    · exact .inr ⟨p, r, rfl, rfl, by simp, sendQueue_dropNew e p err⟩
    · exact .inr ⟨p, r, rfl, rfl, by simp, sendQueue_dropNew e p err⟩
    · exact .inl rfl
    · exact .inl rfl
    · exact .inl rfl
  | settle f o r =>
    left
    rcases owner with p | h <;> rcases res with _ | (err | err)
    · exact hafter p _ (hfin p f o r rfl rfl)
    · exact hset p
    · exact hafter p _ (hfin p f o r rfl rfl)
    · rfl
    · rfl
    · rfl
  | putOut r | putIn r | deleteIn => left; rcases res with _ | (err | err) <;> rfl

end Mqttv5.Analysis
