import Mqttv5.Analysis.Failure

/-!
# The engine's inbox

`inbox e` is the inbox the engine implements: its control queue without the PUBRELs. The
outbound half of the engine does not show in it.
-/

set_option autoImplicit false

namespace Mqttv5.Analysis

open Model Program Interface List

section Outbound

variable (e : Engine) (p : OutPtr)

/-- INTERNAL: `Register` leaves the inbox alone. -/
@[simp]
theorem inside_register (m : Message) (now : Time) : inside (register e m now).1 = inside e := by
  unfold register
  split
  · exact (Acts.releaseLocked e _ _).inside
  · simp only
    split
    · exact (Acts.queueLocked _ _ _ _).inside
    · rfl

/-- INTERNAL: A PUBREL is no acknowledgement of the inbox. -/
theorem inside_pushPubrel (id : PacketID) (rc : ReasonCode) (g : Bool) (h : Option InPtr)
    (src : Option FlowPtr) : inside (pushCtrlLocked e .PUBREL id rc g h src) =
      { inside e with ctrl := e.ctrl ++ [⟨.PUBREL, id, rc, g, h, src⟩] } := by
  simp [inside, inbox, pushCtrlLocked, acksOf]

/-- INTERNAL: An acknowledgement is queued. -/
theorem inbox_pushCtrl (c : CtrlFrame) (hc : c.typ ≠ .PUBREL) :
    inbox (pushCtrlLocked e c.typ c.id c.rc c.gated c.inn c.src) = (inbox e).push c := by
  simp [inbox, pushCtrlLocked, acksOf, Inbox.push, hc]

/-- A PUBREC is answered by a PUBREL at most. -/
theorem inside_handlePubrec (id : PacketID) (rc : ReasonCode) (refused : Option PubErr) :
    inside (handlePubrec e id rc refused) = inside e ∨
    ∃ rc' g src, inside (handlePubrec e id rc refused) =
      { inside e with ctrl := e.ctrl ++ [⟨.PUBREL, id, rc', g, none, src⟩] } := by
  unfold handlePubrec
  split
  · exact .inl rfl
  · split
    · exact .inr ⟨_, _, _, inside_pushPubrel e _ _ _ _ _⟩
    · rename_i p _
      split
      · exact .inl rfl
      · split
        · exact .inr ⟨_, _, _, inside_pushPubrel e _ _ _ _ _⟩
        · split
          · exact .inl ((Acts.setReason e _ rc refused).trans (.endAcked _ _ _)).inside
          · right
            refine ⟨.success, true, some (.out p), ?_⟩
            rw [(Acts.putOutLocked _ p).inside, inside_pushPubrel]
            rfl

end Outbound

section Inbound

variable (e : Engine)

/-- A PUBLISH is refused, is a duplicate answered or ignored, or is a new flow. -/
theorem inbox_receive (id : PacketID) (qos : ℕ) :
    (inbox (receive e id qos).1 = inbox e ∧ ∀ h, (receive e id qos).2 ≠ .deliver h) ∨
    (∃ h, e.inn.get id = some h ∧ (e.ins h).state = .awaitPubrel ∧ qos = 2 ∧
      (receive e id qos).2 = .ignored ∧
      inbox (receive e id qos).1 = (inbox e).push (pubrecOf id h)) ∨
    (e.failure = none ∧ e.inn.get id = none ∧ (receive e id qos).2 = .deliver e.nextIn ∧
      inbox (receive e id qos).1 = (inbox e).register id qos) := by
  unfold receive
  split
  · exact .inl ⟨rfl, by simp⟩
  · rename_i hf
    cases hget : e.inn.get id with
    | some h =>
      simp only
      split
      · rename_i hcond
        exact .inr (.inl ⟨h, rfl, hcond.1, hcond.2, rfl, inbox_pushCtrl e (pubrecOf id h)
          (by simp [pubrecOf])⟩)
      · exact .inl ⟨rfl, by simp⟩
    | none =>
      simp only
      split
      · exact .inl ⟨rfl, by simp⟩
      · refine Or.inr (.inr ⟨by simpa using hf, trivial, ?_, ?_⟩) <;> rfl

/-- INTERNAL: The first message in line is acknowledged. -/
theorem inbox_ackHead (h : InPtr) : inbox (ackHead e h) = (inbox e).ackHead h := by
  have hqos : ((inbox e).ins h).qos = (e.ins h).qos := rfl
  unfold ackHead Inbox.ackHead
  simp only [hqos]
  split
  · exact inbox_pushCtrl e (pubackOf (e.ins h).id h) (by simp [pubackOf])
  · have hpush := inbox_pushCtrl (setIn e h fun x => { x with state := .awaitPubrel })
      (pubrecOf (e.ins h).id h) (by simp [pubrecOf])
    split
    · exact hpush
    · exact hpush

/-- INTERNAL: All messages that are due are. -/
theorem inbox_ackLoop (l : List InPtr) : inbox (ackLoop l e) = Inbox.ackLoop l (inbox e) := by
  induction l generalizing e with
  | nil => rfl
  | cons h rest ih =>
    have hstate : ((inbox e).ins h).state = (e.ins h).state := rfl
    unfold ackLoop Inbox.ackLoop
    rw [hstate]
    split
    · rw [ih, inbox_ackHead]
    · rfl

/-- INTERNAL: `Ack` counts for a message that was delivered. -/
theorem inbox_ack (h : InPtr) : inbox (ack e h) = inbox e ∨
    (e.ins h).dead = false ∧ (e.ins h).state = .delivered ∧ inbox (ack e h) =
      Inbox.ackLoop e.fifo ((inbox e).setIn h fun x => { x with state := .acked }) := by
  unfold Program.ack
  split
  · exact .inl rfl
  · rename_i hcond
    rw [not_or, not_not] at hcond
    refine Or.inr ⟨by simpa using hcond.1, hcond.2, ?_⟩
    simp only
    rw [inbox_ackLoop]
    rfl

/-- A PUBREL releases the flow that waits for it, is answered with an error, or is a
duplicate. -/
theorem inbox_handlePubrel (id : PacketID) :
    inbox (handlePubrel e id) = inbox e ∨
    (e.failure = none ∧ (∀ h, e.inn.get id = some h → (e.ins h).state ≠ .awaitPubrel ∧
      (e.ins h).state ≠ .released) ∧
      inbox (handlePubrel e id) = (inbox e).push (notFound id)) ∨
    (∃ h, e.failure = none ∧ e.inn.get id = some h ∧ (e.ins h).state = .awaitPubrel ∧
      inbox (handlePubrel e id) = (inbox e).release id h) := by
  have hpush : inbox (pushCtrlLocked e .PUBCOMP id .packetIdentifierNotFound false none none) =
      (inbox e).push (notFound id) := inbox_pushCtrl e (notFound id) (by simp [notFound])
  unfold handlePubrel
  split
  · exact .inl rfl
  · rename_i hf
    have hf : e.failure = none := by simpa using hf
    cases hget : e.inn.get id with
    | none => exact .inr (.inl ⟨hf, by simp, hpush⟩)
    | some h =>
      simp only
      split
      · exact .inl rfl
      · rename_i hrel
        split
        · rename_i hstate
          refine Or.inr (.inl ⟨hf, ?_, hpush⟩)
          intro x hx
          rw [← Option.some.inj hx]
          exact ⟨hstate, hrel⟩
        · rename_i hstate
          rw [not_not] at hstate
          refine Or.inr (.inr ⟨h, hf, rfl, hstate, ?_⟩)
          have hcomp := inbox_pushCtrl (setIn e h fun x => { x with state := .released })
            (pubcompOf id h) (by simp [pubcompOf])
          split
          · exact hcomp
          · exact hcomp

variable {e : Engine}

/-- INTERNAL: A PUBLISH keeps the inbox sound. -/
theorem receive_sound (hs : (inbox e).Sound) (id : PacketID) (qos : ℕ) :
    (inbox (receive e id qos).1).Sound := by
  rcases inbox_receive e id qos with ⟨heq, -⟩ | ⟨h, hget, hstate, -, -, heq⟩ | ⟨-, hget, -, heq⟩
  · rw [heq]
    exact hs
  · rw [heq]
    exact hs.push_pubrec hget hstate
  · rw [heq]
    exact hs.register id qos hget

/-- INTERNAL: `Ack` does. -/
theorem ack_sound (hs : (inbox e).Sound) {h : InPtr} (hlt : h < e.nextIn) :
    (inbox (ack e h)).Sound := by
  rcases inbox_ack e h with heq | ⟨hdead, hstate, heq⟩
  · rw [heq]
    exact hs
  · rw [heq]
    exact Inbox.Sound.ackLoop _ _ (hs.setAcked hlt hdead hstate)

/-- INTERNAL: A PUBREL does. -/
theorem handlePubrel_sound (hs : (inbox e).Sound) (id : PacketID) :
    (inbox (handlePubrel e id)).Sound := by
  rcases inbox_handlePubrel e id with heq | ⟨-, hstate, heq⟩ | ⟨h, -, hget, hstate, heq⟩
  · rw [heq]
    exact hs
  · rw [heq]
    exact hs.push_notFound id hstate
  · rw [heq]
    exact hs.release hget hstate

end Inbound

section Connection

variable (e : Engine) (p : OutPtr)

/-- A resume leaves the acknowledgements as they are. -/
theorem inside_resumeLocked :
    inside (resumeLocked e) = { inside e with ctrl := (resumeLocked e).ctrl } := by
  have hmap : acksOf (e.rel.map fun p =>
      (⟨.PUBREL, (e.outs p).id, .success, true, none, some (.out p)⟩ : CtrlFrame)) = [] := by
    unfold acksOf
    rw [filter_eq_nil_iff]
    intro c hc
    obtain ⟨q, _, rfl⟩ := mem_map.mp hc
    simp
  have hctrl : acksOf (resumeLocked e).ctrl = acksOf e.ctrl := by
    unfold resumeLocked
    simp only
    unfold acksOf at hmap ⊢
    rw [filter_append, hmap, append_nil, filter_filter]
    simp
  unfold inside inbox
  rw [hctrl]
  rfl

/-- The inbound flows of a session that is over are dead. -/
theorem foldl_loseIn_ins (l : List (PacketID × InPtr)) :
    (l.foldl loseIn e).ins = (fun h => if h ∈ l.map Prod.snd then { e.ins h with dead := true }
      else e.ins h) ∧ (l.foldl loseIn e).nextIn = e.nextIn := by
  induction l generalizing e with
  | nil => simp
  | cons x rest ih =>
    have hins : (loseIn e x).ins = Function.update e.ins x.2 { e.ins x.2 with dead := true } ∧
        (loseIn e x).nextIn = e.nextIn := by
      unfold loseIn
      simp only
      split <;> exact ⟨rfl, rfl⟩
    rw [foldl_cons, (ih _).1, (ih _).2, hins.1, hins.2]
    refine ⟨?_, rfl⟩
    funext h
    by_cases hx : h = x.2
    · subst hx
      simp
    · simp only [map_cons, mem_cons, hx, false_or, Function.update_of_ne hx]

/-- INTERNAL: A lost session has an empty inbox. -/
theorem inbox_lose : inbox (clearIn (e.inn.toList.foldl loseIn e)) = (inbox e).clear := by
  obtain ⟨hins, hnext⟩ := foldl_loseIn_ins e e.inn.toList
  simp only [inbox, clearIn, Inbox.clear, hins, hnext, acksOf, filter_nil]
  rfl

/-- INTERNAL: The end of the send lists leaves the inbox alone. -/
@[simp]
theorem inside_drainFlowsLocked : inside (drainFlowsLocked e).1 = inside e := rfl

/-- INTERNAL: The loss of the session clears the inbox. -/
theorem inbox_sessionLostLocked (now : Time) :
    inbox (sessionLostLocked e now) = (inbox e).clear := by
  unfold sessionLostLocked
  simp only
  have hflows := foldl_keeps inside (loseFlow now)
    (fun e p => (Acts.loseFlow (e := e) p rfl).inside)
    (drainFlowsLocked (clearIn (e.inn.toList.foldl loseIn e))).2
    (drainFlowsLocked (clearIn (e.inn.toList.foldl loseIn e))).1
  rw [inside_drainFlowsLocked] at hflows
  exact (congrArg Inside.box hflows).trans (inbox_lose e)

/-- INTERNAL: The cursor is none of its business. -/
@[simp]
theorem inside_rewindLocked (ci : ConnInfo) : inside (rewindLocked e ci) = inside e := rfl

/-- INTERNAL: Nor is the quota. -/
@[simp]
theorem inside_bindLocked (ci : ConnInfo) : inside (bindLocked e ci) = inside e := by
  unfold bindLocked
  simp only [foldl_clearCounted]
  rfl

/-- INTERNAL: A connection clears the inbox unless it resumes. -/
theorem inbox_connected (ci : ConnInfo) (now : Time) (h : e.failure = none) :
    inbox (connected e ci now) = if ci.sessionPresent then inbox e else (inbox e).clear := by
  unfold connected
  simp only [h, Option.isSome_none, Bool.false_eq_true, if_false]
  have hbox : ∀ d : Engine, inbox (rewindLocked (limitLocked d ci) ci) = inbox d := fun d =>
    congrArg Inside.box ((inside_rewindLocked _ ci).trans
      (Acts.limitLocked (G := fun _ _ => True) (fun _ => trivial) d ci).inside)
  have hbind : inbox (bindLocked e ci) = inbox e := congrArg Inside.box (inside_bindLocked e ci)
  rw [hbox]
  split
  · exact (congrArg Inside.box (inside_resumeLocked _)).trans hbind
  · rw [inbox_sessionLostLocked, hbind]

/-- INTERNAL: A connection keeps the inbox sound. -/
theorem connected_sound (ci : ConnInfo) (now : Time) (h : e.failure = none)
    (hs : (inbox e).Sound) : (inbox (connected e ci now)).Sound := by
  rw [inbox_connected e ci now h]
  split
  · exact hs
  · exact hs.clear

/-- INTERNAL: Its end leaves the inbox alone. -/
@[simp]
theorem inside_disconnected (l : LinkID) : inside (disconnected e l) = inside e := by
  unfold disconnected
  split <;> rfl

end Connection

section CollectControl

variable (e : Engine)

/-- One round of the control loop: a PUBREL does not show in the inbox, any other
frame is the acknowledgement owed first. -/
theorem inbox_writeCtrl (c : CtrlFrame) (rest : List CtrlFrame) :
    inbox { writeCtrl e c with ctrl := rest } =
      if c.typ = .PUBREL then inbox { e with ctrl := c :: rest }
      else (inbox { e with ctrl := c :: rest }).write := by
  have hacks : acksOf (c :: rest) = if c.typ = .PUBREL then acksOf rest else c :: acksOf rest := by
    unfold acksOf
    by_cases hc : c.typ = .PUBREL <;> simp [hc]
  unfold writeCtrl inbox Inbox.write
  simp only [hacks]
  by_cases hc : c.typ = .PUBREL
  · simp [hc]
  · simp only [hc, if_false]
    split <;> rfl

/-- The frames the control loop hands out are a prefix of the queue, each with its
record stored; nothing but the queue and the map of inbound flows changes. -/
theorem collectControlLoop_split (l : List CtrlFrame) :
    ∃ pre post inn, l = pre ++ post ∧ (∀ c ∈ pre, readyLocked e c = true) ∧
      collectControlLoop l e = ({ e with ctrl := post, inn := inn }, pre.map .control) := by
  induction l generalizing e with
  | nil => exact ⟨[], [], e.inn, rfl, by simp, rfl⟩
  | cons c rest ih =>
    unfold collectControlLoop
    split
    · rename_i hready
      have hwrite : ∃ inn, writeCtrl e c = { e with inn := inn } := by
        unfold writeCtrl
        split
        · exact ⟨_, rfl⟩
        · exact ⟨_, rfl⟩
      obtain ⟨inn, hwrite⟩ := hwrite
      obtain ⟨pre, post, inn', hl, hpre, heq⟩ := ih (writeCtrl e c)
      refine ⟨c :: pre, post, inn', by rw [hl]; rfl, ?_, ?_⟩
      · intro x hx
        rcases mem_cons.mp hx with rfl | hx
        · exact hready
        · have := hpre x hx
          rw [hwrite] at this
          exact this
      · rw [heq, hwrite]
        rfl
    · exact ⟨[], c :: rest, e.inn, rfl, by simp, rfl⟩

/-- INTERNAL: Control packets handed out keep it sound. -/
theorem collectControlLoop_sound (l : List CtrlFrame)
    (hs : (inbox { e with ctrl := l }).Sound) : (inbox (collectControlLoop l e).1).Sound := by
  induction l generalizing e with
  | nil => exact hs
  | cons c rest ih =>
    unfold collectControlLoop
    split
    · apply ih
      rw [inbox_writeCtrl]
      split
      · exact hs
      · exact hs.write
    · exact hs

/-- INTERNAL: `CollectControl` does. -/
theorem collectControl_sound (gen : ℕ) (hs : (inbox e).Sound) :
    (inbox (collectControl e gen).1).Sound := by
  unfold collectControl
  split
  · exact hs
  · exact collectControlLoop_sound e e.ctrl hs

/-- INTERNAL: `Collect` does. -/
theorem collect_sound (gen upTo : ℕ) (now : Time) (hs : (inbox e).Sound) :
    (inbox (collect e gen upTo now).1).Sound := by
  unfold collect
  split
  · exact hs
  · simp only
    rw [show inbox _ = _ from congrArg Inside.box (Acts.collectLoop _ now _ _).inside]
    exact collectControlLoop_sound { e with released := max e.released upTo } _ hs

end CollectControl

section Writes

variable (e : Engine) (p : OutPtr)

/-- INTERNAL: The stage of a write is none of its business. -/
@[simp]
theorem inbox_setStage (k : RecordKey) (st : Stage) : inbox (setStage e k st) = inbox e := by
  unfold setStage
  split <;> rfl

/-- INTERNAL: Nor is the end of one. -/
@[simp]
theorem inbox_popJob (k : RecordKey) : inbox (popJob e k) = inbox e := rfl

/-- INTERNAL: A failed session has an empty inbox. -/
theorem inside_failLocked (err : StoreError) (h : e.failure = none) :
    inside (failLocked e err) = ⟨(inbox e).clear, fun i => e.queues (inKey i), []⟩ := by
  have heq := failLocked_eq e err h
  rw [heq]
  rfl

end Writes

end Mqttv5.Analysis
