import Mqttv5.Analysis.Backlog
import Mqttv5.Analysis.Outward
import Mqttv5.Analysis.SendView

/-!
# What an operation on inbound flows does

It changes the inbound half of the engine and the control queue, and adds writes of inbound
records; the rest of the engine is as it was (`Inward`). What the receiver does in answer to a
packet or an acknowledgement of the application also adds acknowledgements only (`Answers`).
-/

set_option autoImplicit false

namespace Mqttv5.Analysis

open Model Program Interface

variable {e e' e'' : Engine}

/-- A write of an inbound record that has just been queued. -/
def FreshIn (epoch : ℕ) (k : RecordKey) (j : Job) : Prop := k.dir = .inbound ∧ Later epoch k j

structure Inward (e e' : Engine) : Prop where
  rest : e' = { e with
    ins := e'.ins
    nextIn := e'.nextIn
    inn := e'.inn
    fifo := e'.fifo
    ctrl := e'.ctrl
    queues := e'.queues
    writes := e'.writes
    writesIdle := e'.writesIdle }
  jobs : Adds (FreshIn e.epoch) e e'

namespace Inward

/-- INTERNAL: Nothing happens. -/
theorem refl (e : Engine) : Inward e e := ⟨rfl, .of_eq rfl rfl⟩

section

variable (h : Inward e e')
include h

/-- INTERNAL: One step after another. -/
theorem trans (h' : Inward e' e'') : Inward e e'' := by
  have hepoch : e'.epoch = e.epoch := (congrArg Engine.epoch h.rest :)
  refine ⟨h'.rest.trans ?_, h.jobs.trans (hepoch ▸ h'.jobs)⟩
  rw [h.rest]

/-- INTERNAL: The settings stay. -/
theorem statics : statics e' = statics e := by
  rw [h.rest]
  rfl

/-- INTERNAL: The send queue stays. -/
theorem sendQueue : sendQueue e' = sendQueue e := by
  rw [h.rest]
  rfl

/-- INTERNAL: No outbound flow changes. -/
theorem moves {G : Out → Out → Prop} : Moves G e e' :=
  .of_eq (congrArg Engine.nextOut h.rest :) (congrArg Engine.outs h.rest :)

end

variable (e : Engine)

/-- A write of an inbound record. -/
theorem queueIn (i : PacketID) (o : FlowPtr) (j : JobKind) (hj : isOutbound j = false)
    (hkey : ∀ r, putOf j = some r → r.key = inKey i) :
    Inward e (queueLocked e (inKey i) o j) := by
  refine ⟨rfl, Adds.queueLocked e _ o j ⟨rfl, ⟨rfl, rfl, by simp [hj, inKey], hkey⟩, ?_⟩⟩
  cases j <;> first | rfl | cases hj

/-- INTERNAL: An inbound flow is changed. -/
theorem setIn (h : InPtr) (f : In → In) : Inward e (setIn e h f) := ⟨rfl, .of_eq rfl rfl⟩

/-- INTERNAL: An inbound flow is forgotten. -/
theorem loseIn (x : PacketID × InPtr) : Inward e (loseIn e x) := by
  unfold Program.loseIn
  simp only
  split
  · exact (setIn e x.2 _).trans (queueIn _ _ _ _ rfl fun _ hr => by cases hr)
  · exact setIn e x.2 _

/-- INTERNAL: A loop of such steps. -/
theorem foldl {α : Type} (f : Engine → α → Engine) (hf : ∀ e x, Inward e (f e x)) (l : List α)
    (e : Engine) : Inward e (l.foldl f e) := by
  induction l generalizing e with
  | nil => exact refl e
  | cons x rest ih => exact (hf e x).trans (ih _)

/-- What a lost session does before it gets to the outbound flows. -/
theorem lose : Inward e (clearIn (e.inn.toList.foldl Program.loseIn e)) :=
  (foldl _ loseIn _ e).trans ⟨rfl, .of_eq rfl rfl⟩

/-- INTERNAL: Control packets are handed out. -/
theorem collectControlLoop (l : List CtrlFrame) : Inward e (collectControlLoop l e).1 := by
  induction l generalizing e with
  | nil => exact ⟨rfl, .of_eq rfl rfl⟩
  | cons c rest ih =>
    unfold Program.collectControlLoop
    split
    · refine Inward.trans ?_ (ih _)
      unfold writeCtrl
      split <;> exact ⟨rfl, .of_eq rfl rfl⟩
    · exact ⟨rfl, .of_eq rfl rfl⟩

/-- INTERNAL: `CollectControl`. -/
theorem collectControl (gen : ℕ) : Inward e (collectControl e gen).1 := by
  unfold Program.collectControl
  split
  · exact refl e
  · exact collectControlLoop e e.ctrl

end Inward

/-- Acknowledgements are added to the control queue, and nothing else. -/
def AddsAcks (e e' : Engine) : Prop :=
  ∃ l, e'.ctrl = e.ctrl ++ l ∧ ∀ c ∈ l, c.typ ≠ .PUBREL

namespace AddsAcks

/-- INTERNAL: No acknowledgement is added. -/
theorem of_eq (h : e'.ctrl = e.ctrl) : AddsAcks e e' := ⟨[], by simp [h], by simp⟩

/-- INTERNAL: Acknowledgements are added twice. -/
theorem trans (h : AddsAcks e e') (h' : AddsAcks e' e'') : AddsAcks e e'' := by
  obtain ⟨l, hl, hacks⟩ := h
  obtain ⟨l', hl', hacks'⟩ := h'
  refine ⟨l ++ l', by rw [hl', hl, List.append_assoc], ?_⟩
  intro c hc
  rcases List.mem_append.mp hc with hc | hc
  · exact hacks c hc
  · exact hacks' c hc

end AddsAcks

structure Answers (e e' : Engine) : Prop extends Inward e e' where
  acks : AddsAcks e e'

namespace Answers

/-- INTERNAL: Nothing happens. -/
theorem refl (e : Engine) : Answers e e := ⟨.refl e, .of_eq rfl⟩

/-- INTERNAL: One step after another. -/
theorem trans (h : Answers e e') (h' : Answers e' e'') : Answers e e'' :=
  ⟨h.toInward.trans h'.toInward, h.acks.trans h'.acks⟩

variable (e : Engine)

/-- INTERNAL: An acknowledgement is queued. -/
theorem push {t : PacketType} (ht : t ≠ .PUBREL) (id : PacketID) (rc : ReasonCode) (g : Bool)
    (h : Option InPtr) (src : Option FlowPtr) : Answers e (pushCtrlLocked e t id rc g h src) :=
  ⟨⟨rfl, .of_eq rfl rfl⟩, [⟨t, id, rc, g, h, src⟩], rfl, by simpa using ht⟩

/-- INTERNAL: An inbound flow is changed. -/
theorem setIn (h : InPtr) (f : In → In) : Answers e (setIn e h f) := ⟨.setIn e h f, .of_eq rfl⟩

/-- An answer, and the write of the record it depends on. -/
theorem queueIn {i : PacketID} {o : FlowPtr} {j : JobKind} (h : Answers e e')
    (hj : isOutbound j = false) (hkey : ∀ r, putOf j = some r → r.key = inKey i) :
    Answers e (queueLocked e' (inKey i) o j) := h.trans ⟨.queueIn e' i o j hj hkey, .of_eq rfl⟩

/-- INTERNAL: A PUBLISH comes in. -/
theorem receive (id : PacketID) (qos : ℕ) : Answers e (receive e id qos).1 := by
  unfold Program.receive
  split
  · exact refl e
  · split
    · split
      · exact push e (by decide) _ _ _ _ _
      · exact refl e
    · split
      · exact refl e
      · exact ⟨⟨rfl, .of_eq rfl rfl⟩, .of_eq rfl⟩

/-- INTERNAL: The first message in line is acknowledged. -/
theorem ackHead (h : InPtr) : Answers e (ackHead e h) := by
  have hrec := (setIn e h fun x => { x with state := .awaitPubrel }).trans
    (push _ (t := .PUBREC) (by decide) (e.ins h).id .success true none (some (.inn h)))
  unfold Program.ackHead
  simp only
  split
  · exact push e (by decide) _ _ _ _ _
  · split
    · refine queueIn e hrec rfl fun r hr => ?_
      cases hr
      rfl
    · exact hrec

/-- INTERNAL: All messages that are due are acknowledged. -/
theorem ackLoop (l : List InPtr) : Answers e (ackLoop l e) := by
  induction l generalizing e with
  | nil => exact ⟨⟨rfl, .of_eq rfl rfl⟩, .of_eq rfl⟩
  | cons h rest ih =>
    unfold Program.ackLoop
    split
    · exact (ackHead e h).trans (ih _)
    · exact ⟨⟨rfl, .of_eq rfl rfl⟩, .of_eq rfl⟩

/-- INTERNAL: The application acknowledges. -/
theorem ack (h : InPtr) : Answers e (ack e h) := by
  unfold Program.ack
  split
  · exact refl e
  · exact (setIn e h _).trans (ackLoop _ _)

/-- INTERNAL: A PUBREL. -/
theorem handlePubrel (id : PacketID) : Answers e (handlePubrel e id) := by
  unfold Program.handlePubrel
  split
  · exact refl e
  · split
    · exact push e (by decide) _ _ _ _ _
    · rename_i h _
      have hcomp := (setIn e h fun x => { x with state := .released }).trans
        (push _ (t := .PUBCOMP) (by decide) id .success true (some h) (some (.inn h)))
      split
      · exact refl e
      · split
        · exact push e (by decide) _ _ _ _ _
        · simp only
          split
          · exact queueIn e hcomp rfl fun _ hr => by cases hr
          · exact hcomp

end Answers

/-! ### What stays the same

The configuration, the binding to a connection, the failure and the epoch of the session, and
the identifier range. -/

/-- The Receive Maximum of a connection, 65,535 when its broker sets none. -/
def receiveLimit (ci : ConnInfo) : ℤ :=
  if ci.receiveMaximum = 0 then 65535 else ci.receiveMaximum

section Outbound

variable (e : Engine) (p : OutPtr)

/-- INTERNAL: `Register` keeps the settings. -/
@[simp]
theorem statics_register (m : Message) (now : Time) :
    statics (register e m now).1 = statics e := by
  unfold register
  split
  · exact (Acts.releaseLocked e _ _).statics
  · simp only
    split <;> rfl

/-- INTERNAL: A PUBREC keeps them. -/
@[simp]
theorem statics_handlePubrec (id : PacketID) (rc : ReasonCode) (refused : Option PubErr) :
    statics (handlePubrec e id rc refused) = statics e := by
  unfold handlePubrec
  split
  · rfl
  · split
    · rfl
    · split
      · rfl
      · split
        · rfl
        · split
          · exact ((Acts.setReason e _ rc refused).trans (.endAcked _ _ _)).statics
          · exact (Acts.putOutLocked _ _).statics

end Outbound

section Connection

variable (e : Engine) (p : OutPtr)

/-- INTERNAL: A resume keeps them. -/
@[simp]
theorem statics_resumeLocked : statics (resumeLocked e) = statics e := rfl

/-- INTERNAL: The end of the lists keeps them. -/
@[simp]
theorem statics_drainFlowsLocked : statics (drainFlowsLocked e).1 = statics e := rfl

/-- INTERNAL: The loss of the session keeps them. -/
@[simp]
theorem statics_sessionLostLocked (now : Time) : statics (sessionLostLocked e now) = statics e := by
  unfold sessionLostLocked
  simp only
  rw [foldl_keeps statics _ (fun e p => (Acts.loseFlow p rfl).statics), statics_drainFlowsLocked,
    (Inward.lose e).statics]

/-- INTERNAL: The cursor's way back keeps them. -/
@[simp]
theorem statics_rewindLocked (ci : ConnInfo) : statics (rewindLocked e ci) = statics e := rfl

/-- A new connection gets the next generation. -/
theorem statics_bindLocked (ci : ConnInfo) : statics (bindLocked e ci) =
    { statics e with
      link := some ci.link
      gen := e.lastGen + 1
      lastGen := e.lastGen + 1
      quotaMax := receiveLimit ci } := by
  unfold bindLocked
  simp only
  rw [foldl_keeps statics clearCounted (fun _ _ => rfl)]
  rfl

/-- INTERNAL: A connection sets its link, limits and generation. -/
theorem statics_connected (ci : ConnInfo) (now : Time) (h : e.failure = none) :
    statics (connected e ci now) =
      { statics e with
        link := some ci.link
        gen := e.lastGen + 1
        lastGen := e.lastGen + 1
        quotaMax := receiveLimit ci } := by
  unfold connected
  simp only [h, Option.isSome_none, Bool.false_eq_true, if_false]
  rw [statics_rewindLocked,
    (Acts.limitLocked (G := fun _ _ => True) (fun _ => trivial) _ ci).statics]
  split
  · rw [statics_resumeLocked, statics_bindLocked]
  · rw [statics_sessionLostLocked, statics_bindLocked]

/-- INTERNAL: `Collect` keeps them. -/
@[simp]
theorem statics_collect (gen upTo : ℕ) (now : Time) :
    statics (collect e gen upTo now).1 = statics e := by
  unfold collect
  split
  · rfl
  · simp only
    rw [(Acts.collectLoop _ now _ _).statics, collectControlLocked,
      (Inward.collectControlLoop _ _).statics]
    rfl

end Connection

section Writes

variable (e : Engine) (p : OutPtr)

/-- INTERNAL: The stage of a write keeps them. -/
@[simp]
theorem statics_setStage (k : RecordKey) (st : Stage) : statics (setStage e k st) = statics e := by
  unfold setStage
  split <;> rfl

end Writes

end Mqttv5.Analysis
