import Mathlib.Logic.Relation
import Mqttv5.Interface.Inbox
import Mqttv5.Model.Run

/-!
# What an operation on outbound flows does

Almost every operation only keeps the books of a flow or ends it (`Tracked`); `Connected` may
renew or downgrade one, and `Collect` may send or shorten one. `Moves G` says that between two
states every flow has changed by such bookkeeping and by changes of kind `G` only, so what both
keep is kept by the operation.

The operations on outbound flows leave two views of the engine alone: what only a new connection,
its end, a failure and `Restore` change (`statics`), and the inbound half (`inside`). `Acts G` is
all three, and the functions of the engine are gone through here once.
-/

set_option autoImplicit false

namespace Mqttv5.Analysis

open Model Program Interface

/-! ### Two views of the engine -/

structure Statics where
  cfg : Config
  max : ℕ
  link : Option LinkID
  gen : ℕ
  lastGen : ℕ
  quotaMax : ℤ
  epoch : ℕ
  failure : Option StoreError

def statics (e : Engine) : Statics :=
  ⟨e.cfg, e.ids.max, e.link, e.gen, e.lastGen, e.quotaMax, e.epoch, e.failure⟩

section

variable {e e' : Engine} (h : statics e' = statics e)

include h

/-- INTERNAL: The settings stay. -/
theorem same_cfg : e'.cfg = e.cfg := congrArg Statics.cfg h

/-- INTERNAL: The connection stays. -/
theorem same_gen : e'.gen = e.gen := congrArg Statics.gen h

/-- INTERNAL: The session stays the same one. -/
theorem same_epoch : e'.epoch = e.epoch := congrArg Statics.epoch h

/-- INTERNAL: No failure comes or goes. -/
theorem same_failure : e'.failure = e.failure := congrArg Statics.failure h

end

/-- The acknowledgements among control frames. -/
def acksOf (ctrl : List CtrlFrame) : List CtrlFrame := ctrl.filter fun c => c.typ ≠ .PUBREL

/-- The inbox the engine implements: its control queue without the PUBRELs. -/
def inbox (e : Engine) : Inbox := ⟨e.ins, e.nextIn, e.inn, e.fifo, acksOf e.ctrl⟩

/-- The inbox, the writes of inbound records and the control queue as a whole. -/
structure Inside where
  box : Inbox
  jobs : PacketID → List Job
  ctrl : List CtrlFrame

def inside (e : Engine) : Inside := ⟨inbox e, fun i => e.queues (inKey i), e.ctrl⟩

/-- INTERNAL: The two directions have different records. -/
theorem inKey_ne_outKey (i i' : PacketID) : inKey i ≠ outKey i' := by
  intro hcon
  simp [inKey, outKey] at hcon

/-- A loop keeps what its body keeps. -/
theorem foldl_keeps {α β γ : Type} (g : β → γ) (f : β → α → β) (hf : ∀ b x, g (f b x) = g b)
    (l : List α) (b : β) : g (l.foldl f b) = g b := by
  induction l generalizing b with
  | nil => rfl
  | cons x rest ih => rw [List.foldl_cons, ih, hf]

/-! ### Flow by flow -/

/-- `o'` is `o` with its books kept, or ended: the message and whether it was sent are as they
were. -/
structure Tracked (o o' : Out) : Prop where
  id : o'.id = o.id
  qos : o'.qos = o.qos
  packet : o'.packet = o.packet
  expiresAt : o'.expiresAt = o.expiresAt
  expiry : o'.expiry = o.expiry
  attempted : o'.attempted = o.attempted
  finished : o.finished = true → o'.finished = true

/-- One change of a flow: of its books, or of kind `G`. -/
def Alters (G : Out → Out → Prop) (o o' : Out) : Prop := Tracked o o' ∨ G o o'

/-- Every flow has changed by such changes, and there is no new one. -/
structure Moves (G : Out → Out → Prop) (e e' : Engine) : Prop where
  nextOut : e'.nextOut = e.nextOut
  flow : ∀ q, Relation.ReflTransGen (Alters G) (e.outs q) (e'.outs q)

/-- No change but of the books. -/
def Never (_ _ : Out) : Prop := False

variable {G : Out → Out → Prop} {e e' e'' : Engine}

namespace Moves

/-- INTERNAL: **What every change of a flow keeps.** -/
theorem keeps (h : Moves G e e') (P : Out → Prop) (htracked : ∀ o o', Tracked o o' → P o → P o')
    (hG : ∀ o o', G o o' → P o → P o') (q : OutPtr) (hq : P (e.outs q)) : P (e'.outs q) := by
  have hrun := h.flow q
  generalize e'.outs q = o' at hrun ⊢
  induction hrun with
  | refl => exact hq
  | tail _ hstep ih =>
    rcases hstep with hstep | hstep
    · exact htracked _ _ hstep ih
    · exact hG _ _ hstep ih

/-- INTERNAL: Flows that stay as they are. -/
theorem of_eq (hnext : e'.nextOut = e.nextOut) (houts : e'.outs = e.outs) : Moves G e e' := by
  refine ⟨hnext, fun q => ?_⟩
  rw [houts]

/-- INTERNAL: Nothing changes. -/
theorem refl (e : Engine) : Moves G e e := of_eq rfl rfl

/-- INTERNAL: One change after another. -/
theorem trans (h : Moves G e e') (h' : Moves G e' e'') : Moves G e e'' :=
  ⟨h'.nextOut.trans h.nextOut, fun q => (h.flow q).trans (h'.flow q)⟩

/-- A state whose flows read as those of `e'`. -/
theorem as (h : Moves G e e') (hnext : e''.nextOut = e'.nextOut) (houts : e''.outs = e'.outs) :
    Moves G e e'' := h.trans (of_eq hnext houts)

/-- A start whose flows read as those of `e`. -/
theorem after (h : Moves G e' e'') (hnext : e'.nextOut = e.nextOut) (houts : e'.outs = e.outs) :
    Moves G e e'' := (of_eq hnext houts).trans h

/-- INTERNAL: A change of no kind is one of any kind. -/
theorem mono (h : Moves Never e e') : Moves G e e' :=
  ⟨h.nextOut, fun q => Relation.ReflTransGen.mono
    (fun _ _ (hs : Alters Never _ _) => hs.imp_right False.elim) _ _ (h.flow q)⟩

/-- INTERNAL: A flow is changed in a way that is allowed. -/
theorem setOut (e : Engine) (p : OutPtr) (f : Out → Out)
    (hf : Alters G (e.outs p) (f (e.outs p))) : Moves G e (setOut e p f) := by
  refine ⟨rfl, fun q => ?_⟩
  by_cases hq : q = p
  · subst hq
    rw [show (Program.setOut e q f).outs q = f (e.outs q) by simp [Program.setOut]]
    exact .single hf
  · rw [show (Program.setOut e p f).outs q = e.outs q by simp [Program.setOut, hq]]

/-- INTERNAL: A loop of changes. -/
theorem foldl {α : Type} (f : Engine → α → Engine) (hf : ∀ e x, Moves G e (f e x)) (l : List α)
    (e : Engine) : Moves G e (l.foldl f e) := by
  induction l generalizing e with
  | nil => exact refl e
  | cons x rest ih => exact (hf e x).trans (ih _)

end Moves

/-- And both views are as they were, and nobody is to be called. -/
structure Acts (G : Out → Out → Prop) (e e' : Engine) : Prop extends Moves G e e' where
  statics : statics e' = statics e
  inside : inside e' = inside e
  dropped : e'.dropped = e.dropped

namespace Acts

/-- INTERNAL: A step beside the flows. -/
theorem of_eq (hnext : e'.nextOut = e.nextOut) (houts : e'.outs = e.outs)
    (hs : Analysis.statics e' = Analysis.statics e) (hin : Analysis.inside e' = Analysis.inside e)
    (hd : e'.dropped = e.dropped) : Acts G e e' := ⟨.of_eq hnext houts, hs, hin, hd⟩

/-- INTERNAL: Nothing happens. -/
theorem refl (e : Engine) : Acts G e e := of_eq rfl rfl rfl rfl rfl

/-- INTERNAL: One step after another. -/
theorem trans (h : Acts G e e') (h' : Acts G e' e'') : Acts G e e'' :=
  ⟨h.toMoves.trans h'.toMoves, h'.statics.trans h.statics, h'.inside.trans h.inside,
    h'.dropped.trans h.dropped⟩

/-- A start that reads as `e`. -/
theorem after (h : Acts G e' e'') (hnext : e'.nextOut = e.nextOut) (houts : e'.outs = e.outs)
    (hs : Analysis.statics e' = Analysis.statics e) (hin : Analysis.inside e' = Analysis.inside e)
    (hd : e'.dropped = e.dropped) : Acts G e e'' := (of_eq hnext houts hs hin hd).trans h

/-- INTERNAL: A step that changes no flow is one of any kind. -/
theorem mono (h : Acts Never e e') : Acts G e e' := ⟨h.toMoves.mono, h.statics, h.inside, h.dropped⟩

variable (e : Engine) (p : OutPtr)

/-- INTERNAL: A flow changes in its kind. -/
theorem change (f : Out → Out) (hf : G (e.outs p) (f (e.outs p))) : Acts G e (setOut e p f) :=
  ⟨.setOut e p f (.inr hf), rfl, rfl, rfl⟩

/-- INTERNAL: A flow keeps what is tracked. -/
theorem setOut (f : Out → Out) (hf : Tracked (e.outs p) (f (e.outs p))) :
    Acts Never e (setOut e p f) := ⟨.setOut e p f (.inl hf), rfl, rfl, rfl⟩

/-- INTERNAL: A write is queued. -/
theorem queueLocked (id : PacketID) (o : FlowPtr) (j : JobKind) :
    Acts Never e (queueLocked e (outKey id) o j) := by
  refine of_eq rfl rfl rfl ?_ rfl
  simp only [Analysis.inside, Program.queueLocked, Function.update_of_ne (inKey_ne_outKey _ _)]
  rfl

/-- INTERNAL: A write is cancelled. -/
theorem cancelLocked (id : PacketID) (o : FlowPtr) :
    Acts Never e (cancelLocked e (outKey id) o) := by
  unfold Program.cancelLocked
  split
  · exact refl e
  · refine of_eq rfl rfl rfl ?_ rfl
    simp only [Analysis.inside, Function.update_of_ne (inKey_ne_outKey _ _)]
    rfl

/-- INTERNAL: An identifier is released. -/
theorem releaseLocked (id : PacketID) (o : Owner) : Acts Never e (releaseLocked e id o) := by
  unfold Program.releaseLocked
  split <;> exact of_eq rfl rfl rfl rfl rfl

/-! ### The end of a flow -/

/-- INTERNAL: A flow leaves its list. -/
theorem unlinkLocked : Acts Never e (unlinkLocked e p) := of_eq rfl rfl rfl rfl rfl

/-- INTERNAL: A Put of the record is queued. -/
theorem putOutLocked : Acts Never e (putOutLocked e p) := by
  unfold Program.putOutLocked
  split
  · exact queueLocked e _ _ _
  · exact refl e

/-- INTERNAL: A flow completes. -/
theorem completeLocked : Acts Never e (completeLocked e p) := by
  unfold Program.completeLocked
  split
  · exact refl e
  · split
    · exact refl e
    · exact (setOut e p _ ⟨rfl, rfl, rfl, rfl, rfl, rfl, fun h => h⟩).trans (putOutLocked _ p)

/-- INTERNAL: A settlement is queued. -/
theorem settleLocked : Acts Never e (settleLocked e p) :=
  (setOut e p _ ⟨rfl, rfl, rfl, rfl, rfl, rfl, fun h => h⟩).trans (queueLocked _ _ _ _)

/-- INTERNAL: A flow ends. -/
theorem finishLocked (err : Option PubErr) : Acts Never e (finishLocked e p err) := by
  have hfin : Acts Never e (Program.setOut { e with out := e.out.del (e.outs p).id } p fun o =>
      { o with finished := true, err := err, done := o.done + 1 }) :=
    (setOut _ p _ ⟨rfl, rfl, rfl, rfl, rfl, rfl, fun _ => rfl⟩).after rfl rfl rfl rfl rfl
  unfold Program.finishLocked
  simp only
  split
  · exact hfin.trans (of_eq rfl rfl rfl rfl rfl)
  · exact hfin

/-- INTERNAL: A flow that ended is settled or completed. -/
theorem retireLocked : Acts Never e (retireLocked e p) := by
  unfold Program.retireLocked
  simp only
  split
  · split
    · exact (completeLocked _ p).after rfl rfl rfl rfl rfl
    · exact (settleLocked _ p).after rfl rfl rfl rfl rfl
  · split
    · exact releaseLocked e _ _
    · exact settleLocked e p

/-- INTERNAL: A unit of quota comes back. -/
theorem creditLocked : Acts Never e (creditLocked e p) := by
  have hset : Acts Never e (Program.setOut e p fun o => { o with counted := false }) :=
    setOut e p _ ⟨rfl, rfl, rfl, rfl, rfl, rfl, fun h => h⟩
  unfold Program.creditLocked
  simp only
  split
  · exact hset.trans (of_eq rfl rfl rfl rfl rfl)
  · exact refl e

/-- INTERNAL: A flow ends and leaves its list. -/
theorem endFlow (err : Option PubErr) : Acts Never e (endFlow e p err) :=
  ((unlinkLocked e p).trans (finishLocked _ p err)).trans (retireLocked _ p)

/-- INTERNAL: A flow ends on the broker's answer. -/
theorem endAcked (err : Option PubErr) : Acts Never e (endAcked e p err) :=
  (((unlinkLocked e p).trans (finishLocked _ p err)).trans (creditLocked _ p)).trans
    (retireLocked _ p)

/-! ### Producers and the broker's answers -/

/-- INTERNAL: `Withdraw`. -/
theorem withdraw : Acts Never e (withdraw e p).1 := by
  unfold Program.withdraw
  split
  · exact refl e
  · exact endFlow e p _

/-- INTERNAL: `Adopt`. -/
theorem adopt (ref : Bytes) (f : SettleFn) : Acts Never e (adopt e ref f).1 := by
  have hset : ∀ p, Acts Never e (Program.setOut e p fun o => { o with settle := some f }) :=
    fun p => setOut e p _ ⟨rfl, rfl, rfl, rfl, rfl, rfl, fun h => h⟩
  unfold Program.adopt
  split
  · exact hset _
  · split
    · exact refl e
    · rename_i p _
      simp only
      split
      · exact (hset p).trans (setOut _ p (fun o => { o with adopted := true })
          ⟨rfl, rfl, rfl, rfl, rfl, rfl, fun h => h⟩)
      · exact (hset p).trans (settleLocked _ p)

/-- INTERNAL: The broker's answer is kept. -/
theorem setReason (rc : ReasonCode) (refused : Option PubErr) :
    Acts Never e (setReason e p rc refused) := by
  unfold Program.setReason
  split
  · exact refl e
  · exact setOut e p _ ⟨rfl, rfl, rfl, rfl, rfl, rfl, fun h => h⟩

/-- INTERNAL: A PUBACK. -/
theorem handlePuback (id : PacketID) (rc : ReasonCode) (refused : Option PubErr) :
    Acts Never e (handlePuback e id rc refused) := by
  unfold Program.handlePuback
  split
  · exact refl e
  · split
    · exact refl e
    · split
      · exact refl e
      · exact (setReason e _ rc refused).trans (endAcked _ _ _)

/-- INTERNAL: A PUBCOMP. -/
theorem handlePubcomp (id : PacketID) : Acts Never e (handlePubcomp e id) := by
  unfold Program.handlePubcomp
  split
  · exact refl e
  · split
    · exact refl e
    · split
      · exact refl e
      · exact endAcked e _ none

/-! ### Store writes -/

/-- INTERNAL: A first Put that failed. -/
theorem dropNew (err : ℕ) : Acts Never e (dropNew e p err) := by
  have hcancel : Acts Never e (Program.cancelLocked
      { e with putErr := Function.update e.putErr p (some ⟨"put outbound", err⟩) }
      (outKey (e.outs p).id) (.out p)) := (cancelLocked _ _ _).after rfl rfl rfl rfl rfl
  unfold Program.dropNew
  simp only
  refine trans ?_ (releaseLocked _ _ _)
  refine trans ?_ (setOut _ p _ ⟨rfl, rfl, rfl, rfl, rfl, rfl, fun _ => rfl⟩)
  split <;> exact hcancel.trans (of_eq rfl rfl rfl rfl rfl)

/-- INTERNAL: A settlement that is given up. -/
theorem giveUp : Acts Never e (giveUp e p) := by
  unfold Program.giveUp
  simp only
  refine trans ?_ (releaseLocked _ _ _)
  split <;> exact of_eq rfl rfl rfl rfl rfl

/-- INTERNAL: What follows a settlement. -/
theorem settleAfter (failed : Bool) : Acts Never e (settleAfter e p failed) := by
  have hdone : Acts Never e (if failed then Program.completeLocked e p else e) := by
    split
    · exact completeLocked e p
    · exact refl e
  unfold Program.settleAfter
  refine hdone.trans ?_
  generalize (if failed then Program.completeLocked e p else e) = d
  simp only
  split
  · exact (setOut d p _ ⟨rfl, rfl, rfl, rfl, rfl, rfl, fun h => h⟩).trans (settleLocked _ p)
  · split
    · exact setOut d p _ ⟨rfl, rfl, rfl, rfl, rfl, rfl, fun h => h⟩
    · exact giveUp d p

/-- INTERNAL: What follows a write. -/
theorem afterJob (j : Job) (res : Option JobErr) : Acts Never e (afterJob e j res).1 := by
  have hsettling : ∀ p, Acts Never e (Program.setOut e p fun o => { o with settling := false }) :=
    fun p => setOut e p _ ⟨rfl, rfl, rfl, rfl, rfl, rfl, fun h => h⟩
  unfold Program.afterJob
  split
  · exact dropNew e _ _
  · exact dropNew e _ _
  · exact hsettling _
  · exact (hsettling _).trans (settleAfter _ _ _)
  · exact (hsettling _).trans (settleAfter _ _ _)
  · exact refl e
  · exact refl e
  · exact refl e

end Acts

/-! ### Connections -/

namespace Moves

/-- The changes `Connected` makes to a flow: a lost session renews those that it does not end,
and the connection's limits may downgrade one. -/
inductive Renews (policy : SessionLossPolicy) (now : Time) (lost : Bool) : Out → Out → Prop
  | renew {o : Out} (hlost : lost = true) (hpolicy : policy = .republish)
      (hexp : expired o now = false) : Renews policy now lost o (asNew o now)
  | downgrade {o : Out} : Renews policy now lost o (downgraded o)

/-- The changes `Collect` makes to a flow: its PUBLISH is handed out, or shortened to the time
it has left. -/
inductive Sends (now : Time) : Out → Out → Prop
  | send {o : Out} : Sends now o { o with attempted := true, counted := true }
  | shorten {o : Out} {left : ℕ} (hleft : timeLeft o now = some left) :
      Sends now o { o with expiry := left, packet := withMessageExpiry o.packet left }

end Moves

namespace Acts

open Moves (Renews Sends)

variable {policy : SessionLossPolicy} {now : Time} (p : OutPtr)

/-- INTERNAL: A flow of a lost session is sent again or ends. -/
theorem loseFlow (hcfg : e.cfg.sessionLoss = policy) :
    Acts (Renews policy now true) e (loseFlow now e p) := by
  unfold Program.loseFlow
  split
  · exact ((finishLocked e p _).trans (retireLocked _ p)).mono
  · rename_i hnone
    unfold lossReason at hnone
    split at hnone
    · cases hnone
    · rename_i hpolicy
      split at hnone
      · cases hnone
      · rename_i hexp
        have hnew : Acts (Renews policy now true) e (Program.setOut e p fun o => asNew o now) := by
          refine change e p _ (.renew rfl ?_ (by simpa using hexp))
          rw [← hcfg]
          revert hpolicy
          cases e.cfg.sessionLoss <;> simp
        exact hnew.trans ((putOutLocked _ p).mono.after rfl rfl rfl rfl rfl)

/-- INTERNAL: A limit of the broker lowers a flow's QoS. -/
theorem enforceLimit (hG : ∀ o, G o (downgraded o)) (l : Limits) (fresh : Bool) (e : Engine) :
    Acts G e (enforceLimit l fresh e p) := by
  unfold Program.enforceLimit
  split
  · exact refl e
  · split
    · exact (endFlow e p _).mono
    · split
      · exact (change e p _ (hG _)).trans (putOutLocked _ p).mono
      · exact refl e

/-- INTERNAL: The limits of the broker. -/
theorem limitLocked (hG : ∀ o, G o (downgraded o)) (e : Engine) (ci : ConnInfo) :
    Acts G e (limitLocked e ci) := by
  unfold Program.limitLocked
  split
  · exact refl e
  · exact ⟨.foldl _ (fun e p => (enforceLimit p hG _ _ e).toMoves) _ e,
      foldl_keeps _ _ (fun e p => (enforceLimit p hG _ _ e).statics) _ e,
      foldl_keeps _ _ (fun e p => (enforceLimit p hG _ _ e).inside) _ e,
      foldl_keeps _ _ (fun e p => (enforceLimit p hG _ _ e).dropped) _ e⟩

/-! ### Collect -/

/-- INTERNAL: A flow is handed out. -/
theorem handOut (e : Engine) : Acts (Sends now) e (handOut e p) :=
  (change e p (fun o => { o with attempted := true, counted := true }) .send).trans
    (of_eq rfl rfl rfl rfl rfl)

/-- INTERNAL: The PUBLISHes of a `Collect`. -/
theorem collectLoop (e : Engine) (now : Time) (fuel sent : ℕ) :
    Acts (Sends now) e (collectLoop now fuel sent e).1 := by
  induction fuel generalizing e sent with
  | zero => exact refl e
  | succ fuel ih =>
    unfold Program.collectLoop
    split
    · exact refl e
    · rename_i p _
      simp only
      split
      · exact refl e
      · split
        · exact refl e
        · split
          · exact (endFlow e p _).mono.trans (ih _ _)
          · split
            · exact (handOut p e).trans (ih _ _)
            · rename_i left hleft
              have hshort : Acts (Sends now) e (shorten e p left) := change e p _ (.shorten hleft)
              split
              · exact hshort.trans (putOutLocked _ p).mono
              · exact hshort.trans ((handOut p _).trans (ih _ _))

end Acts

end Mqttv5.Analysis
