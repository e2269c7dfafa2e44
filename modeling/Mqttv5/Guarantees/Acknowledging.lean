import Mqttv5.Interface.AckOrder
import Mqttv5.Analysis.Credit

/-!
# Acknowledgements leave in arrival order

`Inbound` is a run of the session together with the account of the current broker session. The
account starts anew when a connection reports the session lost, and when `Discard`, `Restore` or
a new process replaces it; the flows that come back from the store are kept apart.

In every run the flows whose first PUBACK or PUBREC has been handed out are the flows received
first, in arrival order; none of them is one the application has not acked; and when it has
acked them all, and no store write is left, a `Collect` hands out what is missing.
-/

set_option autoImplicit false

namespace Mqttv5.Guarantees

open Mqttv5.Computation Model Program Interface Analysis List

variable {e : Engine}

structure Inbound where
  sys : Sys
  account : Account := {}

/-- The records `Restore` is about to read back, when it does. -/
def restores (s : Sys) : Bool :=
  (s.loaded.bind fun x => restoreLocked s.eng x.1 x.2).isSome

/-- What a step adds to the account; `t` is the session after it. -/
def Inbound.after (w : Inbound) (a : Event) (t : Sys) : Account :=
  match a with
  | .receive id qos =>
    match (receive w.sys.eng id qos).2 with
    | .deliver h => { w.account with received := w.account.received ++ [h] }
    | _ => w.account
  | .ack h => { w.account with acked := w.account.acked ++ [h] }
  | .collect gen upTo now => { w.account with
      handed := w.account.handed ++ acksOf (Wire.controls (collect w.sys.eng gen upTo now).2) }
  | .collectControl gen => { w.account with
      handed := w.account.handed ++ acksOf (Wire.controls (collectControl w.sys.eng gen).2) }
  | .connected ci _ =>
    if w.sys.eng.failure = none ∧ ci.sessionPresent = false then {} else w.account
  | .restore => if restores w.sys then { restored := t.eng.inn.vals } else w.account
  | .discardLocked => {}
  | .restart => { restored := t.eng.inn.vals }
  | _ => w.account

def Inbound.step (w : Inbound) (a : Event) : Option Inbound :=
  (w.sys.step a).map fun t => { sys := t, account := w.after a t }

/-! ### What is handed out -/

/-- INTERNAL: The control loop ends flows, and registers none. -/
theorem collectControlLoop_inn (l : List CtrlFrame) (e : Engine) (i : PacketID) (x : InPtr)
    (h : (collectControlLoop l e).1.inn.get i = some x) : e.inn.get i = some x := by
  induction l generalizing e with
  | nil => exact h
  | cons c rest ih =>
    unfold collectControlLoop at h
    split at h
    · have hx := ih _ h
      unfold writeCtrl at hx
      split at hx
      · have hx : (e.inn.del c.id).get i = some x := hx
        rw [FiniteMap.get_del] at hx
        split at hx
        · cases hx
        · exact hx
      · exact hx
    · exact h

/-- INTERNAL: With no store write left nothing is held back. -/
theorem collectControlLoop_all (l : List CtrlFrame) (e : Engine) (h : ∀ k, e.queues k = []) :
    (collectControlLoop l e).1.ctrl = [] := by
  induction l generalizing e with
  | nil => rfl
  | cons c rest ih =>
    have hready : readyLocked e c = true := by
      simp [readyLocked, storedLocked, h]
    have hqueues : (writeCtrl e c).queues = e.queues := by
      unfold writeCtrl
      split <;> rfl
    unfold collectControlLoop
    rw [if_pos hready]
    refine ih _ fun k => ?_
    rw [hqueues]
    exact h k

theorem controls_map (l : List CtrlFrame) : Wire.controls (l.map .control) = l := by
  induction l with
  | nil => rfl
  | cons c rest ih => exact congrArg (c :: ·) ih

/-- What `r` hands out are the first of the acknowledgements queued in `e`. -/
structure Hands (e : Engine) (r : Engine × List Frame) : Prop where
  queue : (inbox e).acks = acksOf (Wire.controls r.2) ++ acksOf r.1.ctrl
  left : inbox r.1 = { inbox e with acks := acksOf r.1.ctrl, inn := r.1.inn }
  inn : ∀ i x, r.1.inn.get i = some x → e.inn.get i = some x

theorem Hands.nothing (e : Engine) : Hands e (e, []) := ⟨rfl, rfl, fun _ _ hx => hx⟩

theorem hands_collectControlLocked (e : Engine) : Hands e (collectControlLocked e) := by
  unfold collectControlLocked
  obtain ⟨pre, post, inn, hctrl, -, hloop⟩ := collectControlLoop_split e e.ctrl
  have hinn := collectControlLoop_inn e.ctrl e
  rw [hloop] at hinn ⊢
  refine ⟨?_, rfl, hinn⟩
  show acksOf e.ctrl = acksOf (Wire.controls (pre.map .control)) ++ acksOf post
  rw [controls_map, hctrl]
  exact filter_append _ _

theorem hands_collectControl (e : Engine) (gen : ℕ) : Hands e (collectControl e gen) := by
  unfold collectControl
  split
  · exact .nothing e
  · exact hands_collectControlLocked e

theorem hands_collect (e : Engine) (gen upTo : ℕ) (now : Time) :
    Hands e (collect e gen upTo now) := by
  unfold collect
  split
  · exact .nothing e
  · simp only
    have hc := hands_collectControlLocked { e with released := max e.released upTo }
    generalize collectControlLocked { e with released := max e.released upTo } = r at hc ⊢
    have hin := (Acts.collectLoop r.1 now r.1.pub.length 0).inside
    have hbox : inbox (collectLoop now r.1.pub.length 0 r.1).1 = inbox r.1 :=
      congrArg Inside.box hin
    have hctrl : (collectLoop now r.1.pub.length 0 r.1).1.ctrl = r.1.ctrl :=
      congrArg Inside.ctrl hin
    have hinn : (collectLoop now r.1.pub.length 0 r.1).1.inn = r.1.inn := congrArg Inbox.inn hbox
    refine ⟨?_, ?_, fun i x hx => hc.inn i x ?_⟩
    · simp only
      rw [controls_append, controls_collectLoop, append_nil, hctrl]
      exact hc.queue
    · simp only
      rw [hbox, hctrl, hinn]
      exact hc.left
    · rw [← hinn]
      exact hx

theorem collect_all {gen upTo : ℕ} {now : Time} (hserves : servesLocked e gen = true)
    (h : ∀ k, e.queues k = []) : (collect e gen upTo now).1.ctrl = [] := by
  have hall := collectControlLoop_all e.ctrl { e with released := max e.released upTo } h
  unfold collect
  rw [if_neg (by simp [hserves])]
  simp only
  refine Eq.trans (congrArg Inside.ctrl (Acts.collectLoop _ now _ 0).inside) ?_
  exact hall

/-! ### The account through a run -/

/-- What a run keeps: a session that has not failed has its account. -/
structure InboundInv (w : Inbound) : Prop where
  session : Session True w.sys
  order : firsts w.account.restored w.account.handed <+: w.account.received
  answered : ∀ c ∈ w.account.handed, answersPublish c = true →
    ∃ h, c.src = some (.inn h) ∧ w.account.Settled h
  live : w.sys.eng.failure = none →
    w.account.Tallies (inbox w.sys.eng) ∧ (inbox w.sys.eng).Open

namespace InboundInv

variable {w : Inbound} {t : Sys}

/-- INTERNAL: A session with its account. -/
theorem of_holds {w : Inbound} (hs : Session True w.sys) (hA : w.account.Tallies (inbox w.sys.eng))
    (hopen : (inbox w.sys.eng).Open) : InboundInv w :=
  ⟨hs, hA.handed_in_order, fun c hc => hA.frames c (mem_append_left _ hc), fun _ => ⟨hA, hopen⟩⟩

/-- INTERNAL: A session that has failed, with more acks of the application. -/
theorem of_failed (h : InboundInv w) (hs : Session True t) (hf : t.eng.failure ≠ none)
    {A : Account} (hrec : A.received = w.account.received) (hrest : A.restored = w.account.restored)
    (hhanded : A.handed = w.account.handed) (hacked : ∀ x ∈ w.account.acked, x ∈ A.acked) :
    InboundInv { sys := t, account := A } := by
  refine ⟨hs, ?_, ?_, fun hcon => absurd hcon hf⟩
  · simp only [hrest, hhanded, hrec]
    exact h.order
  · intro c hc hans
    simp only [hhanded] at hc
    obtain ⟨x, hx, hset⟩ := h.answered c hc hans
    refine ⟨x, hx, ?_⟩
    rcases hset with hset | hset
    · exact .inl (hacked x hset)
    · exact .inr (hrest ▸ hset)

/-- INTERNAL: A step the inbound flows take no part in. -/
theorem of_same (h : InboundInv w) (hs : Session True t)
    (hf : t.eng.failure = w.sys.eng.failure) (hbox : inbox t.eng = inbox w.sys.eng) :
    InboundInv { w with sys := t } := by
  refine ⟨hs, h.order, h.answered, fun hcon => ?_⟩
  have hlive := h.live (hf.symm.trans hcon)
  rw [show inbox ({ w with sys := t } : Inbound).sys.eng = inbox w.sys.eng from hbox]
  exact hlive

theorem open_of_nil {b : Inbox} (h : b.fifo = []) : b.Open := by
  intro x rest hx
  rw [h] at hx
  cases hx

section

variable (h : InboundInv w)
include h

theorem receive (id : PacketID) (qos : ℕ)
    (hs : Session True { w.sys with eng := (receive w.sys.eng id qos).1 }) :
    InboundInv
      { sys := { w.sys with eng := (Program.receive w.sys.eng id qos).1 }
        account := w.after (.receive id qos) t } := by
  have hf : (Program.receive w.sys.eng id qos).1.failure = w.sys.eng.failure :=
    same_failure (Answers.receive w.sys.eng id qos).statics
  rcases inbox_receive w.sys.eng id qos with ⟨heq, hnot⟩ | ⟨x, hget, hstate, -, hout, heq⟩ |
      ⟨hf0, -, hout, heq⟩
  · have hafter : w.after (.receive id qos) t = w.account := by
      simp only [Inbound.after]
    rw [hafter]
    exact h.of_same hs hf heq
  · have hafter : w.after (.receive id qos) t = w.account := by
      simp only [Inbound.after, hout]
    rw [hafter]
    by_cases hfail : w.sys.eng.failure = none
    · obtain ⟨hA, hopen⟩ := h.live hfail
      refine of_holds hs ?_ ?_
      · simp only [heq]
        exact hA.push_pubrec h.session.core.inbox hget hstate
      · simp only [heq]
        exact hopen
    · exact h.of_failed hs (hf ▸ hfail) rfl rfl rfl fun _ hx => hx
  · have hafter : w.after (.receive id qos) t =
        { w.account with received := w.account.received ++ [w.sys.eng.nextIn] } := by
      simp only [Inbound.after, hout]
    obtain ⟨hA, hopen⟩ := h.live hf0
    rw [hafter]
    refine of_holds hs ?_ ?_
    · simp only [heq]
      exact hA.register id qos
    · simp only [heq]
      intro x rest hx
      -- The new flow is the head only of an empty arrival order.
      have hx : w.sys.eng.fifo ++ [w.sys.eng.nextIn] = x :: rest := hx
      cases hfifo : w.sys.eng.fifo with
      | nil =>
        rw [hfifo] at hx
        obtain ⟨rfl, -⟩ := List.cons.inj hx
        simp [Inbox.register, inbox]
      | cons y l =>
        rw [hfifo] at hx
        obtain ⟨rfl, -⟩ := List.cons.inj hx
        have hmem : y ∈ (inbox w.sys.eng).fifo := by
          rw [show (inbox w.sys.eng).fifo = w.sys.eng.fifo from rfl, hfifo]
          exact mem_cons_self
        have hlt : y < (inbox w.sys.eng).size := by
          refine hA.bound y (.inl ?_)
          rw [hA.order]
          exact mem_append_right _ hmem
        have hold : ((inbox w.sys.eng).register id qos).ins y = (inbox w.sys.eng).ins y :=
          Function.update_of_ne hlt.ne _ _
        rw [hold]
        exact hopen y l hfifo

theorem ack {i : InPtr} (hi : i < w.sys.eng.nextIn)
    (hs : Session True { w.sys with eng := ack w.sys.eng i }) :
    InboundInv
      { sys := { w.sys with eng := Program.ack w.sys.eng i }
        account := { w.account with acked := w.account.acked ++ [i] } } := by
  by_cases hf : w.sys.eng.failure = none
  · obtain ⟨hA, hopen⟩ := h.live hf
    by_cases hcond : (w.sys.eng.ins i).dead = true ∨ (w.sys.eng.ins i).state ≠ .delivered
    · have heq : Program.ack w.sys.eng i = w.sys.eng := if_pos hcond
      have hmarked : i ∈ (inbox w.sys.eng).fifo → ((inbox w.sys.eng).ins i).state = .acked := by
        intro hmem
        obtain ⟨hget, hstate⟩ := h.session.core.inbox.waiting i hmem
        have halive := (h.session.core.inbox.reg _ i hget).2.2
        rcases hcond with hdead | hne
        · rw [show (w.sys.eng.ins i).dead = false from halive] at hdead
          cases hdead
        · exact hstate.resolve_left hne
      refine of_holds hs ?_ ?_
      · simp only [heq]
        exact hA.mark (b := inbox w.sys.eng) hi (fun _ _ => rfl) hmarked
      · simp only [heq]
        exact hopen
    · rw [not_or, not_not] at hcond
      have hdead : (w.sys.eng.ins i).dead = false := by simpa using hcond.1
      have heq : inbox (Program.ack w.sys.eng i) = Inbox.ackLoop w.sys.eng.fifo
          ((inbox w.sys.eng).setIn i fun x => { x with state := .acked }) := by
        rw [show Program.ack w.sys.eng i = ackLoop w.sys.eng.fifo
          (setIn w.sys.eng i fun x => { x with state := .acked }) from
          if_neg (by rw [not_or, not_not]; exact hcond), inbox_ackLoop]
        rfl
      obtain ⟨hA', hopen'⟩ := hA.ack h.session.core.inbox hi hdead hcond.2
      refine of_holds hs ?_ ?_
      · simp only [heq]
        exact hA'
      · simp only [heq]
        exact hopen'
  · have heq := h.session.core.ack_failed hf hi
    simp only [heq] at hs ⊢
    exact h.of_failed hs hf rfl rfl rfl fun x hx => mem_append_left _ hx

theorem pubrel (id : PacketID) (hs : Session True { w.sys with eng :=handlePubrel w.sys.eng id }) :
    InboundInv { w with sys := { w.sys with eng := handlePubrel w.sys.eng id } } := by
  have hf : (handlePubrel w.sys.eng id).failure = w.sys.eng.failure :=
    same_failure (Answers.handlePubrel w.sys.eng id).statics
  rcases inbox_handlePubrel w.sys.eng id with heq | ⟨hf0, -, heq⟩ | ⟨x, hf0, hget, hstate, heq⟩
  · exact h.of_same hs hf heq
  · obtain ⟨hA, hopen⟩ := h.live hf0
    refine of_holds hs ?_ ?_
    · simp only [heq]
      exact hA.push_notFound id
    · simp only [heq]
      exact hopen
  · obtain ⟨hA, hopen⟩ := h.live hf0
    refine of_holds hs ?_ ?_
    · simp only [heq]
      exact hA.release h.session.core.inbox hget hstate
    · simp only [heq]
      intro y rest hy
      have hne : y ≠ x := by
        rintro rfl
        have hmem : y ∈ (inbox w.sys.eng).fifo := by
          rw [show (inbox w.sys.eng).fifo = y :: rest from hy]
          exact mem_cons_self
        rcases (h.session.core.inbox.waiting y hmem).2 with hst | hst
        · rw [show (w.sys.eng.ins y).state = .delivered from hst] at hstate
          cases hstate
        · rw [show (w.sys.eng.ins y).state = .acked from hst] at hstate
          cases hstate
      have hold : ((inbox w.sys.eng).release id x).ins y = (inbox w.sys.eng).ins y :=
        Function.update_of_ne hne _ _
      rw [hold]
      exact hopen y rest hy

theorem connected {ci : ConnInfo} {now : Time} (ht : t.eng = connected w.sys.eng ci now)
    (hf : w.sys.eng.failure = none) (hs : Session True t) :
    InboundInv { sys := t, account := w.after (.connected ci now) t } := by
  obtain ⟨hA, hopen⟩ := h.live hf
  have hbox := inbox_connected w.sys.eng ci now hf
  rw [← ht] at hbox
  by_cases hp : ci.sessionPresent = true
  · rw [if_pos hp] at hbox
    have hafter : w.after (.connected ci now) t = w.account := by
      simp only [Inbound.after]
      exact if_neg fun hcon => by rw [hp] at hcon; cases hcon.2
    rw [hafter]
    refine of_holds hs ?_ ?_
    · simp only [hbox]
      exact hA
    · simp only [hbox]
      exact hopen
  · rw [if_neg hp] at hbox
    have hafter : w.after (.connected ci now) t = {} := by
      simp only [Inbound.after]
      exact if_pos ⟨hf, by simpa using hp⟩
    rw [hafter]
    refine of_holds hs ?_ ?_
    · simp only [hbox]
      exact .clear _
    · simp only [hbox]
      exact open_of_nil rfl

/-- INTERNAL: The writer is handed what may go. -/
theorem handed {r : Engine × List Frame} (hr : Hands w.sys.eng r)
    (hstat : statics r.1 = statics w.sys.eng)
    (hfailed : w.sys.eng.failure ≠ none → r = (w.sys.eng, []))
    (hs : Session True (w.sys.handed r)) :
    InboundInv
      { sys := w.sys.handed r
        account := { w.account with
          handed := w.account.handed ++ acksOf (Wire.controls r.2) } } := by
  by_cases hf : w.sys.eng.failure = none
  · obtain ⟨hA, hopen⟩ := h.live hf
    refine of_holds hs ?_ ?_
    · show Account.Tallies _ (inbox r.1)
      rw [hr.left]
      exact hA.handOut hr.queue hr.inn
    · show (inbox r.1).Open
      rw [hr.left]
      exact hopen
  · have hnone := hfailed hf
    subst hnone
    exact h.of_failed hs hf rfl rfl (append_nil _) fun _ hx => hx

end

/-- INTERNAL: A session without flows answers no PUBLISH. -/
theorem acks_of_empty (hs : (inbox e).Sound) (hinn : ∀ id, e.inn.get id = none) :
    (inbox e).fifo = [] ∧ ∀ c ∈ (inbox e).acks, answersPublish c = false := by
  refine ⟨?_, fun c hc => ?_⟩
  · cases hfifo : (inbox e).fifo with
    | nil => rfl
    | cons x rest =>
      have hget := (hs.waiting x (head_mem hfifo)).1
      have hget : e.inn.get (e.ins x).id = some x := hget
      rw [hinn] at hget
      cases hget
  · have howes := (Inbox.owes_none (b := inbox e) (hinn c.id)).mp (hs.owes c.id)
    rw [howes c (mem_filter.mpr ⟨hc, by simp⟩)]
    rfl

/-- INTERNAL: The account of a session that comes back from the store. -/
theorem of_restored {m : Meta} {recs : List Record} (hsound : (inbox e).Sound)
    (hs : Session True t) (he : restoreLocked e m recs = some t.eng) :
    InboundInv { sys := t, account := { restored := t.eng.inn.vals } } := by
  obtain ⟨-, hinn, -⟩ := restoreLocked_some he
  obtain ⟨⟨sorted, hothers⟩, -⟩ := restoreLocked_frame he
  obtain ⟨hfifo, hacks⟩ := acks_of_empty hsound hinn
  have hctrl := congrArg Engine.ctrl hothers
  have hctrl : t.eng.ctrl = e.ctrl := hctrl
  have hfifo' := congrArg Engine.fifo hothers
  have hfifo' : t.eng.fifo = e.fifo := hfifo'
  have hnil : (inbox t.eng).fifo = [] := hfifo'.trans hfifo
  refine of_holds hs (.of_restored hs.core.inbox hnil fun c hc => hacks c ?_) (open_of_nil hnil)
  have hc : c ∈ acksOf t.eng.ctrl := hc
  rw [hctrl] at hc
  exact hc

/-- INTERNAL: **Every step keeps the account.** -/
theorem step (h : InboundInv w) {w' : Inbound} {a : Event} (ha : AtRest True w.sys a)
    (hstep : w.step a = some w') : InboundInv w' := by
  obtain ⟨u, hu, rfl⟩ := Option.map_eq_some_iff.mp hstep
  have hs := h.session.step ha hu
  by_cases haside : aside a = true
  · have hafter : w.after a u = w.account := by
      cases a <;> first | rfl | cases haside
    rw [hafter]
    rcases aside_step haside hu with hun | ⟨hf, -⟩
    · exact h.of_same hs hun.failure hun.inbox
    · exact h.of_failed hs hf rfl rfl rfl fun _ hx => hx
  unfold Sys.step at hu
  rw [if_neg (by simp [h.session.core.running])] at hu
  cases a with
  | receive id qos =>
    cases hu
    exact h.receive id qos hs
  | ack i =>
    obtain ⟨hi, ⟨⟩⟩ := Option.ite_none_right_eq_some.mp hu
    exact h.ack hi hs
  | pubrel id =>
    cases hu
    exact h.pubrel id hs
  | connected ci now =>
    simp only at hu
    split at hu
    · rename_i hfail
      cases hu
      have hafter : w.after (.connected ci now) w.sys = w.account := by
        simp only [Inbound.after]
        refine if_neg fun hcon => ?_
        rw [hcon.1] at hfail
        cases hfail
      rw [hafter]
      exact h
    · rename_i hf
      cases hu
      exact h.connected rfl (by simpa using hf) hs
  | disconnected l =>
    cases hu
    have hf : (disconnected w.sys.eng l).failure = w.sys.eng.failure := by
      unfold disconnected
      split <;> rfl
    exact h.of_same hs hf (congrArg Inside.box (inside_disconnected w.sys.eng l))
  | collect gen upTo now =>
    cases hu
    exact h.handed (hands_collect _ gen upTo now) (statics_collect _ _ _ _)
      (fun hf => collect_of_not_serves _ _ _ _ (Core.not_serves_failed hf gen)) hs
  | collectControl gen =>
    cases hu
    refine h.handed (hands_collectControl _ gen) (Inward.collectControl _ _).statics
      (fun hf => ?_) hs
    unfold collectControl
    rw [if_pos (by simp [Core.not_serves_failed hf])]
  | restore =>
    simp only at hu
    split at hu
    · rename_i m recs hloaded
      split at hu
      · rename_i e he
        cases hu
        have hafter : w.after .restore { w.sys with eng := e, loaded := none } =
            { restored := e.inn.vals } := by
          simp only [Inbound.after]
          exact if_pos (by simp [restores, hloaded, he])
        rw [hafter]
        exact of_restored h.session.core.inbox hs he
      · rename_i he
        cases hu
        have hafter : w.after .restore { w.sys with loaded := none } = w.account := by
          simp only [Inbound.after]
          exact if_neg (by simp [restores, hloaded, he])
        rw [hafter]
        exact h.of_same hs rfl rfl
    · cases hu
  | discardLocked =>
    obtain ⟨-, ⟨⟩⟩ := Option.ite_none_right_eq_some.mp hu
    obtain ⟨hd, -⟩ := h.session.core.discarded ha.1
    refine of_holds hs ?_ ?_
    · show Account.Tallies {} (inbox (discardLocked w.sys.eng).1)
      rw [hd.inbox]
      exact .clear _
    · show (inbox (discardLocked w.sys.eng).1).Open
      rw [hd.inbox]
      exact open_of_nil rfl
  | restart =>
    obtain ⟨e, he, rfl⟩ := Option.map_eq_some_iff.mp hu
    exact of_restored (e := new w.sys.eng.cfg w.sys.eng.ids.max) (Inbox.Sound.empty _) hs he
  | _ => exact absurd rfl haside

end InboundInv

/-- **Acknowledgements leave in arrival order.** In every run, of the broker session the client
is in: the flows whose first PUBACK or PUBREC has been handed out are the first of the flows
received, in arrival order; every PUBACK and PUBREC handed out is for a flow the application has
acked (or an earlier process had, before the flow came back from the store); and when the
application has acked every flow received and no store write is left, a `Collect` of the
connection's writer leaves no flow without its first PUBACK or PUBREC. -/
theorem acks_leave_in_arrival_order {cfg : Config} {max : ℕ} (hmax : 0 < max) {w : Inbound}
    (hrun : Reach Inbound.step (fun w a => AtRest True w.sys a)
      (· = { sys := Sys.init cfg max }) w) :
    firsts w.account.restored w.account.handed <+: w.account.received ∧
    (∀ c ∈ w.account.handed, answersPublish c = true →
      ∃ h, c.src = some (.inn h) ∧ (h ∈ w.account.acked ∨ h ∈ w.account.restored)) ∧
    ∀ gen upTo now w', servesLocked w.sys.eng gen = true → (∀ k, w.sys.eng.queues k = []) →
      (∀ h ∈ w.account.received, h ∈ w.account.acked) →
      w.step (.collect gen upTo now) = some w' →
      firsts w'.account.restored w'.account.handed = w'.account.received ∧
        w'.account.received = w.account.received := by
  have hinv : InboundInv w := by
    refine hrun.invariant InboundInv ?_ fun w a w' hw ha hstep => hw.step ha hstep
    rintro _ rfl
    refine .of_holds (Session.init cfg hmax) (.of_empty (fun _ => FiniteMap.get_empty _) rfl ?_)
      (InboundInv.open_of_nil rfl)
    intro c hc
    cases hc
  refine ⟨hinv.order, hinv.answered, fun gen upTo now w' hserves hidle hall hstep => ?_⟩
  have hf : w.sys.eng.failure = none := by
    by_contra hcon
    rw [Core.not_serves_failed hcon] at hserves
    cases hserves
  obtain ⟨u, -, rfl⟩ := Option.map_eq_some_iff.mp hstep
  obtain ⟨hA, hopen⟩ := hinv.live hf
  have hqueue := (hands_collect w.sys.eng gen upTo now).queue
  rw [collect_all hserves hidle, show acksOf [] = [] from rfl, List.append_nil] at hqueue
  refine ⟨?_, rfl⟩
  show firsts w.account.restored
    (w.account.handed ++ acksOf (Wire.controls (collect w.sys.eng gen upTo now).2)) = _
  rw [← hqueue]
  exact (hA.all_queued hopen hall).symm

/-- A QoS 2 message, then a QoS 1 message, acked in the other order; the QoS 2 message is sent
again, and its record is stored late. -/
def ackedBackwards : List Event :=
  [.connected { sessionPresent := false, receiveMaximum := 9, link := 7 } 0, .receive 5 2,
    .receive 6 1, .ack 1, .collect 1 9 0, .ack 0, .receive 5 2, .collect 1 9 0,
    .doStore (inKey 5) none true, .finish (inKey 5), .report, .collect 1 9 0]

/-- The acknowledgements of `ackedBackwards` leave in arrival order. -/
theorem backwards_leave_in_order :
    ∃ w, execute Inbound.step { sys := Sys.init { store := true } 3 } ackedBackwards = some w ∧
      w.account.handed.map (fun c => (c.typ, c.id)) = [(.PUBREC, 5), (.PUBACK, 6), (.PUBREC, 5)] ∧
      firsts w.account.restored w.account.handed <+: w.account.received ∧
      w.account.received = [0, 1] ∧ w.account.acked = [1, 0] := by
  have hrun : (execute Inbound.step { sys := Sys.init { store := true } 3 } ackedBackwards).any
      (fun w => w.account.handed.map (fun c => (c.typ, c.id)) =
          [(.PUBREC, 5), (.PUBACK, 6), (.PUBREC, 5)] ∧
        w.account.received = [0, 1] ∧ w.account.acked = [1, 0]) = true := by decide
  obtain ⟨w, hw, hP⟩ := exists_of_execute hrun
  simp only [decide_eq_true_eq] at hP
  obtain ⟨hhanded, hrec, hacked⟩ := hP
  have hreach : Reach Inbound.step (fun w a => AtRest True w.sys a)
      (· = { sys := Sys.init { store := true } 3 }) w :=
    Reach.of_execute (fun _ _ h => atRest_of_plain (of_decide_eq_true h)) (.start rfl)
      (show meets Inbound.step (fun _ a => decide (a ≠ .restore ∧ a ≠ .discardLocked)) _
        ackedBackwards = true by decide) hw
  exact ⟨w, hw, hhanded, (acks_leave_in_arrival_order (by decide) hreach).1, hrec, hacked⟩

end Mqttv5.Guarantees
