import Mqttv5.Analysis.Told
import Mqttv5.Model.Broker

/-!
# What the broker's quota accounts for

While no exchange of an earlier connection is left, every inbound flow of the session is paid
for by a PUBLISH of the current connection: the flows registered, the PUBLISHes on their way to
the client, the final acknowledgements on their way back and the broker's quota never add up to
more than the client's Receive Maximum. An inbound flow is registered by one PUBLISH, and goes
when its PUBACK or PUBCOMP is handed to the writer.
-/

set_option autoImplicit false

namespace Mqttv5.Analysis

open Mqttv5.Computation Model Program Interface List

variable {e e' : Engine} {a : Event}

/-- Every acknowledgement owed is that of a flow: none answers a PUBREL without one. -/
def Solicited (b : Inbox) : Prop := ∀ c ∈ b.acks, c ≠ notFound c.id

theorem Solicited.push {b : Inbox} (h : Solicited b) {c : CtrlFrame} (hc : c ≠ notFound c.id) :
    Solicited (b.push c) := by
  intro x hx
  rcases mem_append.mp hx with hx | hx
  · exact h x hx
  · rw [mem_singleton.mp hx]
    exact hc

theorem pubackOf_ne (id h : ℕ) : pubackOf id h ≠ notFound (pubackOf id h).id := by
  simp [pubackOf, notFound]

theorem pubrecOf_ne (id h : ℕ) : pubrecOf id h ≠ notFound (pubrecOf id h).id := by
  simp [pubrecOf, notFound]

theorem pubcompOf_ne (id h : ℕ) : pubcompOf id h ≠ notFound (pubcompOf id h).id := by
  simp [pubcompOf, notFound]

/-- The loop of `ack` registers no flow and ends none. -/
theorem ackLoop_keeps (l : List ℕ) (b : Inbox) : (Inbox.ackLoop l b).inn = b.inn ∧
    (Solicited b → Solicited (Inbox.ackLoop l b)) := by
  induction l generalizing b with
  | nil => exact ⟨rfl, fun h => h⟩
  | cons x rest ih =>
    unfold Inbox.ackLoop
    split
    · have hhead : (b.ackHead x).inn = b.inn ∧ (Solicited b → Solicited (b.ackHead x)) := by
        unfold Inbox.ackHead
        split
        · exact ⟨rfl, fun h => h.push (pubackOf_ne _ _)⟩
        · exact ⟨rfl, fun h => Solicited.push (b := b.setIn x _) h (pubrecOf_ne _ _)⟩
      exact ⟨(ih _).1.trans hhead.1, fun h => (ih _).2 (hhead.2 h)⟩
    · exact ⟨rfl, fun h => h⟩

/-! ### Handing acknowledgements out -/

theorem controls_append (l l' : List Frame) :
    Wire.controls (l ++ l') = Wire.controls l ++ Wire.controls l' := filterMap_append

/-- The PUBLISH loop hands no control frame out. -/
theorem controls_collectLoop (now : Time) (fuel sent : ℕ) (e : Engine) :
    Wire.controls (collectLoop now fuel sent e).2 = [] := by
  induction fuel generalizing e sent with
  | zero => rfl
  | succ fuel ih =>
    unfold collectLoop
    split
    · rfl
    · simp only
      split
      · rfl
      · split
        · rfl
        · split
          · exact ih _ _
          · split
            · exact ih _ _
            · split
              · rfl
              · exact ih _ _

/-- The frame at the head of the control queue ends a flow exactly when it gives the
broker's quota back. -/
theorem writeCtrl_credit (e : Engine) (c : CtrlFrame) (rest : List CtrlFrame)
    (hs : (inbox { e with ctrl := c :: rest }).Sound)
    (hsol : Solicited (inbox { e with ctrl := c :: rest })) :
    (writeCtrl e c).inn.len + (if Wire.returnsQuota c then 1 else 0) = e.inn.len := by
  by_cases hrel : c.typ = .PUBREL
  · simp [writeCtrl, Wire.returnsQuota, hrel]
  · have hacks : (inbox { e with ctrl := c :: rest }).acks = c :: acksOf rest := by
      simp [inbox, acksOf, hrel]
    have hend : ∀ h, e.inn.get c.id = some h → c.inn = some h →
        (c.typ = .PUBACK ∨ c.typ = .PUBCOMP) →
        (writeCtrl e c).inn.len + (if Wire.returnsQuota c then 1 else 0) = e.inn.len := by
      intro h hget hinn htyp
      have hret : Wire.returnsQuota c = true := by
        rcases htyp with htyp | htyp <;> simp [Wire.returnsQuota, htyp]
      have hwrite : writeCtrl e c = { e with inn := e.inn.del c.id } :=
        if_pos ⟨htyp, by simp [hinn], hget.trans hinn.symm⟩
      rw [hwrite, if_pos hret]
      exact FiniteMap.len_del hget
    rcases hs.head_cases hacks with hc | ⟨h, hget, -, -, hc⟩ | ⟨h, -, -, -, hc⟩ |
        ⟨h, hget, -, -, hc⟩
    · exact absurd hc (hsol c (by rw [hacks]; exact mem_cons_self))
    · exact hend h hget (by rw [hc]; rfl) (.inl (by rw [hc]; rfl))
    · -- A PUBREC without an error leaves its flow.
      have htyp : c.typ = .PUBREC := by rw [hc]; rfl
      have hrc : c.rc = .success := by rw [hc]; rfl
      simp [writeCtrl, Wire.returnsQuota, htyp, hrc, ReasonCode.isError, ReasonCode.success]
    · exact hend h hget (by rw [hc]; rfl) (.inr (by rw [hc]; rfl))

theorem collectControlLoop_credit (l : List CtrlFrame) (e : Engine)
    (hs : (inbox { e with ctrl := l }).Sound) (hsol : Solicited (inbox { e with ctrl := l })) :
    Solicited (inbox (collectControlLoop l e).1) ∧
    (collectControlLoop l e).1.inn.len +
      (Wire.controls (collectControlLoop l e).2).countP Wire.returnsQuota = e.inn.len := by
  induction l generalizing e with
  | nil => exact ⟨hsol, rfl⟩
  | cons c rest ih =>
    have hcredit := writeCtrl_credit e c rest hs hsol
    have hs' : (inbox { writeCtrl e c with ctrl := rest }).Sound := by
      rw [inbox_writeCtrl]
      split
      · exact hs
      · exact hs.write
    have hsol' : Solicited (inbox { writeCtrl e c with ctrl := rest }) := by
      intro x hx
      refine hsol x ?_
      have hx : x ∈ acksOf rest := hx
      show x ∈ acksOf (c :: rest)
      exact mem_filter.mpr ⟨mem_cons_of_mem _ (mem_filter.mp hx).1,
        (mem_filter.mp hx).2⟩
    unfold collectControlLoop
    split
    · obtain ⟨hkeep, hsum⟩ := ih (writeCtrl e c) hs' hsol'
      refine ⟨hkeep, ?_⟩
      have hcons : Wire.controls (.control c :: (collectControlLoop rest (writeCtrl e c)).2) =
          c :: Wire.controls (collectControlLoop rest (writeCtrl e c)).2 := rfl
      show (collectControlLoop rest (writeCtrl e c)).1.inn.len + _ = _
      rw [hcons, countP_cons]
      omega
    · exact ⟨hsol, rfl⟩

/-- What `Collect` and `CollectControl` hand out, against the flows they end. -/
theorem handedOut_credit {e : Engine} (hs : (inbox e).Sound) (hsol : Solicited (inbox e)) :
    (∀ gen, Solicited (inbox (collectControl e gen).1) ∧ (collectControl e gen).1.inn.len +
      (Wire.controls (collectControl e gen).2).countP Wire.returnsQuota = e.inn.len) ∧
    ∀ gen upTo now, Solicited (inbox (collect e gen upTo now).1) ∧
      (collect e gen upTo now).1.inn.len +
      (Wire.controls (collect e gen upTo now).2).countP Wire.returnsQuota = e.inn.len := by
  refine ⟨?_, ?_⟩
  · intro gen
    unfold collectControl
    split
    · exact ⟨hsol, rfl⟩
    · exact collectControlLoop_credit e.ctrl e hs hsol
  · intro gen upTo now
    unfold collect
    split
    · exact ⟨hsol, rfl⟩
    · simp only
      obtain ⟨hkeep, hsum⟩ :=
        collectControlLoop_credit e.ctrl { e with released := max e.released upTo } hs hsol
      generalize hr : collectControlLocked { e with released := max e.released upTo } = r
      rw [show collectControlLoop e.ctrl { e with released := max e.released upTo } = r from hr]
        at hkeep hsum
      have hbox : inbox (collectLoop now r.1.pub.length 0 r.1).1 = inbox r.1 :=
        congrArg Inside.box (Acts.collectLoop r.1 now r.1.pub.length 0).inside
      have hinn : (collectLoop now r.1.pub.length 0 r.1).1.inn = r.1.inn := congrArg Inbox.inn hbox
      rw [controls_append, controls_collectLoop, append_nil, hbox, hinn]
      exact ⟨hkeep, hsum⟩

/-! ### The steps the inbound flows take no part in -/

structure Untouched (e e' : Engine) : Prop where
  gen : e'.gen = e.gen
  failure : e'.failure = e.failure
  inbox : inbox e' = inbox e

theorem Untouched.of_views (hs : statics e' = statics e)
    (hin : inside e' = inside e) : Untouched e e' :=
  ⟨same_gen hs, same_failure hs, congrArg Inside.box hin⟩

theorem Untouched.of_acts (h : Acts Never e e') : Untouched e e' :=
  .of_views h.statics h.inside

theorem Untouched.of_stage (e : Engine) (k : RecordKey) (st : Stage) :
    Untouched e (setStage e k st) :=
  ⟨same_gen (statics_setStage e k st), same_failure (statics_setStage e k st),
    inbox_setStage e k st⟩

/-- The steps that leave the inbound flows and the connection alone, unless the session fails. -/
def aside : Event → Bool
  | .receive _ _ | .ack _ | .pubrel _ | .connected _ _ | .disconnected _ | .collect _ _ _
  | .collectControl _ | .restore | .discardLocked | .restart => false
  | _ => true

theorem aside_step {s t : Sys} (ha : aside a = true) (hstep : s.step a = some t) :
    Untouched s.eng t.eng ∨ t.eng.failure ≠ none ∧ t.eng.gen = s.eng.gen := by
  cases (stepped hstep).2 with
  | releaseID => exact .inl (.of_acts (.releaseLocked _ _ _))
  | register => exact .inl (.of_views (statics_register _ _ _) (inside_register _ _ _))
  | withdraw => exact .inl (.of_acts (.withdraw _ _))
  | adopt => exact .inl (.of_acts (.adopt _ _ _))
  | puback => exact .inl (.of_acts (.handlePuback _ _ _ _))
  | pubrec id rc refused =>
    have hs := statics_handlePubrec s.eng id rc refused
    refine Or.inl ⟨same_gen hs, same_failure hs, ?_⟩
    rcases inside_handlePubrec s.eng id rc refused with heq | ⟨rc', g, src, heq⟩
    · exact congrArg Inside.box heq
    · exact congrArg Inside.box heq
  | pubcomp => exact .inl (.of_acts (.handlePubcomp _ _))
  | callSettle | settleFailed | settled | ranAlone | ranStore => exact .inl (.of_stage _ _ _)
  | finish k j rest res hq hstage =>
    rcases Core.finishJob_cases s.eng k j res with ⟨-, ⟨-, heq⟩ | ⟨err, -, heq⟩⟩ | ⟨-, heq⟩
    · left
      show Untouched s.eng (finishJob s.eng k j res)
      rw [heq]
      have hs := (Acts.afterJob s.eng j res).statics
      exact ⟨same_gen hs, same_failure hs,
        congrArg Inside.box (Acts.afterJob s.eng j res).inside⟩
    · right
      show (finishJob s.eng k j res).failure ≠ none ∧ (finishJob s.eng k j res).gen = s.eng.gen
      rw [heq]
      obtain ⟨hfail, -, hgen, -⟩ := failLocked_frame (popJob (afterJob s.eng j res).1 k) err
      exact ⟨hfail, hgen.trans (same_gen (Acts.afterJob s.eng j res).statics)⟩
    · left
      show Untouched s.eng (finishJob s.eng k j res)
      rw [heq]
      exact ⟨rfl, rfl, rfl⟩
  | setMetaFailed m err =>
    obtain ⟨hfail, -, hgen, -⟩ := failLocked_frame s.eng (setMetaError err)
    exact .inr ⟨hfail, hgen⟩
  | receive | ack | pubrel | connectedFailed | connected | disconnected | collect | collectControl
  | restored | notRestored | discardLocked | restart => cases ha
  | _ => exact .inl ⟨rfl, rfl, rfl⟩

/-! ### The account -/

/-- No exchange of an earlier connection is left when the session is resumed, neither with the
client nor, as a PUBREL the client knows nothing of, with the broker. -/
def Unencumbered (w : Wire) : Move → Prop
  | .client (.connected ci _) => ci.sessionPresent = true → w.sys.eng.inn.len = 0
  | .client a => AtRest True w.sys a
  | .arrive => ∀ id rest, w.sys.eng.failure = none → w.down = .pubrel id :: rest →
      ∃ h, w.sys.eng.inn.get id = some h ∧
        ((w.sys.eng.ins h).state = .awaitPubrel ∨ (w.sys.eng.ins h).state = .released)
  | _ => True

structure Within (w : Wire) : Prop where
  session : Session True w.sys
  solicited : Solicited (inbox w.sys.eng)
  quiet : w.sys.eng.gen = 0 → w.down = []
  sum : w.sys.eng.gen ≠ 0 → w.sys.eng.failure = none →
    w.quota + w.down.countP Wire.isPublish + w.sys.eng.inn.len + w.up.countP Wire.returnsQuota ≤
      Wire.maximum w.sys.eng.cfg

namespace Within

variable {w w' : Wire}

/-- A failed session owes nothing. -/
theorem of_failed (hsess : Session True w'.sys) (hf : w'.sys.eng.failure ≠ none)
    (hquiet : w'.sys.eng.gen = 0 → w'.down = []) : Within w' := by
  refine ⟨hsess, ?_, hquiet, fun _ hcon => absurd hcon hf⟩
  intro c hc
  have hc : c ∈ acksOf w'.sys.eng.ctrl := hc
  rw [(hsess.core.dead hf).ctrl] at hc
  cases hc

/-- Between two connections there is nothing to account for. -/
theorem of_unbound (hsess : Session True w'.sys) (hsol : Solicited (inbox w'.sys.eng))
    (hgen : w'.sys.eng.gen = 0) (hdown : w'.down = []) : Within w' :=
  ⟨hsess, hsol, fun _ => hdown, fun hg => absurd hgen hg⟩

/-- A step on one connection that adds nothing to the account. -/
theorem mono (h : Within w) (hsess : Session True w'.sys) (hsol : Solicited (inbox w'.sys.eng))
    (hcfg : w'.sys.eng.cfg = w.sys.eng.cfg) (hgen : w'.sys.eng.gen = w.sys.eng.gen)
    (hfail : w'.sys.eng.failure = w.sys.eng.failure) (hquiet : w'.sys.eng.gen = 0 → w'.down = [])
    (hsum : w'.quota + w'.down.countP Wire.isPublish + w'.sys.eng.inn.len +
        w'.up.countP Wire.returnsQuota ≤
      w.quota + w.down.countP Wire.isPublish + w.sys.eng.inn.len +
        w.up.countP Wire.returnsQuota) : Within w' := by
  refine ⟨hsess, hsol, hquiet, ?_⟩
  intro hg hf
  rw [hcfg]
  exact hsum.trans (h.sum (fun hz => hg (hgen.trans hz)) (hfail.symm.trans hf))

theorem of_untouched (h : Within w) {t : Sys} (hsess : Session True t)
    (hcfg : t.eng.cfg = w.sys.eng.cfg) (hu : Untouched w.sys.eng t.eng) :
    Within { w with sys := t } := by
  have hinn : t.eng.inn = w.sys.eng.inn := congrArg Inbox.inn hu.inbox
  have hsol : Solicited (inbox t.eng) := by
    rw [hu.inbox]
    exact h.solicited
  refine h.mono hsess hsol hcfg hu.gen hu.failure
    (fun hz => h.quiet (hu.gen.symm.trans hz)) ?_
  show w.quota + _ + t.eng.inn.len + _ ≤ _
  rw [hinn]

/-! ### The moves of the client -/

theorem after_aside (t : Sys) (ha : aside a = true) :
    w.after t a = { w with sys := t } := by
  cases a <;> simp_all [aside, Wire.after, Wire.handedOut, Wire.controls]

theorem ack (h : Within w) {i : InPtr} (hsess : Session True { w.sys with eng := ack w.sys.eng i })
    {up : List CtrlFrame} (hup : up = w.up) :
    Within { w with sys := { w.sys with eng := Program.ack w.sys.eng i }, up := up } := by
  subst hup
  have hs := (Answers.ack w.sys.eng i).statics
  have hkeep : Solicited (inbox (Program.ack w.sys.eng i)) ∧
      (inbox (Program.ack w.sys.eng i)).inn = (inbox w.sys.eng).inn := by
    rcases inbox_ack w.sys.eng i with heq | ⟨-, -, heq⟩
    · rw [heq]
      exact ⟨h.solicited, rfl⟩
    · rw [heq]
      obtain ⟨hinn, hsol⟩ := ackLoop_keeps w.sys.eng.fifo
        ((inbox w.sys.eng).setIn i fun x => { x with state := .acked })
      exact ⟨hsol h.solicited, hinn⟩
  refine h.mono hsess hkeep.1 (same_cfg hs) (same_gen hs)
    (same_failure hs) (fun hz => h.quiet ((same_gen hs).symm.trans hz)) ?_
  show w.quota + _ + (Program.ack w.sys.eng i).inn.len + _ ≤ _
  rw [show (Program.ack w.sys.eng i).inn = w.sys.eng.inn from hkeep.2]

/-- A connection starts with no flow registered. -/
theorem connected (h : Within w) {ci : ConnInfo} {now : Time} {t : Sys}
    (hf : w.sys.eng.failure = none)
    (hm : ci.sessionPresent = true → w.sys.eng.inn.len = 0) (hsess : Session True t)
    (ht : t.eng = connected w.sys.eng ci now) :
    Within { sys := t, quota := Wire.maximum t.eng.cfg } := by
  have hin := inbox_connected w.sys.eng ci now hf
  rw [← ht] at hin
  have hinn : t.eng.inn = (inbox t.eng).inn := rfl
  by_cases hpresent : ci.sessionPresent = true
  · rw [if_pos hpresent] at hin
    refine ⟨hsess, ?_, fun _ => rfl, ?_⟩
    · show Solicited (inbox t.eng)
      rw [hin]
      exact h.solicited
    · intro _ _
      show Wire.maximum t.eng.cfg + 0 + t.eng.inn.len + 0 ≤ Wire.maximum t.eng.cfg
      rw [hinn, hin, show (inbox w.sys.eng).inn.len = 0 from hm hpresent]
      exact le_rfl
  · rw [if_neg hpresent] at hin
    refine ⟨hsess, ?_, fun _ => rfl, ?_⟩
    · show Solicited (inbox t.eng)
      rw [hin]
      intro c hc
      cases hc
    · intro _ _
      show Wire.maximum t.eng.cfg + 0 + t.eng.inn.len + 0 ≤ Wire.maximum t.eng.cfg
      rw [hinn, hin]
      exact le_rfl

/-- What the writer is handed is paid for by the flows that end. -/
theorem handed (h : Within w) {r : Engine × List Frame} (hs : statics r.1 = statics w.sys.eng)
    (hsess : Session True (w.sys.handed r)) (hsol : Solicited (inbox r.1))
    (hsum : r.1.inn.len + (Wire.controls r.2).countP Wire.returnsQuota = w.sys.eng.inn.len) :
    Within { w with sys := w.sys.handed r, up := w.up ++ Wire.controls r.2 } := by
  refine h.mono hsess hsol (same_cfg hs) (same_gen hs)
    (same_failure hs) (fun hz => h.quiet ((same_gen hs).symm.trans hz)) ?_
  show w.quota + w.down.countP Wire.isPublish + r.1.inn.len +
    (w.up ++ Wire.controls r.2).countP Wire.returnsQuota ≤ _
  rw [countP_append]
  omega

/-- A restored session owes what it owed. -/
theorem solicited_restored {m : Meta} {recs : List Record}
    (h : Solicited (inbox e)) (he : restoreLocked e m recs = some e') : Solicited (inbox e') := by
  obtain ⟨⟨sorted, hothers⟩, -⟩ := restoreLocked_frame he
  have hctrl := congrArg Engine.ctrl hothers
  have hctrl : e'.ctrl = e.ctrl := hctrl
  intro c hc
  have hc : c ∈ acksOf e'.ctrl := hc
  rw [hctrl] at hc
  exact h c hc

theorem client (h : Within w) (hm : Unencumbered w (.client a))
    (hstep : w.step (.client a) = some w') : Within w' := by
  unfold Wire.step at hstep
  simp only at hstep
  split at hstep
  · cases hstep
  rename_i harr
  obtain ⟨t, ht, rfl⟩ := Option.map_eq_some_iff.mp hstep
  have hrest : AtRest True w.sys a := by
    cases a with
    | connected ci now => trivial
    | _ => exact hm
  have hsess := h.session.step hrest ht
  have hcfg := h.session.cfg_eq hrest ht
  by_cases haside : aside a = true
  · rw [after_aside t haside]
    rcases aside_step haside ht with hu | ⟨hf, hgen⟩
    · exact h.of_untouched hsess hcfg hu
    · exact of_failed hsess hf fun hz => h.quiet (hgen.symm.trans hz)
  cases (stepped ht).2 with
  | receive | pubrel => exact absurd rfl harr
  | ack => exact h.ack hsess (append_nil _)
  | connectedFailed ci now hfailed =>
    rw [Wire.after, if_pos hfailed]
    exact h
  | connected ci now hok =>
    have hf0 : w.sys.eng.failure = none := by simpa using hok
    rw [Wire.after, if_neg hok]
    exact h.connected hf0 hm hsess rfl
  | disconnected l =>
    have hin := inside_disconnected w.sys.eng l
    by_cases hl : w.sys.eng.link = some l
    · rw [Wire.after, if_pos hl]
      refine of_unbound hsess ?_ ?_ rfl
      · show Solicited (inside (disconnected w.sys.eng l)).box
        rw [hin]
        exact h.solicited
      · show (disconnected w.sys.eng l).gen = 0
        unfold disconnected
        rw [if_pos hl]
    · rw [Wire.after, if_neg hl]
      have heq : disconnected w.sys.eng l = w.sys.eng := if_neg hl
      exact h.of_untouched hsess hcfg ⟨congrArg Engine.gen heq, congrArg Engine.failure heq,
        congrArg Inside.box hin⟩
  | collect gen upTo now =>
    obtain ⟨hsol, hsum⟩ := (handedOut_credit h.session.core.inbox h.solicited).2 gen upTo now
    exact h.handed (statics_collect _ _ _ _) hsess hsol hsum
  | collectControl gen =>
    obtain ⟨hsol, hsum⟩ := (handedOut_credit h.session.core.inbox h.solicited).1 gen
    exact h.handed (Inward.collectControl _ _).statics hsess hsol hsum
  | restored m recs e hloaded he =>
    have hgen : w.sys.eng.gen = 0 := hrest.2.2.2 trivial
    obtain ⟨⟨sorted, hothers⟩, -⟩ := restoreLocked_frame he
    exact of_unbound hsess (solicited_restored h.solicited he)
      ((congrArg Engine.gen hothers).trans hgen) (h.quiet hgen)
  | notRestored =>
    have hgen : w.sys.eng.gen = 0 := hrest.2.2.2 trivial
    exact of_unbound hsess h.solicited hgen (h.quiet hgen)
  | discardLocked =>
    obtain ⟨hw, hgen⟩ := hrest
    obtain ⟨hd, -⟩ := h.session.core.discarded hw
    refine of_unbound hsess ?_ ((same_gen hd.statics).trans (hgen trivial))
      (h.quiet (hgen trivial))
    show Solicited (inbox (discardLocked w.sys.eng).1)
    rw [hd.inbox]
    intro c hc
    cases hc
  | restart t hfresh =>
    obtain ⟨e, he, rfl⟩ := Option.map_eq_some_iff.mp hfresh
    obtain ⟨⟨sorted, hothers⟩, -⟩ := restoreLocked_frame he
    refine of_unbound hsess (solicited_restored ?_ he) (congrArg Engine.gen hothers) rfl
    intro c hc
    cases hc
  | _ => exact absurd rfl haside

/-! ### The moves of the broker, and the arrivals -/

theorem receive (h : Within w) {id : PacketID} {qos : ℕ} {rest : List BrokerPacket}
    (hdown : w.down = .publish id qos :: rest)
    (hsess : Session True { w.sys with eng := (receive w.sys.eng id qos).1 }) :
    Within { w with sys := { w.sys with eng := (receive w.sys.eng id qos).1 }, down := rest } := by
  have hs := (Answers.receive w.sys.eng id qos).statics
  have hcount : w.down.countP Wire.isPublish = rest.countP Wire.isPublish + 1 := by
    rw [hdown]
    exact countP_cons_of_pos rfl
  have hbox : Solicited (inbox (Program.receive w.sys.eng id qos).1) ∧
      (inbox (Program.receive w.sys.eng id qos).1).inn.len ≤ (inbox w.sys.eng).inn.len + 1 := by
    rcases inbox_receive w.sys.eng id qos with ⟨heq, -⟩ | ⟨x, -, -, -, -, heq⟩ | ⟨-, hget, -, heq⟩
    · rw [heq]
      exact ⟨h.solicited, Nat.le_succ _⟩
    · rw [heq]
      exact ⟨h.solicited.push (pubrecOf_ne _ _), Nat.le_succ _⟩
    · rw [heq]
      exact ⟨h.solicited, (FiniteMap.len_set _ hget).le⟩
  refine h.mono hsess hbox.1 (same_cfg hs) (same_gen hs)
    (same_failure hs) (fun hz => ?_) ?_
  · have hnil := h.quiet ((same_gen hs).symm.trans hz)
    rw [hdown] at hnil
    cases hnil
  have hlen : (Program.receive w.sys.eng id qos).1.inn.len ≤ w.sys.eng.inn.len + 1 := hbox.2
  show w.quota + rest.countP Wire.isPublish + (Program.receive w.sys.eng id qos).1.inn.len +
    w.up.countP Wire.returnsQuota ≤ _
  omega

theorem pubrel (h : Within w) {id : PacketID} {rest : List BrokerPacket}
    (hm : Unencumbered w .arrive) (hdown : w.down = .pubrel id :: rest)
    (hsess : Session True { w.sys with eng := handlePubrel w.sys.eng id }) :
    Within { w with sys := { w.sys with eng := handlePubrel w.sys.eng id }, down := rest } := by
  have hs := (Answers.handlePubrel w.sys.eng id).statics
  have hcount : w.down.countP Wire.isPublish = rest.countP Wire.isPublish := by
    rw [hdown]
    exact countP_cons_of_neg (by simp [Wire.isPublish])
  have hbox : Solicited (inbox (handlePubrel w.sys.eng id)) ∧
      (inbox (handlePubrel w.sys.eng id)).inn = (inbox w.sys.eng).inn := by
    rcases inbox_handlePubrel w.sys.eng id with heq | ⟨hf, hnot, -⟩ | ⟨x, -, -, -, heq⟩
    · rw [heq]
      exact ⟨h.solicited, rfl⟩
    · obtain ⟨x, hget, hstate⟩ := hm id rest hf hdown
      obtain ⟨hwait, hrel⟩ := hnot x hget
      rcases hstate with hstate | hstate
      · exact absurd hstate hwait
      · exact absurd hstate hrel
    · rw [heq]
      exact ⟨Solicited.push (b := (inbox w.sys.eng).setIn x _) h.solicited (pubcompOf_ne _ _), rfl⟩
  refine h.mono hsess hbox.1 (same_cfg hs) (same_gen hs)
    (same_failure hs) (fun hz => ?_) ?_
  · have hnil := h.quiet ((same_gen hs).symm.trans hz)
    rw [hdown] at hnil
    cases hnil
  show w.quota + rest.countP Wire.isPublish + (handlePubrel w.sys.eng id).inn.len + _ ≤ _
  rw [show (handlePubrel w.sys.eng id).inn = w.sys.eng.inn from hbox.2, hcount]

/-- INTERNAL: **Every move keeps the account.** -/
theorem step (h : Within w) {m : Move} (hm : Unencumbered w m) (hstep : w.step m = some w') :
    Within w' := by
  cases m with
  | client a => exact h.client hm hstep
  | sendPublish id qos =>
    unfold Wire.step at hstep
    obtain ⟨hcond, ⟨⟩⟩ := Option.ite_none_left_eq_some.mp hstep
    have hquota : w.quota ≠ 0 := fun hz => hcond (.inr (.inl hz))
    refine h.mono h.session h.solicited rfl rfl rfl
      (fun hz => absurd (.inl hz) hcond) ?_
    simp only [countP_append, countP_singleton, Wire.isPublish, if_true]
    omega
  | sendPubrel id =>
    unfold Wire.step at hstep
    obtain ⟨hbound, ⟨⟩⟩ := Option.ite_none_left_eq_some.mp hstep
    refine h.mono h.session h.solicited rfl rfl rfl (fun hz => absurd hz hbound) ?_
    simp [countP_append, Wire.isPublish]
  | arrive =>
    unfold Wire.step at hstep
    simp only at hstep
    split at hstep
    · cases hstep
    · rename_i id qos rest hdown
      obtain ⟨t, ht, rfl⟩ := Option.map_eq_some_iff.mp hstep
      have hsess := h.session.step (a := .receive id qos) trivial ht
      cases (stepped ht).2
      exact h.receive hdown hsess
    · rename_i id rest hdown
      obtain ⟨t, ht, rfl⟩ := Option.map_eq_some_iff.mp hstep
      have hsess := h.session.step (a := .pubrel id) trivial ht
      cases (stepped ht).2
      exact h.pubrel hm hdown hsess
  | hear =>
    unfold Wire.step at hstep
    simp only at hstep
    split at hstep
    · cases hstep
    · rename_i c rest hup
      cases hstep
      refine h.mono h.session h.solicited rfl rfl rfl h.quiet ?_
      simp only [hup, countP_cons]
      split <;> omega

/-- INTERNAL: **The account through a run.** -/
theorem run {cfg : Config} {max : ℕ} (hmax : 0 < max)
    (h : Reach Wire.step Unencumbered (· = Wire.init cfg max) w) : Within w := by
  refine h.invariant Within ?_ ?_
  · rintro w rfl
    refine of_unbound (Session.init cfg hmax) ?_ rfl rfl
    intro c hc
    cases hc
  · intro w m w' hw hm hstep
    exact hw.step hm hstep

end Within

end Mqttv5.Analysis
