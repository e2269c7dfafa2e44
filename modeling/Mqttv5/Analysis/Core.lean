import Mqttv5.Analysis.Completion
import Mqttv5.Analysis.JobInv
import Mqttv5.Analysis.SendInv
import Mqttv5.Analysis.Steps

/-!
# The invariant of the session engine

`Core` collects what holds of the engine among its callers in every state: the send queue, the
holders of identifiers, the inbox, the queued writes and their counter, and the shape of a
failed session. Every step keeps it but the three that replace the session as a whole
(`Restore`, `Discard` and a new process), which have conditions of their own.
-/

set_option autoImplicit false

namespace Mqttv5.Analysis

open Mqttv5.Computation Model Program Interface FiniteMap
open Function (update_of_ne update_self)

/-- INTERNAL: The operations on flows keep the owners. -/
theorem owners_flowRule (held : List (PacketID × Owner)) (reserved : ℕ) :
    FlowRule fun e => ∃ own, Owners e held reserved own := by
  refine ⟨?_, ?_, ?_⟩
  · rintro e e' ⟨own, h⟩ hq
    refine ⟨own, h.congr hq.ids hq.stuck ⟨hq.cfg, hq.epoch, hq.failure⟩ hq.nextOut ?_ hq.queues
      (fun i q hi => by rw [← hq.out]; exact hi) fun r q hr => by rw [← hq.orphans]; exact hr⟩
    intro q
    have hs := hq.outs q
    exact ⟨hs.id, hs.finished, hs.settling, hs.adopted, hs.settle, hs.ref⟩
  · rintro e d p id ⟨own, h⟩ hf hl hd
    exact ⟨_, h.retire (h.live id p hl.get) hf hl.live hd⟩
  · rintro e d p id ⟨own, h⟩ hf hl hd
    exact ⟨own, h.rewrite (h.live id p hl.get) hf hl.live hd.touches hd.queues hd.finished
      hd.settling hd.adopted hd.settle hd.ref⟩

/-- The flow of a new first Put is the new flow. -/
theorem Unsent.register {e : Engine} {held : List (PacketID × Owner)} {reserved : ℕ}
    {own : PacketID → Option OutPtr} (h : Unsent e) (hown : Owners e held reserved own)
    (m : Message) (now : Time) (hf : e.failure = none) (hheld : (m.id, Owner.publish) ∈ held) :
    Unsent (register e m now).1 := by
  have howners := hown.register m now hf hheld
  have hq := sendQueue_register e m now hf
  have hflow : ∀ p, flowOf ((Program.register e m now).1.outs p) =
      ((sendQueue e).add m.id m.qos m.ref).flows p := fun p =>
    congrFun (congrArg SendQueue.flows hq) p
  have hsize : (sendQueue e).size = e.nextOut := rfl
  intro id j hj hnew
  by_cases hid : id = m.id
  · subst hid
    have howner := howners.jobs m.id e.nextOut (update_self ..) j hj
    have hself := hflow e.nextOut
    rw [SendQueue.add, hsize] at hself
    simp only [update_self] at hself
    exact ⟨e.nextOut, howner, congrArg Interface.Flow.id hself,
      congrArg Interface.Flow.attempted hself⟩
  · have hold : j ∈ e.queues (outKey id) := by
      unfold Program.register at hj
      rw [if_neg (by simp [hf])] at hj
      simp only at hj
      split at hj
      · simp only [queueLocked, newOut] at hj
        rwa [update_of_ne (outKey_ne hid)] at hj
      · exact hj
    obtain ⟨p, howner, hpid, hatt⟩ := h id j hold hnew
    have hp : p ≠ e.nextOut := by
      obtain ⟨q, hown', hjq⟩ : ∃ q, own id = some q ∧ j.owner = .out q := by
        cases hid' : own id with
        | none =>
          rw [hown.empty id hid'] at hold
          cases hold
        | some q => exact ⟨q, rfl, hown.jobs id q hid' j hold⟩
      rw [howner] at hjq
      cases hjq
      exact (hown.ptr id p hown').1.ne
    have hother := hflow p
    rw [SendQueue.add, hsize] at hother
    simp only [update_of_ne hp] at hother
    exact ⟨p, howner, (congrArg Interface.Flow.id hother).trans hpid,
      (congrArg Interface.Flow.attempted hother).trans hatt⟩

structure Core (on : Prop) (s : Sys) : Prop where
  send : SendInv on s.eng s.outstanding (Sys.publishes s.sent)
  owners : ∃ own, Owners s.eng s.held s.reserved own
  inbox : (inbox s.eng).Sound
  jobs : JobInv s.eng
  counted : Counted s.eng s.reporting
  dead : s.eng.failure ≠ none → Dead s.eng

/-- What an operation on the flows of the session `e₀` keeps of it. -/
def Kept (held : List (PacketID × Owner)) (reserved : ℕ) (e₀ e : Engine) : Prop :=
  (∃ own, Owners e held reserved own) ∧ Unsent e ∧ e.epoch = e₀.epoch ∧
    Adds (Later e₀.epoch) e₀ e

/-- INTERNAL: The operations on flows keep what `Kept` joins. -/
theorem kept_flowRule (held : List (PacketID × Owner)) (reserved : ℕ) (e₀ : Engine) :
    FlowRule (Kept held reserved e₀) :=
  (owners_flowRule held reserved).and (unsent_flowRule.and (adds_flowRule e₀))

namespace Core

variable {on : Prop} {s t : Sys}

variable {e : Engine} {o : Owner} {p : OutPtr} {k : RecordKey} {j : Job} {rest : List Job}
  {own : PacketID → Option OutPtr} {res : Option JobErr}

section

variable (h : Core on s)
include h

/-- INTERNAL: Every engine of the invariant starts from itself. -/
theorem kept : Kept s.held s.reserved s.eng s.eng :=
  ⟨h.owners, h.jobs.unsent, rfl, Adds.of_eq rfl rfl⟩

/-- INTERNAL: The flows are on the lists, in order. -/
theorem ordered : (sendQueue s.eng).Ordered [] := h.send.ordered

/-- An operation on the flows of a session that has not failed. -/
theorem of_kept (hf : s.eng.failure = none)
    (hk : Kept s.held s.reserved s.eng t.eng) (hf' : t.eng.failure = none)
    (hcallers : t.held = s.held ∧ t.reserved = s.reserved ∧ t.reporting = s.reporting)
    (hsend : SendInv on t.eng t.outstanding (Sys.publishes t.sent))
    (hin : (Analysis.inbox t.eng).Sound) : Core on t := by
  obtain ⟨hheld, hreserved, hreporting⟩ := hcallers
  obtain ⟨howners, hunsent, hepoch, hadds⟩ := hk
  refine ⟨hsend, ?_, hin, ?_, ?_, fun hcon => absurd hf' hcon⟩
  · rw [hheld, hreserved]
    exact howners
  · exact h.jobs.adds hf (hadds.mono fun _ _ hj => hj.1) (hf'.trans hf.symm) hepoch hunsent
  · rw [hreporting]
    exact h.counted.adds hadds

/-- A step that only moves the callers' identifiers, or leaves the engine alone. -/
theorem of_idle (howners : ∃ own, Owners t.eng t.held t.reserved own)
    (hstat : t.eng.epoch = s.eng.epoch ∧ t.eng.failure = s.eng.failure)
    (hgen : t.eng.gen ≠ 0 → s.eng.gen ≠ 0)
    (hsend : sendQueue t.eng = sendQueue s.eng) (houts : t.eng.outs = s.eng.outs)
    (hin : Analysis.inbox t.eng = Analysis.inbox s.eng) (horph : t.eng.orphans = s.eng.orphans)
    (hctrl : t.eng.ctrl = s.eng.ctrl)
    (hjobs : t.eng.queues = s.eng.queues ∧ t.eng.writes = s.eng.writes)
    (hmon : t.outstanding = s.outstanding ∧ t.sent = s.sent ∧ t.reporting = s.reporting) :
    Core on t := by
  obtain ⟨hout, hsent, hrep⟩ := hmon
  refine ⟨?_, howners, by rw [hin]; exact h.inbox, ?_, ?_, ?_⟩
  · rw [hout, hsent]
    exact h.send.congr hsend (fun hf => hstat.2 ▸ hf) hgen
  · exact h.jobs.congr hjobs.1 houts hstat.2 hstat.1
  · rw [hrep]
    exact h.counted.congr hjobs.1 hjobs.2
  · intro hf
    have hd := h.dead (hstat.2 ▸ hf)
    exact ⟨(congrArg SendQueue.out hsend).trans hd.out,
      (congrArg SendQueue.refs hsend).trans hd.refs,
      horph.trans hd.orphans, (congrArg Inbox.inn hin).trans hd.inn,
      (congrArg SendQueue.pub hsend).trans hd.pub, (congrArg SendQueue.rel hsend).trans hd.rel,
      (congrArg Inbox.fifo hin).trans hd.fifo, hctrl.trans hd.ctrl,
      (congrArg SendQueue.cursor hsend).trans hd.cursor⟩

end

/-! ### A failed session does nothing -/

section Failed

variable (h : Core on s) (hf : s.eng.failure ≠ none)
include h hf

/-- INTERNAL: A failed session has no flow to withdraw. -/
theorem withdraw_failed {p : OutPtr} (hp : p < s.eng.nextOut) : (withdraw s.eng p).1 = s.eng := by
  have hfin : (s.eng.outs p).finished = true := by
    by_contra hcon
    have hd := h.dead hf
    have hfin : (s.eng.outs p).finished = false := by simpa using hcon
    have := (h.ordered.mem p).mpr ⟨hp, hfin⟩
    simp [SendQueue.listed, hd.pub, hd.rel] at this
  unfold withdraw
  rw [if_pos (.inl hfin)]

/-- INTERNAL: A failed session has no flow to adopt. -/
theorem adopt_failed (ref : Bytes) (f : SettleFn) : (adopt s.eng ref f).1 = s.eng := by
  have hd := h.dead hf
  unfold adopt
  simp [hd.refs, hd.orphans]

/-- INTERNAL: A failed session has no message to acknowledge. -/
theorem ack_failed {i : InPtr} (hi : i < s.eng.nextIn) : ack s.eng i = s.eng := by
  have hd := h.dead hf
  unfold Program.ack
  by_cases hcond : (s.eng.ins i).dead = true ∨ (s.eng.ins i).state ≠ .delivered
  · rw [if_pos hcond]
  · exfalso
    have hdead : (s.eng.ins i).dead = false := by
      by_contra hcon
      exact hcond (.inl (by simpa using hcon))
    have hstate : (s.eng.ins i).state = .delivered := by
      by_contra hcon
      exact hcond (.inr hcon)
    have hmem := h.inbox.fresh i hi hdead hstate
    have hmem : i ∈ s.eng.fifo := hmem
    rw [hd.fifo] at hmem
    cases hmem

end Failed

/-- INTERNAL: A failure is an error. -/
theorem failed_isSome (hf : s.eng.failure ≠ none) : s.eng.failure.isSome = true :=
  Option.isSome_iff_ne_none.mpr hf

/-- INTERNAL: A failed session serves no connection. -/
theorem not_serves_failed (hf : s.eng.failure ≠ none) (gen : ℕ) :
    servesLocked s.eng gen = false := by
  unfold servesLocked
  simp [hf]

/-- INTERNAL: An answer that changes nothing. -/
theorem answered_same (s : Sys) (id : PacketID) : s.answered id s.eng = s := by
  unfold Sys.answered
  cases hget : s.eng.out.get id <;> rfl

/-- INTERNAL: A `Collect` that hands out nothing. -/
theorem handed_nothing (s : Sys) : s.handed (s.eng, []) = s := by
  simp [Sys.handed]

/-! ### The operations -/

section

variable (h : Core on s)
include h

/-- INTERNAL: A caller reserves an identifier. -/
theorem reserve (hr : reserve s.eng = some e) :
    Core on { s with eng := e, reserved := s.reserved + 1 } := by
  obtain ⟨own, hown⟩ := h.owners
  have howners := hown.reserve hr
  unfold Program.reserve at hr
  split at hr
  · cases hr
    exact h.of_idle ⟨own, howners⟩ ⟨rfl, rfl⟩ (fun hg => hg) rfl rfl rfl rfl rfl ⟨rfl, rfl⟩
      ⟨rfl, rfl, rfl⟩
  · cases hr

/-- INTERNAL: A caller takes an identifier. -/
theorem take (ho : o ≠ .none) (hres : 0 < s.reserved) {r : PacketID × Engine}
    (hr : allocateID s.eng o = some r) :
    Core on { s with eng := r.2, reserved := s.reserved - 1, held := s.held ++ [(r.1, o)] } := by
  obtain ⟨own, hown⟩ := h.owners
  have howners := hown.take ho hres hr
  unfold allocateID at hr
  obtain ⟨r', -, rfl⟩ := Option.map_eq_some_iff.mp hr
  exact h.of_idle ⟨own, howners⟩ ⟨rfl, rfl⟩ (fun hg => hg) rfl rfl rfl rfl rfl ⟨rfl, rfl⟩
    ⟨rfl, rfl, rfl⟩

/-- An identifier is given back, by its caller or for it. -/
theorem release {id : PacketID} {held : List (PacketID × Owner)}
    (howners : ∃ own, Owners (releaseLocked s.eng id o) held s.reserved own) :
    Core on { s with eng := releaseLocked s.eng id o, held := held } := by
  obtain ⟨ids, stuck, heq⟩ := releaseLocked_eq s.eng id o
  rw [heq] at howners ⊢
  exact h.of_idle howners ⟨rfl, rfl⟩ (fun hg => hg) rfl rfl rfl rfl rfl ⟨rfl, rfl⟩
    ⟨rfl, rfl, rfl⟩

/-- INTERNAL: A caller registers a message. -/
theorem register (m : Message) (now : Time) (hheld : (m.id, Owner.publish) ∈ s.held) :
    Core on { s with eng := (register s.eng m now).1, held := s.held.erase (m.id, .publish) } := by
  obtain ⟨own, hown⟩ := h.owners
  by_cases hf : s.eng.failure = none
  · have hs := statics_register s.eng m now
    have hfail : (Program.register s.eng m now).1.failure = none :=
      (same_failure hs).trans hf
    have hepoch : (Program.register s.eng m now).1.epoch = s.eng.epoch :=
      same_epoch hs
    have hnone : s.eng.out.get m.id = none := by
      cases hget : s.eng.out.get m.id with
      | none => rfl
      | some q =>
        have := hown.live _ q hget
        rw [(hown.caller _ _ hheld).1] at this
        cases this
    have hadds := adds_register s.eng m now
    refine ⟨h.send.register m now fun _ => hnone, ⟨_, hown.register m now hf hheld⟩, ?_, ?_, ?_,
      fun hcon => absurd hfail hcon⟩
    · have := congrArg Inside.box (inside_register s.eng m now)
      exact (show Analysis.inbox _ = _ from this) ▸ h.inbox
    · refine h.jobs.adds hf hadds (hfail.trans hf.symm) hepoch ?_
      exact h.jobs.unsent.register hown m now hf hheld
    · exact h.counted.adds hadds
  · have hregister : (Program.register s.eng m now).1 = releaseLocked s.eng m.id .publish := by
      unfold Program.register
      rw [if_pos (failed_isSome hf)]
    rw [hregister]
    refine h.release ⟨own, ?_⟩
    rw [← hregister]
    exact hown.register_failed m now (failed_isSome hf) hheld

/-- An operation on an outbound flow. -/
theorem of_acts {G : Out → Out → Prop} {t : Sys} (hf : s.eng.failure = none)
    (hkept : Kept s.held s.reserved s.eng t.eng) (hacts : Acts G s.eng t.eng)
    (hsame : t.held = s.held ∧ t.reserved = s.reserved ∧ t.reporting = s.reporting)
    (hsend : SendInv on t.eng t.outstanding (Sys.publishes t.sent)) : Core on t := by
  have hbox : Analysis.inbox t.eng = Analysis.inbox s.eng := congrArg Inside.box hacts.inside
  exact h.of_kept hf hkept ((same_failure hacts.statics :).trans hf) hsame hsend
    (hbox ▸ h.inbox)

/-- INTERNAL: A caller withdraws a flow. -/
theorem withdraw (hp : p < s.eng.nextOut) : Core on { s with eng := (withdraw s.eng p).1 } := by
  by_cases hf : s.eng.failure = none
  · exact h.of_acts hf ((kept_flowRule _ _ _).pubRule.withdraw h.kept h.ordered hf hp)
      (.withdraw s.eng p) ⟨rfl, rfl, rfl⟩ (h.send.withdraw hp)
  · rw [h.withdraw_failed hf hp]
    exact h

/-- INTERNAL: A caller adopts a flow. -/
theorem adopt (ref : Bytes) (f : SettleFn) : Core on { s with eng := (adopt s.eng ref f).1 } := by
  by_cases hf : s.eng.failure = none
  · obtain ⟨own, hown⟩ := h.owners
    have hacts := Acts.adopt s.eng ref f
    have hsend := sendQueue_adopt s.eng ref f
    have hsame := flow_of_sendQueue hsend
    have hrefs : ∀ r q, s.eng.refs.get r = some q →
        own (s.eng.outs q).id = some q ∧ (s.eng.outs q).finished = false := by
      intro r q hr
      have hlive := (h.ordered.refs r q hr).1
      exact ⟨hown.live _ q ((h.ordered.get _ q).mpr ⟨hlive, rfl⟩), hlive.2⟩
    have hadds := (adds_adopt s.eng ref f).mono fun _ _ hj => hj.1
    refine h.of_acts hf ⟨⟨own, hown.adopt hf hrefs ref f⟩, ?_,
      same_epoch hacts.statics, hadds⟩ hacts ⟨rfl, rfl, rfl⟩
      (h.send.congr_statics hsend hacts.statics)
    exact h.jobs.unsent.adds hadds (fun q => (hsame q).1) fun q hq => (hsame q).2 ▸ hq
  · rw [h.adopt_failed hf]
    exact h

/-- INTERNAL: The broker answers with a PUBACK. -/
theorem puback (id : PacketID) (rc : ReasonCode) (r : Option PubErr) :
    Core on (s.answered id (handlePuback s.eng id rc r)) := by
  by_cases hf : s.eng.failure = none
  · exact h.of_acts hf ((kept_flowRule _ _ _).pubRule.handlePuback h.kept h.ordered id rc r)
      (.handlePuback s.eng id rc r) ⟨rfl, rfl, rfl⟩ (h.send.handlePuback id rc r)
  · have heq : handlePuback s.eng id rc r = s.eng := if_pos (failed_isSome hf)
    rw [heq, answered_same]
    exact h

/-- INTERNAL: The broker answers with a PUBREC. -/
theorem pubrec (id : PacketID) (rc : ReasonCode) (r : Option PubErr) :
    Core on (s.answered id (handlePubrec s.eng id rc r)) := by
  by_cases hf : s.eng.failure = none
  · have hin : Analysis.inbox (handlePubrec s.eng id rc r) = Analysis.inbox s.eng := by
      rcases inside_handlePubrec s.eng id rc r with heq | ⟨rc', g, src, heq⟩
      · exact congrArg Inside.box heq
      · exact congrArg Inside.box heq
    refine h.of_kept hf ((kept_flowRule _ _ _).handlePubrec h.kept h.ordered id rc r)
      ((same_failure (statics_handlePubrec s.eng id rc r)).trans hf) ⟨rfl, rfl, rfl⟩
      (h.send.handlePubrec id rc r) ?_
    exact (show Analysis.inbox _ = _ from hin) ▸ h.inbox
  · have heq : handlePubrec s.eng id rc r = s.eng := if_pos (failed_isSome hf)
    rw [heq, answered_same]
    exact h

/-- INTERNAL: The broker answers with a PUBCOMP. -/
theorem pubcomp (id : PacketID) : Core on (s.answered id (handlePubcomp s.eng id)) := by
  by_cases hf : s.eng.failure = none
  · exact h.of_acts hf ((kept_flowRule _ _ _).pubRule.handlePubcomp h.kept h.ordered id)
      (.handlePubcomp s.eng id) ⟨rfl, rfl, rfl⟩ (h.send.handlePubcomp id)
  · have heq : handlePubcomp s.eng id = s.eng := if_pos (failed_isSome hf)
    rw [heq, answered_same]
    exact h

/-- An operation on the inbound half. -/
theorem of_inward (hf : s.eng.failure = none) (hi : Inward s.eng e)
    (hin : (Analysis.inbox e).Sound) : Core on { s with eng := e } :=
  have hq := Quiet.of_inward hi
  h.of_kept hf ((kept_flowRule _ _ _).quiet _ _ h.kept hq) (hq.failure.trans hf) ⟨rfl, rfl, rfl⟩
    (h.send.congr_statics hi.sendQueue hi.statics) hin

/-- INTERNAL: The broker sends a PUBLISH. -/
theorem receive (id : PacketID) (qos : ℕ) : Core on { s with eng := (receive s.eng id qos).1 } := by
  by_cases hf : s.eng.failure = none
  · exact h.of_inward hf (Answers.receive s.eng id qos).toInward (receive_sound h.inbox id qos)
  · have heq : (Program.receive s.eng id qos).1 = s.eng := by
      unfold Program.receive
      rw [if_pos (failed_isSome hf)]
    rw [heq]
    exact h

/-- INTERNAL: The application acknowledges. -/
theorem ack {i : InPtr} (hi : i < s.eng.nextIn) : Core on { s with eng := ack s.eng i } := by
  by_cases hf : s.eng.failure = none
  · exact h.of_inward hf (Answers.ack s.eng i).toInward (ack_sound h.inbox hi)
  · rw [h.ack_failed hf hi]
    exact h

/-- INTERNAL: The broker sends a PUBREL. -/
theorem pubrel (id : PacketID) : Core on { s with eng := handlePubrel s.eng id } := by
  by_cases hf : s.eng.failure = none
  · exact h.of_inward hf (Answers.handlePubrel s.eng id).toInward (handlePubrel_sound h.inbox id)
  · have heq : handlePubrel s.eng id = s.eng := if_pos (failed_isSome hf)
    rw [heq]
    exact h

/-- INTERNAL: A connection begins. -/
theorem connected (hf : s.eng.failure = none) (ci : ConnInfo) (now : Time) (regen : List OutPtr) :
    Core on { s with
      eng := connected s.eng ci now
      sent := []
      outstanding := []
      regen := regen } :=
  h.of_kept hf ((kept_flowRule _ _ _).pubRule.connected h.kept h.ordered ci now)
    ((congrArg Statics.failure (statics_connected s.eng ci now hf)).trans hf) ⟨rfl, rfl, rfl⟩
    (h.send.connected ci now hf) (connected_sound s.eng ci now hf h.inbox)

/-- INTERNAL: A connection ends. -/
theorem disconnected (l : LinkID) : Core on { s with eng := disconnected s.eng l } := by
  have howners := (owners_flowRule _ _).quiet _ _ h.owners (Quiet.disconnected s.eng l)
  unfold Program.disconnected at howners ⊢
  split
  · rename_i hl
    rw [if_pos hl] at howners
    exact h.of_idle howners ⟨rfl, rfl⟩ (fun hg => absurd rfl hg) rfl rfl rfl rfl rfl ⟨rfl, rfl⟩
      ⟨rfl, rfl, rfl⟩
  · exact h

/-- INTERNAL: The writer collects. -/
theorem collect (gen upTo : ℕ) (now : Time) : Core on (s.handed (collect s.eng gen upTo now)) := by
  by_cases hf : s.eng.failure = none
  · have hkept : Kept s.held s.reserved s.eng (Program.collect s.eng gen upTo now).1 :=
      (kept_flowRule _ _ _).pubRule.collect h.kept gen upTo now h.send.steady
    refine h.of_kept hf hkept
      ((same_failure (statics_collect s.eng gen upTo now)).trans hf) ⟨rfl, rfl, rfl⟩ ?_
      (collect_sound s.eng gen upTo now h.inbox)
    have hsend := h.send.collect gen upTo now
    simpa only [Sys.handed, publishes_append] using hsend
  · rw [collect_of_not_serves s.eng gen upTo now (not_serves_failed hf gen), handed_nothing]
    exact h

/-- INTERNAL: The writer collects control packets. -/
theorem collectControl (gen : ℕ) : Core on (s.handed (collectControl s.eng gen)) := by
  by_cases hf : s.eng.failure = none
  · have hq := Quiet.of_inward (Inward.collectControl s.eng gen)
    refine h.of_kept hf ((kept_flowRule _ _ _).quiet _ _ h.kept hq) (hq.failure.trans hf)
      ⟨rfl, rfl, rfl⟩ ?_ (collectControl_sound s.eng gen h.inbox)
    have hsend := h.send.collectControl gen
    simpa only [Sys.handed, publishes_append] using hsend
  · have heq : Program.collectControl s.eng gen = (s.eng, []) := by
      unfold Program.collectControl
      rw [if_pos (by simp [not_serves_failed hf])]
    rw [heq, handed_nothing]
    exact h

/-! ### The writes -/

/-- The write at the head of its queue gets on. -/
theorem setStage (st : Stage) (hq : s.eng.queues k = j :: rest)
    (hst : ∀ c, st = .ran (some (.settle c)) → ∃ f err ref, j.kind = .settle f err ref ∧ ref ≠ [])
    (ht : t.eng = setStage s.eng k st) (hcallers : t.held = s.held ∧ t.reserved = s.reserved)
    (hmon : t.outstanding = s.outstanding ∧ t.sent = s.sent ∧ t.reporting = s.reporting) :
    Core on t := by
  obtain ⟨own, hown⟩ := h.owners
  obtain ⟨hheld, hreserved⟩ := hcallers
  obtain ⟨hout, hsent, hrep⟩ := hmon
  have hs := statics_setStage s.eng k st
  have hsend := sendQueue_setStage s.eng k st
  have hsame := flow_of_sendQueue hsend
  have hfields : (Program.setStage s.eng k st).out = s.eng.out ∧
      (Program.setStage s.eng k st).refs = s.eng.refs ∧
      (Program.setStage s.eng k st).orphans = s.eng.orphans ∧
      (Program.setStage s.eng k st).ctrl = s.eng.ctrl := by
    unfold Program.setStage
    rw [hq]
    exact ⟨rfl, rfl, rfl, rfl⟩
  rcases t with ⟨eng, _, _, _, _, _, _, _, _, _, _, _, _⟩
  simp only at ht hheld hreserved hout hsent hrep
  subst ht hheld hreserved hout hsent hrep
  refine ⟨h.send.congr_statics hsend hs, ⟨own, hown.setStage st hq hst⟩, ?_, ?_, ?_, ?_⟩
  · rw [inbox_setStage]
    exact h.inbox
  · refine h.jobs.sub (subJobs_setStage s.eng k st) (same_failure hs)
      (same_epoch hs) ?_
    refine h.jobs.unsent.of_sub ?_ (fun p => (hsame p).1) fun p hp => (hsame p).2 ▸ hp
    intro id j' hj' _
    obtain ⟨i, hi, hkind, howner, -⟩ := subJobs_setStage s.eng k st _ j' hj'
    exact ⟨i, hi, hkind, howner⟩
  · exact h.counted.setStage k st
  · intro hf
    have hfail : (Program.setStage s.eng k st).failure = s.eng.failure :=
      same_failure hs
    have hd := h.dead (hfail ▸ hf)
    have hin := inbox_setStage s.eng k st
    exact ⟨hfields.1.trans hd.out, hfields.2.1.trans hd.refs, hfields.2.2.1.trans hd.orphans,
      (congrArg Inbox.inn hin).trans hd.inn, (congrArg SendQueue.pub hsend).trans hd.pub,
      (congrArg SendQueue.rel hsend).trans hd.rel, (congrArg Inbox.fifo hin).trans hd.fifo,
      hfields.2.2.2.trans hd.ctrl, (congrArg SendQueue.cursor hsend).trans hd.cursor⟩

/-- The end of a session by a failure. -/
theorem failLocked (err : StoreError) (setting : Option SetMetaCall) :
    Core on { s with eng := failLocked s.eng err, setting := setting } := by
  obtain ⟨own, hown⟩ := h.owners
  by_cases hf : s.eng.failure = none
  · have hin := congrArg Inside.box (inside_failLocked s.eng err hf)
    refine ⟨h.send.failLocked err, ⟨own, hown.toClaims.fail err⟩, ?_, h.jobs.failLocked err, ?_,
      fun _ => dead_failLocked s.eng err hf⟩
    · exact (show Analysis.inbox _ = _ from hin) ▸ h.inbox.clear
    · have heq := failLocked_eq s.eng err hf
      rw [heq]
      exact h.counted.congr rfl rfl
  · rw [failLocked_of_failed s.eng err hf]
    exact ⟨h.send, h.owners, h.inbox, h.jobs, h.counted, h.dead⟩

end

/-- The end of a write is its `after`, its removal and, when it failed the session,
the failure; a write of an earlier epoch is only removed. -/
theorem finishJob_cases (e : Engine) (k : RecordKey) (j : Job) (res : Option JobErr) :
    (j.epoch = e.epoch ∧
      ((afterJob e j res).2 = none ∧ finishJob e k j res = popJob (afterJob e j res).1 k ∨
      ∃ err, (afterJob e j res).2 = some err ∧
        finishJob e k j res = Program.failLocked (popJob (afterJob e j res).1 k) err)) ∨
    (j.epoch ≠ e.epoch ∧ finishJob e k j res = popJob e k) := by
  unfold finishJob
  by_cases hep : j.epoch = e.epoch
  · left
    refine ⟨hep, ?_⟩
    simp only [if_pos hep]
    cases hres : (afterJob e j res).2 with
    | none => exact .inl ⟨rfl, rfl⟩
    | some err => exact .inr ⟨err, rfl, rfl⟩
  · right
    exact ⟨hep, by simp only [if_neg hep]⟩

section

variable (h : Core on s)
include h

/-- A failed session has writes of earlier epochs only. -/
theorem healthy_of_epoch (hq : s.eng.queues k = j :: rest)
    (hep : j.epoch = s.eng.epoch) : s.eng.failure = none := by
  by_contra hcon
  have := h.jobs.stale hcon k j (head_mem hq)
  omega

/-- A write of an outbound flow is in the queue of the flow's record, which is the
holder's. -/
theorem holder (hown : Owners s.eng s.held s.reserved own)
    (hq : s.eng.queues k = j :: rest) (hout : isOutbound j.kind = true)
    (howner : j.owner = .out p) :
    own k.packetID = some p ∧ s.eng.queues (outKey k.packetID) = j :: rest := by
  have hdir := (h.jobs.side k j (head_mem hq)).mp hout
  have hk : k = outKey k.packetID := by
    rcases k with ⟨dir, i⟩
    simp only at hdir
    rw [hdir]
    rfl
  have hq' : s.eng.queues (outKey k.packetID) = j :: rest := by
    rw [← hk]
    exact hq
  obtain ⟨q, hq'', hjq⟩ := hown.queue_owned hq'
  rw [howner] at hjq
  cases hjq
  exact ⟨hq'', hq'⟩

/-- A flow whose outcome is being settled has ended. -/
theorem settle_finished (hq : s.eng.queues k = j :: rest) (hep : j.epoch = s.eng.epoch) :
    ∀ p f o r, j.kind = .settle f o r → j.owner = .out p → (s.eng.outs p).finished = true := by
  intro p f o r hkind howner
  obtain ⟨own, hown⟩ := h.owners
  obtain ⟨hp, hq'⟩ := h.holder hown hq (by rw [hkind]; rfl) howner
  have hslot := hown.slot _ p hp (h.healthy_of_epoch hq hep)
  rw [hq'] at hslot
  exact (hslot.settle_alone (by rw [hkind]; rfl)).2.2

/-- What the `after` of a write of the present epoch does to the send queue. -/
theorem afterJob_send (res : Option JobErr) (hq : s.eng.queues k = j :: rest)
    (hep : j.epoch = s.eng.epoch) :
    SendInv on (afterJob s.eng j res).1 s.outstanding (Sys.publishes s.sent) ∧
    ∀ p, ((afterJob s.eng j res).1.outs p).id = (s.eng.outs p).id ∧
      ((afterJob s.eng j res).1.outs p).attempted = (s.eng.outs p).attempted := by
  obtain ⟨own, hown⟩ := h.owners
  have hs := (Acts.afterJob s.eng j res).statics
  rcases sendQueue_afterJob s.eng j res (h.settle_finished hq hep) with heq |
    ⟨p, r, hkind, howner, -, heq⟩
  · exact ⟨h.send.congr_statics heq hs, flow_of_sendQueue heq⟩
  · refine ⟨?_, flow_of_finish heq⟩
    obtain ⟨hp, hq'⟩ := h.holder hown hq (by rw [hkind]; rfl) howner
    obtain ⟨hlt, hid⟩ := hown.ptr _ p hp
    obtain ⟨q, hjq, -, hatt⟩ := h.jobs.unsent k.packetID j (head_mem hq')
      (by rw [hkind]; rfl)
    rw [howner] at hjq
    cases hjq
    cases hlive : (s.eng.outs p).finished with
    | false => exact h.send.finish ⟨hlt, hlive⟩ hatt heq hs
    | true =>
      refine h.send.finish_over hlive ?_ heq hs
      rw [hid]
      cases hget : s.eng.out.get k.packetID with
      | none => rfl
      | some q =>
        have := hown.live _ q hget
        rw [hp] at this
        cases this
        have hq : (s.eng.outs p).finished = false := (h.ordered.live_of_get hget).2
        rw [hlive] at hq
        cases hq

end

/-- A write is taken off its queue. -/
theorem popJob_inv (hj : JobInv e) (k : RecordKey) : JobInv (popJob e k) := by
  refine hj.sub (subJobs_popJob e k) rfl rfl ?_
  refine hj.unsent.of_sub ?_ (fun _ => rfl) fun _ hp => hp
  intro id j' hj' _
  obtain ⟨i, hi, hkind, howner, -⟩ := subJobs_popJob e k _ j' hj'
  exact ⟨i, hi, hkind, howner⟩

/-- INTERNAL: What follows a write keeps the queues and their count. -/
theorem afterJob_inv (h : Core on s) (res : Option JobErr) (hq : s.eng.queues k = j :: rest)
    (hep : j.epoch = s.eng.epoch) :
    JobInv (afterJob s.eng j res).1 ∧ Counted (afterJob s.eng j res).1 s.reporting := by
  have hf := h.healthy_of_epoch hq hep
  have hs := (Acts.afterJob s.eng j res).statics
  have hflow := (h.afterJob_send res hq hep).2
  have hfail : (afterJob s.eng j res).1.failure = s.eng.failure := same_failure hs
  have hepoch : (afterJob s.eng j res).1.epoch = s.eng.epoch := same_epoch hs
  rcases afterJob_jobs s.eng j res with ⟨hsub, hcount⟩ | hadds
  · refine ⟨h.jobs.sub hsub hfail hepoch ?_, hcount _ h.counted⟩
    refine h.jobs.unsent.of_sub ?_ (fun p => (hflow p).1) fun p hp => (hflow p).2 ▸ hp
    intro id j' hj' _
    obtain ⟨i, hi, hkind, howner, -⟩ := hsub _ j' hj'
    exact ⟨i, hi, hkind, howner⟩
  · refine ⟨?_, h.counted.adds hadds⟩
    have hlater := hadds.mono fun _ _ hj => hj.1
    exact h.jobs.adds hf (hlater.mono fun _ _ hj => hj.1) hfail hepoch
      (h.jobs.unsent.adds hlater (fun p => (hflow p).1) fun p hp => (hflow p).2 ▸ hp)

/-- The queue of a write still has it after its `after`. -/
theorem afterJob_queue (res : Option JobErr) (hq : e.queues k = j :: rest) :
    (afterJob e j res).1.queues k ≠ [] := by
  have hdrop : ∀ p err, (dropNew e p err).queues k ≠ [] := by
    intro p err
    rw [(dropNew_jobs e p err).1]
    by_cases hk : k = outKey (e.outs p).id
    · subst hk
      rw [cancelLocked_self e _ _ hq]
      simp
    · unfold cancelLocked
      split
      · rw [hq]
        simp
      · simp only [update_of_ne hk, hq]
        simp
  have hadd : ∀ (ok : RecordKey → Job → Prop) (e' : Engine), Adds ok e e' →
      e'.queues k ≠ [] := by
    rintro ok e' ⟨l, -, hl, -⟩
    rw [hl, hq]
    simp
  rcases j with ⟨kind, owner, epoch, stage⟩
  cases kind with
  | putNew r =>
    rcases owner with p | i <;> rcases res with _ | (err | err)
    · exact hadd (fun _ _ => True) _ (Adds.of_eq rfl rfl)
    · exact hdrop p err
    · exact hdrop p err
    · exact hadd (fun _ _ => True) _ (Adds.of_eq rfl rfl)
    · exact hadd (fun _ _ => True) _ (Adds.of_eq rfl rfl)
    · exact hadd (fun _ _ => True) _ (Adds.of_eq rfl rfl)
  | settle f o r =>
    rcases owner with p | i <;> rcases res with _ | (err | err)
    · exact hadd _ _ (adds_settleAfter (setOut e p fun o => { o with settling := false }) p false)
    · exact hadd (fun _ _ => True) _ (Adds.of_eq rfl rfl)
    · exact hadd _ _ (adds_settleAfter (setOut e p fun o => { o with settling := false }) p true)
    · exact hadd (fun _ _ => True) _ (Adds.of_eq rfl rfl)
    · exact hadd (fun _ _ => True) _ (Adds.of_eq rfl rfl)
    · exact hadd (fun _ _ => True) _ (Adds.of_eq rfl rfl)
  | putOut r | putIn r | deleteIn =>
    rcases res with _ | (err | err) <;> exact hadd (fun _ _ => True) _ (Adds.of_eq rfl rfl)

section

variable (h : Core on s)
include h

/-- The completion of a write is one of the cases there are. -/
theorem finished (hown : Owners s.eng s.held s.reserved own)
    (hq : s.eng.queues k = j :: rest) (hstage : j.stage = .ran res) :
    Finished s.eng own j k res (finishJob s.eng k j res) := by
  have hmem := head_mem hq
  refine hown.finished hq hstage ?_ ?_ fun i q hi => (h.ordered.live_of_get hi).2
  · intro hf
    have := h.jobs.stale hf k j hmem
    omega
  · intro i hk
    have := h.jobs.side k j hmem
    rw [hk] at this
    by_contra hcon
    have := this.mp (by simpa using hcon)
    cases this

/-- INTERNAL: A write ends. -/
theorem finish (hq : s.eng.queues k = j :: rest) (hstage : j.stage = .ran res) :
    Core on { s with eng := finishJob s.eng k j res, reporting := s.reporting + 1 } := by
  have hmem := head_mem hq
  obtain ⟨own, hown⟩ := h.owners
  have howners : ∃ own', Owners (finishJob s.eng k j res) s.held s.reserved own' := by
    obtain ⟨own', hown', -⟩ := hown.finishJob hq (h.finished hown hq hstage)
    exact ⟨own', hown'⟩
  have hin := congrArg Inside.box (Acts.afterJob s.eng j res).inside
  have hin : Analysis.inbox (afterJob s.eng j res).1 = Analysis.inbox s.eng := hin
  rcases finishJob_cases s.eng k j res with ⟨hep, hcase⟩ | ⟨hep, heq⟩
  · have hsend := (h.afterJob_send res hq hep).1
    obtain ⟨hjobs, hcounted⟩ := h.afterJob_inv res hq hep
    have hf := h.healthy_of_epoch hq hep
    have hfd : (popJob (afterJob s.eng j res).1 k).failure = none :=
      (same_failure (Acts.afterJob s.eng j res).statics).trans hf
    -- The state before a failure, if there is one.
    have hsend' : SendInv on (popJob (afterJob s.eng j res).1 k) s.outstanding
        (Sys.publishes s.sent) := hsend.congr_statics rfl rfl
    have hin' : (Analysis.inbox (popJob (afterJob s.eng j res).1 k)).Sound := by
      rw [inbox_popJob, hin]
      exact h.inbox
    have hjobs' := popJob_inv hjobs k
    have hcounted' := hcounted.popJob k (afterJob_queue res hq)
    rcases hcase with ⟨-, heq⟩ | ⟨err, -, heq⟩
    · rw [heq] at howners ⊢
      exact ⟨hsend', howners, hin', hjobs', hcounted', fun hcon => absurd hfd hcon⟩
    · rw [heq] at howners ⊢
      refine ⟨hsend'.failLocked err, howners, ?_, hjobs'.failLocked err, ?_,
        fun _ => dead_failLocked _ err hfd⟩
      · have hbox := congrArg Inside.box (inside_failLocked _ err hfd)
        exact (show Analysis.inbox _ = _ from hbox) ▸ hin'.clear
      · have hfail := failLocked_eq _ err hfd
        rw [hfail]
        exact hcounted'.congr rfl rfl
  · rw [heq] at howners ⊢
    refine ⟨h.send.congr_statics rfl rfl, howners, h.inbox, popJob_inv h.jobs k,
      h.counted.popJob k (by rw [hq]; simp), ?_⟩
    intro hf
    have hd := h.dead hf
    exact ⟨hd.out, hd.refs, hd.orphans, hd.inn, hd.pub, hd.rel, hd.fifo, hd.ctrl, hd.cursor⟩

/-- INTERNAL: The end of a write is reported. -/
theorem report (hr : s.reporting ≠ 0) :
    Core on { s with eng := reportJob s.eng, reporting := s.reporting - 1 } := by
  obtain ⟨own, hown⟩ := h.owners
  refine ⟨h.send.congr_statics rfl rfl, ⟨own, ?_⟩, h.inbox, h.jobs.congr rfl rfl rfl rfl,
    h.counted.reportJob (Nat.pos_of_ne_zero hr), ?_⟩
  · exact hown.congr rfl rfl ⟨rfl, rfl, rfl⟩ rfl (fun _ => ⟨rfl, rfl, rfl, rfl, rfl, rfl⟩)
      (fun _ => rfl) (fun _ _ hi => hi) fun _ _ hr => hr
  · intro hf
    have hd := h.dead hf
    exact ⟨hd.out, hd.refs, hd.orphans, hd.inn, hd.pub, hd.rel, hd.fifo, hd.ctrl, hd.cursor⟩

/-- A step that leaves the engine and what is recorded of it alone, up to the meta and
the calls a failure has still to make. -/
theorem of_eng {m : Meta} {dropped : List (OutPtr × SettleFn × PubErr)}
    (heng : t.eng = { s.eng with metaData := m, dropped := dropped })
    (hcallers : t.held = s.held ∧ t.reserved = s.reserved)
    (hmon : t.outstanding = s.outstanding ∧ t.sent = s.sent ∧ t.reporting = s.reporting) :
    Core on t := by
  obtain ⟨own, hown⟩ := h.owners
  refine h.of_idle ⟨own, ?_⟩ ?_ ?_ ?_ ?_ ?_ ?_ ?_ ?_ hmon
  all_goals rw [heng]
  · rw [hcallers.1, hcallers.2]
    exact hown.congr rfl rfl ⟨rfl, rfl, rfl⟩ rfl (fun _ => ⟨rfl, rfl, rfl, rfl, rfl, rfl⟩)
      (fun _ => rfl) (fun _ _ hi => hi) fun _ _ hr => hr
  · exact ⟨rfl, rfl⟩
  · exact fun hg => hg
  · rfl
  · rfl
  · exact ⟨rfl, rfl⟩

end

end Core

/-- A step that does not replace the session as a whole. -/
def Plain (a : Event) : Prop := a ≠ .restore ∧ a ≠ .discardLocked ∧ a ≠ .restart

/-- INTERNAL: The invariant holds at the start. -/
theorem core_init (cfg : Config) (max : ℕ) (hmax : 0 < max) : Core True (Sys.init cfg max) := by
  have hordered : (sendQueue (new cfg max)).Ordered [] := by
    apply SendQueue.Ordered.of_empty rfl rfl
    · intro id
      exact get_empty id
    · intro r
      exact get_empty r
    · rintro p ⟨hlt, -⟩
      exact absurd hlt (Nat.not_lt_zero p)
  refine ⟨⟨SendQueue.Steady.of_empty hordered rfl rfl, ?_, ?_, ?_, ?_⟩, ⟨fun _ => none, ⟨?_, ?_⟩⟩,
    Inbox.Sound.empty _, ?_, ?_, ?_⟩
  · intro _ _ hg
    exact absurd rfl hg
  · intro _
    show ((0 : ℕ) : ℤ) ≤ 65535
    omega
  · intro _ hg
    exact absurd rfl hg
  · intro _ p hp
    cases hp
  · refine ⟨balanced_new max hmax, rfl, ?_, ?_, fun _ _ => rfl, ?_, ?_, ?_, ?_, List.nodup_nil⟩
    · intro _ _ hcon
      cases hcon
    · intro _ _ hcon
      cases hcon
    · intro i p hp
      rw [show (Sys.init cfg max).eng.out = ∅ from rfl, get_empty] at hp
      cases hp
    · intro r p hp
      rw [show (Sys.init cfg max).eng.orphans = ∅ from rfl, get_empty] at hp
      cases hp
    · intro _ _ hcon
      cases hcon
    · intro _ _ hmem
      cases hmem
  · intro _ _ hcon
    cases hcon
  · exact jobInv_of_idle fun _ => rfl
  · exact ⟨∅, fun _ _ => rfl, rfl⟩
  · intro hcon
    exact absurd rfl hcon

/-- INTERNAL: **One step keeps the invariant.** -/
theorem Core.step {on : Prop} {s t : Sys} {a : Event} (h : Core on s) (ha : Plain a)
    (hstep : s.step a = some t) :
    Core on t := by
  cases (stepped hstep).2 with
  | reserve hfree => exact h.reserve (if_pos hfree)
  | take o r hres ho hr =>
    have halloc : allocateID s.eng o = some (r.1, { s.eng with ids := r.2 }) := by
      rw [allocateID, hr]
      rfl
    exact h.take ho (Nat.pos_of_ne_zero hres) halloc
  | releaseID id o hheld =>
    obtain ⟨own, hown⟩ := h.owners
    exact h.release ⟨own, hown.releaseID hheld⟩
  | register m now hheld => exact h.register m now hheld
  | withdraw p hp => exact h.withdraw hp
  | adopt ref f => exact h.adopt ref f
  | puback id rc refused => exact h.puback id rc refused
  | pubrec id rc refused => exact h.pubrec id rc refused
  | pubcomp id => exact h.pubcomp id
  | receive id qos => exact h.receive id qos
  | ack i hi => exact h.ack hi
  | pubrel id => exact h.pubrel id
  | connectedFailed | setMetaSame => exact h
  | connected ci now hf => exact h.connected (by simpa using hf) ci now _
  | disconnected l => exact h.disconnected l
  | collect gen upTo now => exact h.collect gen upTo now
  | collectControl gen => exact h.collectControl gen
  | callSettle k f o ref p ep rest hq =>
    exact h.setStage .settling hq (fun c hc => by cases hc) rfl ⟨rfl, rfl⟩ ⟨rfl, rfl, rfl⟩
  | settleFailed k c f o ref q ep rest hq href =>
    exact h.setStage _ hq (fun _ _ => ⟨f, o, ref, rfl, href⟩) rfl ⟨rfl, rfl⟩ ⟨rfl, rfl, rfl⟩
  | settled k err f o ref q ep rest hq =>
    exact h.setStage .settled hq (fun c hc => by cases hc) rfl ⟨rfl, rfl⟩ ⟨rfl, rfl, rfl⟩
  | ranAlone k err applied j rest hq =>
    exact h.setStage (.ran none) hq (fun c hc => by cases hc) rfl ⟨rfl, rfl⟩ ⟨rfl, rfl, rfl⟩
  | ranStore k err applied j rest hq =>
    refine h.setStage (.ran (err.map .store)) hq ?_ rfl ⟨rfl, rfl⟩ ⟨rfl, rfl, rfl⟩
    intro c hc
    cases err with
    | none => cases hc
    | some c' => cases hc
  | finish k j rest res hq hstage => exact h.finish hq hstage
  | report hrep => exact h.report hrep
  | setMetaFailed => exact h.failLocked _ none
  | restored | notRestored => exact absurd rfl ha.1
  | discardLocked => exact absurd rfl ha.2.1
  | restart => exact absurd rfl ha.2.2
  | _ => exact h.of_eng rfl ⟨rfl, rfl⟩ ⟨rfl, rfl, rfl⟩

end Mqttv5.Analysis
