import Mqttv5.Analysis.FlowMoves

/-!
# A withdrawn message is never sent

`History` is a run of the session together with the flows whose PUBLISH a `Collect` has handed
out, on any connection, and the flows `Withdraw` has returned true for. A flow that comes back
from the store counts as handed out, and as withdrawn when it is the record of a withdrawn flow.

`Withdraw` goes by the flag `attempted`, which a session loss that republishes clears and which
says nothing about the record in the store. Apart from that no flow is ever in both lists;
`republished` are the flows of which the flag was cleared.
-/

set_option autoImplicit false

namespace Mqttv5.Guarantees

open Mqttv5.Computation Model Program Interface Analysis List

structure History where
  sys : Sys
  handedOut : List OutPtr := []
  withdrawn : List OutPtr := []
  republished : List OutPtr := []

/-- The flow at `q` of the session `e'` continues the flow at `p` of the session `e`, which was
stored. -/
def continues (e e' : Engine) (p q : OutPtr) : Bool :=
  (e.outs p).id = (e'.outs q).id ∧ (e.outs p).pubSeq = (e'.outs q).pubSeq ∧
    (e'.outs q).finished = false

/-- The flows from address `k` on that continue a withdrawn one. -/
def withdrawnAgain (withdrawn : List OutPtr) (e e' : Engine) (k : ℕ) : List OutPtr :=
  (List.range' k (e'.nextOut - k)).filter fun q => withdrawn.any fun p => continues e e' p q

/-- The flows a connection sends as new ones: they were handed out, and the broker has lost the
session. -/
def History.renewed (h : History) (ci : ConnInfo) (now : Time) : List OutPtr :=
  if ci.sessionPresent then []
  else (h.sys.eng.pub ++ h.sys.eng.rel).filter fun p =>
    (h.sys.eng.outs p).attempted && (lossReason h.sys.eng (h.sys.eng.outs p) now).isNone

/-- A step of the session, and what it adds to the history. -/
def History.step (h : History) (a : Event) : Option History :=
  (h.sys.step a).map fun t =>
    match a with
    | .collect gen upTo now => { h with
        sys := t
        handedOut := h.handedOut ++ Sys.publishes (collect h.sys.eng gen upTo now).2 }
    | .withdraw p => { h with
        sys := t
        withdrawn := if (withdraw h.sys.eng p).2 then h.withdrawn ++ [p] else h.withdrawn }
    | .connected ci now => { h with sys := t, republished := h.republished ++ h.renewed ci now }
    | .restore => { h with
        sys := t
        handedOut := h.handedOut ++
          List.range' h.sys.eng.nextOut (t.eng.nextOut - h.sys.eng.nextOut)
        withdrawn := h.withdrawn ++
          withdrawnAgain h.withdrawn h.sys.eng t.eng h.sys.eng.nextOut }
    | .restart =>
      { sys := t
        handedOut := List.range' 0 t.eng.nextOut
        withdrawn := withdrawnAgain h.withdrawn h.sys.eng t.eng 0 }
    | _ => { h with sys := t }

/-- None of the records is that of a withdrawn flow. -/
def History.forgotten (h : History) (recs : List Record) : Prop :=
  ∀ p ∈ h.withdrawn, ∀ r ∈ recs,
    ¬ (r.key.packetID = (h.sys.eng.outs p).id ∧ r.seq = (h.sys.eng.outs p).pubSeq)

/-- No flow that a session loss has republished is withdrawn before it is sent again, and no record
of a withdrawn flow is restored. `AtRest` says when Restore and Discard may come. -/
def Unbroken (h : History) (a : Event) : Prop :=
  AtRest True h.sys a ∧
  match a with
  | .withdraw p => p ∈ h.republished → (h.sys.eng.outs p).attempted = true
  | .restore => ∀ m recs, h.sys.loaded = some (m, recs) → h.forgotten recs
  | .restart => h.forgotten h.sys.store.load.2
  | _ => True

/-- What a run keeps: a flow that was handed out is marked, or ended, or republished; a withdrawn
one has ended; and no flow is both. -/
structure HistoryInv (h : History) : Prop where
  session : Session True h.sys
  handed : ∀ p ∈ h.handedOut, p < h.sys.eng.nextOut ∧
    ((h.sys.eng.outs p).attempted = true ∨ (h.sys.eng.outs p).finished = true ∨
      p ∈ h.republished)
  ended : ∀ p ∈ h.withdrawn, p < h.sys.eng.nextOut ∧ (h.sys.eng.outs p).finished = true
  apart : ∀ p ∈ h.handedOut, p ∉ h.withdrawn

variable {h : History} {t : Sys} {G : Out → Out → Prop} {e e' : Engine} {now : Time} {o o' : Out}
  {p : OutPtr} {recs : List Record}

/-- INTERNAL: A step after which a flow that had ended or was marked still is, or is among those
republished. -/
theorem HistoryInv.of_marks (hk : HistoryInv h) (ht : Session True t) {republished : List OutPtr}
    (hnext : h.sys.eng.nextOut ≤ t.eng.nextOut) (hfin : ∀ q < h.sys.eng.nextOut,
      (h.sys.eng.outs q).finished = true → (t.eng.outs q).finished = true)
    (hmark : ∀ q < h.sys.eng.nextOut, (h.sys.eng.outs q).attempted = true ∨ q ∈ h.republished →
      (t.eng.outs q).attempted = true ∨ (t.eng.outs q).finished = true ∨ q ∈ republished) :
    HistoryInv { h with sys := t, republished := republished } := by
  refine ⟨ht, fun p hp => ?_, fun p hp => ?_, hk.apart⟩
  · obtain ⟨hlt, hp⟩ := hk.handed p hp
    refine ⟨hlt.trans_le hnext, ?_⟩
    rcases hp with hp | hp | hp
    · exact hmark p hlt (.inl hp)
    · exact .inr (.inl (hfin p hlt hp))
    · exact hmark p hlt (.inr hp)
  · obtain ⟨hlt, hp⟩ := hk.ended p hp
    exact ⟨hlt.trans_le hnext, hfin p hlt hp⟩

/-- INTERNAL: A step after which the flows read no worse, and that adds nothing to the history. -/
theorem HistoryInv.of_flows (hk : HistoryInv h) (ht : Session True t)
    (hnext : h.sys.eng.nextOut ≤ t.eng.nextOut) (hflow : ∀ q < h.sys.eng.nextOut,
      ((h.sys.eng.outs q).finished = true → (t.eng.outs q).finished = true) ∧
      ((h.sys.eng.outs q).attempted = true → (t.eng.outs q).attempted = true)) :
    HistoryInv { h with sys := t } :=
  hk.of_marks ht hnext (fun q hlt => (hflow q hlt).1) fun q hlt =>
    Or.imp (hflow q hlt).2 .inr

theorem finished_of_moves (h : Moves G e e')
    (hG : ∀ o o', G o o' → o.finished = true → o'.finished = true) (q : OutPtr)
    (hq : (e.outs q).finished = true) : (e'.outs q).finished = true :=
  h.keeps (fun o => o.finished = true) (fun _ _ ht => ht.finished) hG q hq

theorem attempted_of_moves (h : Moves G e e')
    (hG : ∀ o o', G o o' → o.attempted = true → o'.attempted = true) (q : OutPtr)
    (hq : (e.outs q).attempted = true) : (e'.outs q).attempted = true :=
  h.keeps (fun o => o.attempted = true) (fun _ _ ht hq => ht.attempted.trans hq) hG q hq

theorem HistoryInv.of_books (hk : HistoryInv h) (ht : Session True t)
    (hm : Moves Never h.sys.eng t.eng) : HistoryInv { h with sys := t } := by
  refine hk.of_flows ht hm.nextOut.ge fun q _ => ⟨?_, fun hq => ?_⟩
  · exact finished_of_moves hm (fun _ _ hf => hf.elim) q
  · exact attempted_of_moves hm (fun _ _ hf => hf.elim) q hq

theorem renews_finished {policy : SessionLossPolicy} {lost : Bool}
    (h : Moves.Renews policy now lost o o') (ho : o.finished = true) : o'.finished = true := by
  cases h with
  | renew =>
    unfold asNew
    simp only
    split <;> exact ho
  | downgrade => exact ho

/-- INTERNAL: A connection that renews some of the flows that were handed out. -/
theorem HistoryInv.connected (hk : HistoryInv h) {ci : ConnInfo} (ht : Session True t)
    (heng : t.eng = connected h.sys.eng ci now) :
    HistoryInv { h with sys := t, republished := h.republished ++ h.renewed ci now } := by
  have hm := Moves.connected h.sys.eng ci now
  rw [← heng] at hm
  have hfin := finished_of_moves hm fun _ _ hr => renews_finished hr
  refine hk.of_marks ht hm.nextOut.ge (fun q _ => hfin q) fun q hlt hq => ?_
  rcases hq with hq | hq
  · by_cases hend : (h.sys.eng.outs q).finished = true
    · exact .inr (.inl (hfin q hend))
    by_cases hnew : q ∈ h.renewed ci now
    · exact .inr (.inr (mem_append_right _ hnew))
    -- A live flow is on one of the lists, so the connection would have renewed this one.
    have hlisted : q ∈ h.sys.eng.pub ++ h.sys.eng.rel := by
      have hmem := (hk.session.core.ordered.mem q).mpr ⟨hlt, Bool.eq_false_iff.mpr hend⟩
      simpa [SendQueue.listed] using hmem
    have hkeep := hm.keeps (fun o => o.attempted = true ∧
      o.expiresAt = (h.sys.eng.outs q).expiresAt)
      (fun o o' htr ho => ⟨htr.attempted.trans ho.1, htr.expiresAt.trans ho.2⟩)
      (fun o o' hr ho => ?_) q ⟨hq, rfl⟩
    · exact .inl hkeep.1
    · cases hr with
      | renew hlost hpolicy hexp =>
        refine absurd ?_ hnew
        have hexp' : expired (h.sys.eng.outs q) now = false := by
          unfold expired at hexp ⊢
          rw [← ho.2]
          exact hexp
        have hreason : lossReason h.sys.eng (h.sys.eng.outs q) now = none := by
          unfold lossReason
          rw [hpolicy, hexp']
          rfl
        rw [History.renewed, if_neg (by simpa using hlost)]
        exact mem_filter.mpr ⟨hlisted, by simp [hq, hreason]⟩
      | downgrade => exact ho
  · exact .inr (.inr (mem_append_left _ hq))

theorem sends_finished (h : Moves.Sends now o o') (ho : o.finished = true) :
    o'.finished = true := by
  cases h <;> exact ho

theorem sends_attempted (h : Moves.Sends now o o') (ho : o.attempted = true) :
    o'.attempted = true := by
  cases h with
  | send => rfl
  | shorten => exact ho

/-- INTERNAL: A flow whose PUBLISH is handed out is live afterwards, and marked. -/
theorem collected_live {s : Sys} (gen upTo : ℕ) (now : Time)
    (ht : Session True (s.handed (collect s.eng gen upTo now)))
    (hp : p ∈ Sys.publishes (collect s.eng gen upTo now).2) :
    p < (collect s.eng gen upTo now).1.nextOut ∧
      ((collect s.eng gen upTo now).1.outs p).finished = false ∧
      ((collect s.eng gen upTo now).1.outs p).attempted = true := by
  have hserves : servesLocked s.eng gen = true := by
    by_contra hcon
    unfold collect at hp
    rw [if_pos hcon] at hp
    cases hp
  have hbound : (collect s.eng gen upTo now).1.failure = none ∧
      (collect s.eng gen upTo now).1.gen ≠ 0 := by
    have hstat := statics_collect s.eng gen upTo now
    simp only [servesLocked, decide_eq_true_eq] at hserves
    have hfail : (collect s.eng gen upTo now).1.failure = s.eng.failure :=
      same_failure hstat
    have hgen : (collect s.eng gen upTo now).1.gen = s.eng.gen := same_gen hstat
    exact ⟨hfail.trans hserves.2.2, by rw [hgen, ← hserves.2.1]; exact hserves.1⟩
  have hmet := ht.core.send.metered trivial hbound.1 hbound.2
  have hmem : p ∈ (s.handed (collect s.eng gen upTo now)).outstanding :=
    mem_append_right _ hp
  obtain ⟨hlive, hcounted⟩ := (hmet.mem_outstanding_iff ht.core.ordered).mp hmem
  have htried := hmet.tried p ((ht.core.ordered.mem p).mpr hlive) hcounted
  exact ⟨hlive.1, hlive.2, htried⟩

theorem HistoryInv.collect (hk : HistoryInv h) (gen upTo : ℕ) (now : Time)
    (ht : Session True (h.sys.handed (collect h.sys.eng gen upTo now))) :
    HistoryInv { h with
      sys := h.sys.handed (collect h.sys.eng gen upTo now)
      handedOut := h.handedOut ++ Sys.publishes (collect h.sys.eng gen upTo now).2 } := by
  have hm := Moves.collect h.sys.eng gen upTo now
  have hbase : HistoryInv
      { h with sys := h.sys.handed (Program.collect h.sys.eng gen upTo now) } := by
    refine hk.of_flows ht hm.nextOut.ge fun q _ => ⟨?_, fun hq => ?_⟩
    · exact finished_of_moves hm (fun _ _ hs => sends_finished hs) q
    · exact attempted_of_moves hm (fun _ _ hs => sends_attempted hs) q hq
  refine ⟨ht, fun p hp => ?_, hbase.ended, fun p hp hw => ?_⟩
  · rcases mem_append.mp hp with hp | hp
    · exact hbase.handed p hp
    · obtain ⟨hlt, -, hatt⟩ := collected_live gen upTo now ht hp
      exact ⟨hlt, .inl hatt⟩
  · rcases mem_append.mp hp with hp | hp
    · exact hk.apart p hp hw
    · obtain ⟨-, hlive, -⟩ := collected_live gen upTo now ht hp
      have hend := (hbase.ended p hw).2
      rw [show (h.sys.handed (Program.collect h.sys.eng gen upTo now)).eng =
        (Program.collect h.sys.eng gen upTo now).1 from rfl, hlive] at hend
      cases hend

/-- INTERNAL: `Withdraw` ends the flow it returns true for, which was not handed out. -/
theorem withdraw_true (h : (withdraw e p).2 = true) :
    (e.outs p).finished = false ∧ (e.outs p).attempted = false ∧
      ((withdraw e p).1.outs p).finished = true := by
  unfold withdraw at h ⊢
  split at h
  · cases h
  · rename_i hcond
    simp only [not_or, Bool.not_eq_true] at hcond
    rw [if_neg (by simp [hcond.1, hcond.2])]
    refine ⟨hcond.1, hcond.2, ?_⟩
    have hfin : ((finishLocked (unlinkLocked e p) p (some .canceled)).outs p).finished = true := by
      unfold finishLocked
      simp only
      split <;> simp [setOut]
    exact finished_of_moves (Acts.retireLocked _ p).toMoves (fun _ _ hf => hf.elim) p hfin

/-- INTERNAL: Restored flows are marked or ended, and none of them was withdrawn. -/
theorem restored_marked (h : Revives recs e e') {q : ℕ}
    (hq : q ∈ List.range' e.nextOut (e'.nextOut - e.nextOut)) :
    e.nextOut ≤ q ∧ q < e'.nextOut ∧
      ((e'.outs q).attempted = true ∨ (e'.outs q).finished = true) := by
  have hrange := List.mem_range'_1.mp hq
  have hgrows := h.grows
  have hlt : q < e'.nextOut := by omega
  refine ⟨hrange.1, hlt, ?_⟩
  rcases h.new q hrange.1 hlt with hfin | ⟨r, -, -, hr⟩
  · exact .inr hfin
  · rw [hr]
    exact .inl rfl

theorem withdrawnAgain_nil {d : Engine} (hr : Revives recs d e') (hforgot : h.forgotten recs) :
    withdrawnAgain h.withdrawn h.sys.eng e' d.nextOut = [] := by
  unfold withdrawnAgain
  rw [filter_eq_nil_iff]
  intro q hq hany
  obtain ⟨p, hp, hcont⟩ := any_eq_true.mp hany
  obtain ⟨hid, hseq, hlive⟩ := of_decide_eq_true hcont
  have hrange := List.mem_range'_1.mp hq
  have hgrows := hr.grows
  rcases hr.new q hrange.1 (by omega) with hfin | ⟨r, hr, -, hout⟩
  · rw [hfin] at hlive
    cases hlive
  · refine hforgot p hp r hr ⟨?_, ?_⟩
    · rw [hid, hout]
      rfl
    · rw [hseq, hout]
      rfl

/-- INTERNAL: **One step.** -/
theorem HistoryInv.step {t : History} {a : Event} (hk : HistoryInv h) (ha : Unbroken h a)
    (hstep : h.step a = some t) : HistoryInv t := by
  obtain ⟨u, hu, rfl⟩ := Option.map_eq_some_iff.mp hstep
  have hsession : Session True u := hk.session.step ha.1 hu
  have hflow := flowStep hu
  cases hflow with
  | books hkeep hm =>
    have hbase := hk.of_books hsession hm
    cases a with
    | withdraw p =>
      obtain rfl : u = { h.sys with eng := (Program.withdraw h.sys.eng p).1 } := by
        cases (stepped hu).2
        rfl
      have hlt : p < h.sys.eng.nextOut := by
        cases (stepped hu).2
        assumption
      simp only
      split
      · rename_i htrue
        obtain ⟨hlive, hnot, hend⟩ := withdraw_true htrue
        refine ⟨hsession, hbase.handed, fun q hq => ?_, fun q hq hw => ?_⟩
        · rcases mem_append.mp hq with hq | hq
          · exact hbase.ended q hq
          · rw [mem_singleton.mp hq]
            exact ⟨by rw [hm.nextOut]; exact hlt, hend⟩
        · rcases mem_append.mp hw with hw | hw
          · exact hk.apart q hq hw
          · rw [mem_singleton.mp hw] at hq
            rcases (hk.handed p hq).2 with hp | hp | hp
            · rw [hnot] at hp
              cases hp
            · rw [hlive] at hp
              cases hp
            · have hp := ha.2 hp
              rw [hnot] at hp
              cases hp
      · exact hbase
    | collect gen upTo now => cases hkeep
    | restore =>
      have hnone : u.eng.nextOut - h.sys.eng.nextOut = 0 := by
        rw [hm.nextOut]
        exact Nat.sub_self _
      simp only [withdrawnAgain, hnone, List.range'_zero, filter_nil, append_nil]
      exact hbase
    | restart => cases hkeep
    | connected ci now =>
      exact hbase.of_marks hsession le_rfl (fun _ _ hq => hq) fun _ _ hq =>
        hq.imp_right fun hr => .inr (mem_append_left _ hr)
    | _ => exact hbase
  | register hf hnext houts =>
    refine hk.of_flows hsession (by rw [hnext]; exact Nat.le_succ _) fun q hlt => ?_
    rw [houts, Function.update_of_ne hlt.ne]
    exact ⟨fun hq => hq, fun hq => hq⟩
  | connected hf ht => exact hk.connected hsession ht
  | collect => exact hk.collect _ _ _ hsession
  | restore hloaded hrev =>
    have hbase : HistoryInv { h with sys := u } := by
      refine hk.of_flows hsession hrev.grows fun q hlt => ?_
      rw [hrev.old hlt]
      exact ⟨fun hq => hq, fun hq => hq⟩
    simp only
    rw [withdrawnAgain_nil hrev (ha.2 _ _ hloaded), append_nil]
    refine ⟨hsession, fun q hq => ?_, hbase.ended, fun q hq hw => ?_⟩
    · rcases mem_append.mp hq with hq | hq
      · exact hbase.handed q hq
      · obtain ⟨-, hlt, hmark⟩ := restored_marked hrev hq
        exact ⟨hlt, hmark.imp_right .inl⟩
    · rcases mem_append.mp hq with hq | hq
      · exact hk.apart q hq hw
      · obtain ⟨hge, -⟩ := restored_marked hrev hq
        exact absurd (hk.ended q hw).1 (Nat.not_lt_of_le hge)
  | restart hrev =>
    have hnil : withdrawnAgain h.withdrawn h.sys.eng u.eng 0 = [] :=
      withdrawnAgain_nil (d := new h.sys.eng.cfg h.sys.eng.ids.max) hrev ha.2
    show HistoryInv
      { sys := u
        handedOut := List.range' 0 u.eng.nextOut
        withdrawn := withdrawnAgain h.withdrawn h.sys.eng u.eng 0 }
    rw [hnil]
    refine ⟨hsession, fun q hq => ?_, fun q hq => ?_, fun q hq hw => ?_⟩
    · obtain ⟨-, hlt, hmark⟩ := restored_marked (e := new h.sys.eng.cfg h.sys.eng.ids.max) hrev hq
      exact ⟨hlt, hmark.imp_right .inl⟩
    · cases hq
    · cases hw

/-- **Withdraw means never sent.** In every run in which no flow that a session loss has republished
is withdrawn before it is sent again, and no record of a withdrawn flow is restored, no flow for
which `Withdraw` has returned true is ever handed out by a `Collect`, before or after. -/
theorem withdrawn_never_handed_out {cfg : Config} {max : ℕ} (hmax : 0 < max) {h : History}
    (hrun : Reach History.step Unbroken (· = { sys := Sys.init cfg max }) h) :
    ∀ p ∈ h.withdrawn, p ∉ h.handedOut := by
  have hkept : HistoryInv h := by
    refine hrun.invariant HistoryInv ?_ fun s a t hs ha hstep => hs.step ha hstep
    rintro _ rfl
    refine ⟨Session.init cfg hmax, fun p hp => ?_, fun p hp => ?_, fun p hp => ?_⟩
    · cases hp
    · cases hp
    · cases hp
  exact fun p hw hp => hkept.apart p hp hw

/-- Nothing is withdrawn once a flow was republished, and nothing is restored or discarded. -/
def noneRepublished (h : History) : Event → Bool
  | .withdraw _ => h.republished = []
  | .restore => false
  | .restart => false
  | .discardLocked => false
  | _ => true

theorem unbroken_of_none (h : History) (a : Event) (ha : noneRepublished h a = true) :
    Unbroken h a := by
  cases a with
  | withdraw p =>
    refine ⟨trivial, fun hp => ?_⟩
    rw [of_decide_eq_true ha] at hp
    cases hp
  | restore => cases ha
  | restart => cases ha
  | discardLocked => cases ha
  | _ => exact ⟨trivial, trivial⟩

/-- Two messages, of which the first is sent and the second, behind it, is withdrawn. -/
def withdrawSecond : List Event :=
  [.connected { sessionPresent := false, receiveMaximum := 1, link := 7 } 0, .reserve,
    .take .publish, .register { id := 1, qos := 1, packet := [0x32, 0] } 0, .collect 1 9 0,
      .reserve,
    .take .publish, .register { id := 2, qos := 1, packet := [0x32, 0] } 0, .withdraw 1,
    .puback 1 0 none, .collect 1 9 0]

/-- The withdrawn message of `withdrawSecond` stays unsent. -/
theorem second_never_handed_out :
    ∃ h, execute History.step { sys := Sys.init {} 3 } withdrawSecond = some h ∧
      h.handedOut = [0] ∧ h.withdrawn = [1] ∧ ∀ p ∈ h.withdrawn, p ∉ h.handedOut := by
  obtain ⟨h, hh, hP⟩ := exists_of_execute
    (show (execute History.step { sys := Sys.init {} 3 } withdrawSecond).any
      (fun h => h.handedOut = [0] ∧ h.withdrawn = [1]) = true by decide)
  simp only [decide_eq_true_eq] at hP
  have hreach : Reach History.step Unbroken (· = { sys := Sys.init {} 3 }) h :=
    Reach.of_execute unbroken_of_none (.start rfl) (by decide) hh
  exact ⟨h, hh, hP.1, hP.2, withdrawn_never_handed_out (by decide) hreach⟩

/-- A message is sent, the broker has lost the session, and the message is withdrawn before it is
sent again. -/
def withdrawRepublished : List Event :=
  [.connected { sessionPresent := false, receiveMaximum := 9, link := 7 } 0, .reserve,
    .take .publish, .register { id := 1, qos := 1, packet := [0x32, 0] } 0, .collect 1 9 0,
    .disconnected 7, .connected { sessionPresent := false, receiveMaximum := 9, link := 8 } 0,
    .withdraw 0]

/-- A stored message is withdrawn, and the process dies before its record is deleted; the next
process sends it. -/
def withdrawStored : List Event :=
  [.reserve, .take .publish, .register { id := 1, qos := 1, packet := [0x32, 0] } 0,
    .doStore (outKey 1) none true, .finish (outKey 1), .report, .withdraw 0, .restart,
    .connected { sessionPresent := true, receiveMaximum := 9, link := 8 } 0, .collect 1 9 0]

/-- `Withdraw` returns true for a flow whose PUBLISH has been handed out, and for one whose
PUBLISH is handed out later. -/
theorem withdrawn_and_handed_out :
    ((execute History.step { sys := Sys.init {} 3 } withdrawRepublished).any
      fun h => h.handedOut = [0] ∧ h.withdrawn = [0]) = true ∧
    ((execute History.step { sys := Sys.init { store := true } 3 } withdrawStored).any
      fun h => h.handedOut = [0, 0] ∧ h.withdrawn = [0] ∧ Sys.publishes h.sys.sent = [0]) =
        true := by
  decide

end Mqttv5.Guarantees
