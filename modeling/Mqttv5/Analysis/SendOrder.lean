import Mqttv5.Analysis.Failure

/-!
# The send queue through the engine's loops

The loops of the engine over its outbound flows: the loss of a session, the broker's limits,
`Collect`, the failure of the session and `Discard`. Each is an induction over the list the
loop walks, with `Ordered`, `Metered` and `Walked` as what a round keeps.
-/

set_option autoImplicit false

namespace Mqttv5.Analysis

open Mqttv5.Computation Model Program Interface List FiniteMap

variable {b : SendQueue} {e : Engine} {p : OutPtr} {rest flows outstanding handed : List OutPtr}

/-- The flows are listed in the order they were first sent in. -/
def InSendOrder (b : SendQueue) (l : List OutPtr) : Prop :=
  l.Pairwise fun p q => (b.flows p).pubSeq < (b.flows q).pubSeq

/-- INTERNAL: The send order depends on the first places alone. -/
theorem InSendOrder.congr {b' : SendQueue} {l : List OutPtr} (h : InSendOrder b l)
    (hflow : ∀ p, (b'.flows p).pubSeq = (b.flows p).pubSeq) : InSendOrder b' l := by
  unfold InSendOrder
  simp only [hflow]
  exact h

/-- INTERNAL: The end of a flow leaves its first place. -/
theorem close_pubSeq (b : SendQueue) (p q : OutPtr) :
    ((b.close p).flows q).pubSeq = (b.flows q).pubSeq := by
  by_cases hq : q = p
  · simp [SendQueue.close, SendQueue.setFlow, hq]
  · simp [SendQueue.close, SendQueue.setFlow, hq]

/-- INTERNAL: So does its new send. -/
theorem requeue_pubSeq (b : SendQueue) (p q : OutPtr) :
    ((b.requeue p).flows q).pubSeq = (b.flows q).pubSeq := by
  by_cases hq : q = p
  · simp [SendQueue.requeue, hq]
  · simp [SendQueue.requeue, SendQueue.setFlow, hq]

/-- What a round of the loop over the flows of a lost session relies on: `pub` are the flows
sent again so far, all in front of those to come. -/
structure Losing (e : Engine) (flows : List OutPtr) : Prop where
  ordered : (sendQueue e).Ordered flows
  metered : (sendQueue e).Metered flows []
  sorted : InSendOrder (sendQueue e) (e.pub ++ flows)

/-- INTERNAL: A round of the loop over the flows of a lost session. -/
theorem Losing.loseFlow (h : Losing e (p :: rest)) (now : Time) :
    Losing (loseFlow now e p) rest := by
  have hcounted := h.metered.counted_of_idle (p := p) (by simp [SendQueue.listed])
  rcases sendQueue_loseFlow e p now with hclose | hrequeue
  · have hpub : (Program.loseFlow now e p).pub = e.pub := congrArg SendQueue.pub hclose
    refine ⟨?_, ?_, ?_⟩
    · rw [hclose]
      exact h.ordered.close
    · rw [hclose]
      exact h.metered.close hcounted
    · rw [hclose, hpub]
      refine InSendOrder.congr ?_ (close_pubSeq _ p)
      exact h.sorted.sublist (List.Sublist.append_left (sublist_cons_self p rest) _)
  · have hpub : (Program.loseFlow now e p).pub = e.pub ++ [p] := congrArg SendQueue.pub hrequeue
    have hlast : ∀ q ∈ (sendQueue e).pub,
        ((sendQueue e).flows q).pubSeq < ((sendQueue e).flows p).pubSeq := by
      intro q hq
      exact (pairwise_append.mp h.sorted).2.2 q hq p (by simp)
    refine ⟨?_, ?_, ?_⟩
    · rw [hrequeue]
      exact h.ordered.requeue hlast
    · rw [hrequeue]
      exact h.metered.requeue hcounted
    · rw [hrequeue, hpub]
      refine InSendOrder.congr ?_ (requeue_pubSeq _ p)
      simpa [InSendOrder] using h.sorted

/-- INTERNAL: The whole loop. -/
theorem Losing.foldl (h : Losing e flows) (now : Time) :
    Losing (flows.foldl (Program.loseFlow now) e) [] := by
  induction flows generalizing e with
  | nil => exact h
  | cons p rest ih => exact ih (h.loseFlow now)

/-- INTERNAL: `sortByPubSeq` is strict, for no two flows of a session have the same place. -/
theorem sortByPubSeq_inSendOrder (e : Engine) (h : (sendQueue e).Ordered []) :
    InSendOrder (sendQueue e) (sortByPubSeq e (e.pub ++ e.rel)) := by
  have hperm : (sortByPubSeq e (e.pub ++ e.rel)).Perm (e.pub ++ e.rel) :=
    perm_insertionSort _ _
  have hnodup : (sortByPubSeq e (e.pub ++ e.rel)).Nodup := by
    rw [hperm.nodup_iff]
    have := h.nodup
    simpa [SendQueue.listed] using this
  have hlive : ∀ p ∈ sortByPubSeq e (e.pub ++ e.rel), (sendQueue e).Live p := by
    intro p hp
    rw [hperm.mem_iff] at hp
    exact (h.mem p).mp (by simpa [SendQueue.listed] using hp)
  have hsorted : (sortByPubSeq e (e.pub ++ e.rel)).Pairwise
      fun a b => (e.outs a).pubSeq ≤ (e.outs b).pubSeq := by
    have htotal : Std.Total fun a b => (e.outs a).pubSeq ≤ (e.outs b).pubSeq :=
      ⟨fun a b => Nat.le_total _ _⟩
    have htrans : IsTrans OutPtr fun a b => (e.outs a).pubSeq ≤ (e.outs b).pubSeq :=
      ⟨fun a b c => Nat.le_trans⟩
    exact pairwise_insertionSort _ _
  refine (List.Pairwise.and hsorted hnodup).imp_of_mem ?_
  intro p q hp hq hpq
  refine Nat.lt_of_le_of_ne hpq.1 ?_
  intro heq
  exact hpq.2 (h.inj p q (hlive p hp) (hlive q hq) heq)

/-- The state in which the loop over the flows of a lost session starts. -/
theorem Losing.drainFlowsLocked (ho : (sendQueue e).Ordered []) (hm : (sendQueue e).Metered [] []) :
    Losing (drainFlowsLocked e).1 (drainFlowsLocked e).2 := by
  have hperm : (sortByPubSeq e (e.pub ++ e.rel)).Perm (e.pub ++ e.rel) :=
    perm_insertionSort _ _
  exact ⟨ho.drain hperm, hm.drain hperm, sortByPubSeq_inSendOrder e ho⟩

/-- INTERNAL: The loss of a session keeps the order and the quota. -/
theorem sessionLostLocked_send (e : Engine) (now : Time) (ho : (sendQueue e).Ordered [])
    (hm : (sendQueue e).Metered [] []) :
    (sendQueue (sessionLostLocked e now)).Ordered [] ∧
    (sendQueue (sessionLostLocked e now)).Metered [] [] := by
  unfold sessionLostLocked
  have hin : sendQueue (clearIn (e.inn.toList.foldl loseIn e)) = sendQueue e :=
    (Inward.lose e).sendQueue
  generalize clearIn (e.inn.toList.foldl loseIn e) = d at hin ⊢
  have hend := (Losing.drainFlowsLocked (e := d) (hin ▸ ho) (hin ▸ hm)).foldl now
  exact ⟨hend.ordered, hend.metered⟩

/-- A flow waiting for no PUBCOMP is not in the phase that does. -/
theorem phase_ne_of_pub {loose : List OutPtr} (ho : (sendQueue e).Ordered loose) (hp : p ∈ e.pub) :
    (e.outs p).phase ≠ .awaitPubcomp := by
  have hw := (ho.pub_seq p hp).2
  have hfin : (e.outs p).finished = false := (ho.live_of_pub hp).2
  simpa [sendQueue, flowOf, hfin] using hw

/-- What a round of the loop of the broker's limits relies on: the flows to come are all in
the send order. -/
structure Limiting (e : Engine) (flows : List OutPtr) : Prop where
  ordered : (sendQueue e).Ordered []
  metered : (sendQueue e).Metered [] []
  nodup : flows.Nodup
  sub : ∀ p ∈ flows, p ∈ e.pub

/-- INTERNAL: A round of the loop of the limits. -/
theorem Limiting.enforceLimit (h : Limiting e (p :: rest)) (l : Limits) (fresh : Bool) :
    Limiting (enforceLimit l fresh e p) rest := by
  have hp : p ∈ e.pub := h.sub p (by simp)
  have hcounted := h.metered.counted_of_idle (p := p) (by simp [SendQueue.listed]; exact .inl hp)
  obtain ⟨hnot, hnodup⟩ := nodup_cons.mp h.nodup
  have hrest : ∀ q ∈ rest, q ∈ e.pub := fun q hq => h.sub q (.tail _ hq)
  rcases sendQueue_enforceLimit e p l fresh (phase_ne_of_pub h.ordered hp) with
    heq | ⟨-, hfin | hqos⟩
  · have hpub : (Program.enforceLimit l fresh e p).pub = e.pub := congrArg SendQueue.pub heq
    exact ⟨heq ▸ h.ordered, heq ▸ h.metered, hnodup, by rw [hpub]; exact hrest⟩
  · have hpub : (Program.enforceLimit l fresh e p).pub = e.pub.erase p :=
      congrArg SendQueue.pub hfin
    refine ⟨?_, ?_, hnodup, ?_⟩
    · rw [hfin]
      exact h.ordered.finish (.inl hp)
    · rw [hfin]
      exact h.metered.finish h.ordered (.inl hp) hcounted
    · intro q hq
      have hqp : q ≠ p := fun hqp => hnot (hqp ▸ hq)
      rw [hpub, mem_erase_of_ne hqp]
      exact hrest q hq
  · have hpub : (Program.enforceLimit l fresh e p).pub = e.pub := congrArg SendQueue.pub hqos
    refine ⟨?_, ?_, hnodup, by rw [hpub]; exact hrest⟩
    · rw [hqos]
      refine h.ordered.congr rfl rfl (fun _ => rfl) rfl rfl (fun _ _ h => h) ?_
      intro q
      by_cases hq : q = p
      · subst hq; simp
      · simp [SendQueue.setFlow, hq]
    · rw [hqos]
      refine h.metered.congr (List.Perm.refl _) ?_ rfl rfl
      intro q
      by_cases hq : q = p
      · subst hq; simp
      · simp [SendQueue.setFlow, hq]

/-- INTERNAL: The whole loop. -/
theorem Limiting.foldl (h : Limiting e flows) (l : Limits) (fresh : Bool) :
    Limiting (flows.foldl (Program.enforceLimit l fresh) e) [] := by
  induction flows generalizing e with
  | nil => exact h
  | cons p rest ih => exact ih (h.enforceLimit l fresh)

/-- INTERNAL: The limits keep the order and the quota. -/
theorem limitLocked_send (e : Engine) (ci : ConnInfo) (ho : (sendQueue e).Ordered [])
    (hm : (sendQueue e).Metered [] []) :
    (sendQueue (limitLocked e ci)).Ordered [] ∧ (sendQueue (limitLocked e ci)).Metered [] [] := by
  unfold limitLocked
  split
  · exact ⟨ho, hm⟩
  · rename_i l _
    have hend := (Limiting.mk ho hm ho.pub_nodup fun _ hp => hp).foldl l !ci.sessionPresent
    exact ⟨hend.ordered, hend.metered⟩

/-- INTERNAL: A new connection keeps the order and has its whole quota. -/
theorem bindLocked_send (e : Engine) (ci : ConnInfo) (ho : (sendQueue e).Ordered []) :
    (sendQueue (bindLocked e ci)).Ordered [] ∧ (sendQueue (bindLocked e ci)).Metered [] [] := by
  rw [sendQueue_bindLocked]
  refine ⟨ho.bind _, SendQueue.Metered.start ?_ rfl ?_⟩
  · intro p hp
    have hlive := ((ho.bind _).mem p).mp hp
    have hlive' : (sendQueue e).Live p := by
      have hfin : (((sendQueue e).bind (if ci.receiveMaximum = 0 then 65535
          else ci.receiveMaximum)).flows p).finished = ((sendQueue e).flows p).finished := by
        simp only [SendQueue.bind]
        split <;> rfl
      exact ⟨hlive.1, hfin ▸ hlive.2⟩
    have hget := (ho.get _ p).mpr ⟨hlive', rfl⟩
    have hvals : p ∈ (sendQueue e).out.vals := (mem_vals _ _).mpr ⟨_, hget⟩
    simp [SendQueue.bind, hvals]
  · simp only [SendQueue.bind]
    split <;> simp

/-- INTERNAL: **A new connection** starts with every flow of the session in its place, the
whole quota and nothing handed out. -/
theorem connected_send (e : Engine) (ci : ConnInfo) (now : Time) (hf : e.failure = none)
    (ho : (sendQueue e).Ordered []) :
    (sendQueue (connected e ci now)).Ordered [] ∧ (sendQueue (connected e ci now)).Metered [] [] ∧
    (sendQueue (connected e ci now)).Walked [] := by
  unfold connected
  simp only [hf, Option.isSome_none, Bool.false_eq_true, if_false]
  rw [sendQueue_rewindLocked]
  have hbind := bindLocked_send e ci ho
  have hsession : (sendQueue (if ci.sessionPresent = true then resumeLocked (bindLocked e ci)
        else sessionLostLocked (bindLocked e ci) now)).Ordered [] ∧
      (sendQueue (if ci.sessionPresent = true then resumeLocked (bindLocked e ci)
        else sessionLostLocked (bindLocked e ci) now)).Metered [] [] := by
    split
    · exact hbind
    · exact sessionLostLocked_send _ now hbind.1 hbind.2
  have hlimit := limitLocked_send _ ci hsession.1 hsession.2
  refine ⟨hlimit.1.rewind, ?_, SendQueue.Walked.start _⟩
  exact hlimit.2.congr (List.Perm.refl _) (fun _ => ⟨rfl, id⟩) rfl rfl

/-! ## Collect -/

/-- A send queue that serves a connection. -/
structure Serving (b : SendQueue) (outstanding handed : List OutPtr) : Prop where
  ordered : b.Ordered []
  metered : b.Metered [] outstanding
  walked : b.Walked handed
  handed : ∀ p ∈ outstanding, p ∈ handed

/-- INTERNAL: The flow at the cursor is handed out. -/
theorem Serving.handOut (h : Serving b outstanding handed) (hc : b.cursor = some p)
    (hquota : b.quota ≠ 0) : Serving (b.handOut p) (outstanding ++ [p]) (handed ++ [p]) := by
  obtain ⟨hpub, hnot⟩ := h.walked.cursor_mem hc
  have hlive := h.ordered.live_of_pub hpub
  -- A flow that holds a unit was handed out, and the one at the cursor was not.
  have hcounted : (b.flows p).counted = false := by
    by_contra hcon
    have hmem := (h.metered.mem_outstanding_iff h.ordered).mpr ⟨hlive, by simpa using hcon⟩
    exact hnot (h.handed p hmem)
  refine ⟨h.ordered.handOut, h.metered.handOut h.ordered hlive hcounted hquota,
    h.walked.handOut h.ordered hc, ?_⟩
  intro q hq
  rcases mem_append.mp hq with hq | hq
  · exact mem_append_left _ (h.handed q hq)
  · exact mem_append_right _ hq

/-- INTERNAL: A flow that was not handed out ends. -/
theorem Serving.finish (h : Serving b outstanding handed) (hp : p ∈ b.pub)
    (hatt : (b.flows p).attempted = false) : Serving (b.finish p) outstanding handed := by
  have hcounted : (b.flows p).counted = false := by
    by_contra hcon
    have := h.metered.tried p (by simp [SendQueue.listed, hp]) (by simpa using hcon)
    simp [hatt] at this
  exact ⟨h.ordered.finish (.inl hp), h.metered.finish h.ordered (.inl hp) hcounted,
    h.walked.finish h.ordered, h.handed⟩

section Publishes

open Sys

@[simp]
theorem publishes_nil : publishes [] = [] := rfl

@[simp]
theorem publishes_control (c : CtrlFrame) (fs : List Frame) :
    publishes (.control c :: fs) = publishes fs := rfl

@[simp]
theorem publishes_publish (p : OutPtr) (packet : Bytes) (dup : Bool) (fs : List Frame) :
    publishes (.publish p packet dup :: fs) = p :: publishes fs := rfl

/-- INTERNAL: The PUBLISHes of two batches. -/
@[simp]
theorem publishes_append (fs gs : List Frame) :
    publishes (fs ++ gs) = publishes fs ++ publishes gs := filterMap_append

/-- INTERNAL: Control packets are no PUBLISHes. -/
theorem publishes_collectControlLoop (l : List CtrlFrame) (e : Engine) :
    publishes (collectControlLoop l e).2 = [] := by
  induction l generalizing e with
  | nil => rfl
  | cons c rest ih =>
    unfold collectControlLoop
    split
    · simp only [publishes_control]
      exact ih _
    · rfl

/-- The PUBLISH loop of `Collect`: each round hands out the flow at the cursor, ends
it, or stops. -/
theorem collectLoop_serving (now : Time) (fuel sent : ℕ) (e : Engine)
    (outstanding handed : List OutPtr) (h : Serving (sendQueue e) outstanding handed) :
    Serving (sendQueue (collectLoop now fuel sent e).1)
      (outstanding ++ publishes (collectLoop now fuel sent e).2)
      (handed ++ publishes (collectLoop now fuel sent e).2) := by
  induction fuel generalizing sent e outstanding handed with
  | zero => simpa [collectLoop] using h
  | succ fuel ih =>
    unfold collectLoop
    split
    · simpa using h
    · rename_i p hc
      have hstop : Serving (sendQueue e) (outstanding ++ publishes [])
        (handed ++ publishes []) := by
        simpa using h
      have hpub : p ∈ e.pub := (h.walked.cursor_mem hc).1
      -- What handing out at the cursor does, from a state with the same send queue.
      have hsend : ∀ d : Engine, sendQueue d = sendQueue e → e.quota ≠ 0 → ∀ packet dup,
          Serving (sendQueue (collectLoop now fuel (sent + 1) (handOut d p)).1)
            (outstanding ++ publishes
              (.publish p packet dup :: (collectLoop now fuel (sent + 1) (handOut d p)).2))
            (handed ++ publishes
              (.publish p packet dup :: (collectLoop now fuel (sent + 1) (handOut d p)).2)) := by
        intro d hd hquota packet dup
        have hout : Serving (sendQueue (handOut d p)) (outstanding ++ [p]) (handed ++ [p]) := by
          rw [sendQueue_handOut, hd]
          exact h.handOut hc hquota
        have := ih (sent + 1) (handOut d p) _ _ hout
        simpa using this
      simp only
      split
      · exact hstop
      · split
        · exact hstop
        · rename_i hwait
          have hquota : e.quota ≠ 0 := fun hq => hwait (.inr (.inr hq))
          split
          · rename_i hexp
            have hatt : (e.outs p).attempted = false := by simpa using hexp.1
            apply ih
            rw [sendQueue_endFlow]
            exact h.finish hpub hatt
          · split
            · exact hsend e rfl hquota _ _
            · split
              · rw [sendQueue_putOutLocked, sendQueue_shorten]
                exact hstop
              · exact hsend _ (sendQueue_shorten e p _) hquota _ _

/-- INTERNAL: `Collect` serves the connection. -/
theorem collect_serving (e : Engine) (gen upTo : ℕ) (now : Time) (outstanding handed : List OutPtr)
    (h : Serving (sendQueue e) outstanding handed) :
    Serving (sendQueue (collect e gen upTo now).1)
      (outstanding ++ publishes (collect e gen upTo now).2)
      (handed ++ publishes (collect e gen upTo now).2) := by
  unfold collect
  split
  · simpa using h
  · simp only [publishes_append, collectControlLocked, publishes_collectControlLoop,
      nil_append]
    apply collectLoop_serving
    rw [(Inward.collectControlLoop _ _).sendQueue]
    exact h

/-- INTERNAL: The loop of `Collect` keeps the cursor in place. -/
theorem collectLoop_steady (now : Time) (fuel sent : ℕ) (e : Engine)
    (h : (sendQueue e).Steady) : (sendQueue (collectLoop now fuel sent e).1).Steady := by
  induction fuel generalizing sent e with
  | zero => exact h
  | succ fuel ih =>
    unfold collectLoop
    split
    · exact h
    · rename_i p hc
      have hsend : ∀ d : Engine, sendQueue d = sendQueue e →
          (sendQueue (collectLoop now fuel (sent + 1) (handOut d p)).1).Steady := by
        intro d hd
        apply ih
        rw [sendQueue_handOut, hd]
        exact h.handOut hc
      simp only
      split
      · exact h
      · split
        · exact h
        · split
          · apply ih
            rw [sendQueue_endFlow]
            exact h.finish (.inl (h.cursor_mem hc))
          · split
            · exact hsend e rfl
            · rename_i left _
              split
              · rw [sendQueue_putOutLocked, sendQueue_shorten]
                exact h
              · exact hsend _ (sendQueue_shorten e p left)

/-- INTERNAL: So does `Collect`. -/
theorem collect_steady (e : Engine) (gen upTo : ℕ) (now : Time) (h : (sendQueue e).Steady) :
    (sendQueue (collect e gen upTo now).1).Steady := by
  unfold collect
  split
  · exact h
  · apply collectLoop_steady
    rw [collectControlLocked, (Inward.collectControlLoop _ _).sendQueue]
    exact h

/-- INTERNAL: `CollectControl` leaves the send queue alone. -/
theorem sendQueue_collectControl (e : Engine) (gen : ℕ) :
    sendQueue (collectControl e gen).1 = sendQueue e := by
  unfold collectControl
  split
  · rfl
  · exact (Inward.collectControlLoop e _).sendQueue

/-- INTERNAL: It hands out no PUBLISH. -/
theorem publishes_collectControl (e : Engine) (gen : ℕ) :
    publishes (collectControl e gen).2 = [] := by
  unfold collectControl
  split
  · rfl
  · exact publishes_collectControlLoop _ e

/-- Without a connection to serve nothing is handed out. -/
theorem collect_of_not_serves (e : Engine) (gen upTo : ℕ) (now : Time)
    (h : servesLocked e gen = false) : collect e gen upTo now = (e, []) := by
  unfold collect
  simp [h]

end Publishes

/-! ## The end of the session -/

/-- A failure ends every flow. -/
theorem sendQueue_failLocked (e : Engine) (err : StoreError) (h : e.failure = none) :
    sendQueue (failLocked e err) = { sendQueue e with
      pub := []
      rel := []
      out := ∅
      refs := ∅
      cursor := none
      flows := fun q => if q ∈ e.pub ++ e.rel then
          { (sendQueue e).flows q with finished := true, waiting := false }
        else (sendQueue e).flows q } := by
  have heq := failLocked_eq e err h
  rw [heq]
  simp only [sendQueue]
  congr 1
  funext q
  split <;> rfl

/-- INTERNAL: A failed session is in order. -/
theorem failLocked_ordered (e : Engine) (err : StoreError) (ho : (sendQueue e).Ordered []) :
    (sendQueue (failLocked e err)).Ordered [] := by
  by_cases h : e.failure = none
  · rw [sendQueue_failLocked e err h]
    apply SendQueue.Ordered.of_empty rfl rfl
    · intro id
      exact get_empty id
    · intro r
      exact get_empty r
    · rintro p ⟨hsize, hfin⟩
      simp only at hfin
      split at hfin
      · cases hfin
      · rename_i hmem
        have hlive := (ho.mem p).mpr ⟨hsize, hfin⟩
        exact hmem (by simpa [SendQueue.listed] using hlive)
  · rw [failLocked_of_failed e err h]
    exact ho

/-- INTERNAL: Its cursor stands where it may. -/
theorem failLocked_walked (e : Engine) (err : StoreError) (handed : List OutPtr)
    (hw : (sendQueue e).Walked handed) : (sendQueue (failLocked e err)).Walked handed := by
  by_cases h : e.failure = none
  · rw [sendQueue_failLocked e err h]
    refine hw.of_empty rfl rfl (le_refl _) (le_refl _) ?_
    intro p
    simp only
    split <;> rfl
  · rw [failLocked_of_failed e err h]
    exact hw

end Mqttv5.Analysis
