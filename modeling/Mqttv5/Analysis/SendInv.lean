import Mqttv5.Analysis.SendOrder

/-!
# The send queue through the operations

`SendInv` is what a session keeps of its outbound flows in every state: their order, the quota
and the PUBLISHes outstanding against it, and the place of the cursor. Each operation of the
engine on its own keeps it.
-/

set_option autoImplicit false

namespace Mqttv5.Analysis

open Model Program Interface

/-- `outstanding` are the PUBLISHes handed out and not answered since, `handed` all those handed
out on this connection. A failed session and one without a connection have no account to keep;
neither has one restored under a connection, which `on` leaves out. -/
structure SendInv (on : Prop) (e : Engine) (outstanding handed : List OutPtr) : Prop where
  steady : (sendQueue e).Steady
  metered : on → e.failure = none → e.gen ≠ 0 → (sendQueue e).Metered [] outstanding
  within : on → (outstanding.length : ℤ) ≤ e.quotaMax
  walked : on → e.gen ≠ 0 → (sendQueue e).Walked handed
  sent : on → ∀ p ∈ outstanding, p ∈ handed

namespace SendInv

variable {on : Prop} {e e' : Engine} {outstanding handed : List OutPtr} {p : OutPtr}

section

variable (h : SendInv on e outstanding handed)
include h

theorem ordered : (sendQueue e).Ordered [] :=
  h.steady.ordered

/-- A step that does not show in the send queue. -/
theorem congr (hq : sendQueue e' = sendQueue e) (hf : e'.failure = none → e.failure = none)
    (hg : e'.gen ≠ 0 → e.gen ≠ 0) : SendInv on e' outstanding handed := by
  have hmax : e'.quotaMax = e.quotaMax := congrArg SendQueue.quotaMax hq
  refine ⟨hq ▸ h.steady, fun hon hf' hg' => hq ▸ h.metered hon (hf hf') (hg hg'), ?_,
    fun hon hg' => hq ▸ h.walked hon (hg hg'), h.sent⟩
  rw [hmax]
  exact h.within

theorem congr_statics (hq : sendQueue e' = sendQueue e) (hs : statics e' = statics e) :
    SendInv on e' outstanding handed := by
  have hfail : e'.failure = e.failure := same_failure hs
  have hgen : e'.gen = e.gen := same_gen hs
  exact h.congr hq (fun hf => hfail ▸ hf) fun hg => hgen ▸ hg

theorem serving (hon : on) {gen : ℕ} (hs : servesLocked e gen = true) :
    Serving (sendQueue e) outstanding handed := by
  unfold servesLocked at hs
  simp only [decide_eq_true_eq] at hs
  obtain ⟨hg, heq, hf⟩ := hs
  exact ⟨h.ordered, h.metered hon hf (heq ▸ hg), h.walked hon (heq ▸ hg), h.sent hon⟩

theorem finish_of (hq : sendQueue e' = (sendQueue e).finish p) (hs : statics e' = statics e)
    (hsteady : ((sendQueue e).finish p).Steady) (hmetered : (sendQueue e).Metered [] outstanding →
      ((sendQueue e).finish p).Metered [] outstanding) : SendInv on e' outstanding handed := by
  have hf : e'.failure = e.failure := same_failure hs
  have hg : e'.gen = e.gen := same_gen hs
  have hmax : e'.quotaMax = e.quotaMax := congrArg SendQueue.quotaMax hq
  refine ⟨hq ▸ hsteady, fun hon hf' hg' => ?_, by rw [hmax]; exact h.within, fun hon hg' => ?_,
    h.sent⟩
  · rw [hq]
    exact hmetered (h.metered hon (hf ▸ hf') (hg ▸ hg'))
  · rw [hq]
    exact (h.walked hon (hg ▸ hg')).finish h.ordered

/-- A flow that was never handed out leaves the session. -/
theorem finish (hp : (sendQueue e).Live p) (hatt : (e.outs p).attempted = false)
    (hq : sendQueue e' = (sendQueue e).finish p) (hs : statics e' = statics e) :
    SendInv on e' outstanding handed := by
  have hlisted := (h.ordered.mem p).mpr hp
  have hmem : p ∈ (sendQueue e).pub ∨ p ∈ (sendQueue e).rel := by
    simpa [SendQueue.listed] using hlisted
  refine h.finish_of hq hs (h.steady.finish hmem) ?_
  intro hm
  have hcounted : ((sendQueue e).flows p).counted = false := by
    by_contra hcon
    have := hm.tried p hlisted (by simpa using hcon)
    simp [flowOf, hatt] at this
  exact hm.finish h.ordered hmem hcounted

/-- A flow that has left already leaves once more. -/
theorem finish_over (hfin : (e.outs p).finished = true) (hid : e.out.get (e.outs p).id = none)
    (hq : sendQueue e' = (sendQueue e).finish p) (hs : statics e' = statics e) :
    SendInv on e' outstanding handed := by
  have hover : ¬ (sendQueue e).Live p := by
    rintro ⟨-, hlive⟩
    have hlive : (e.outs p).finished = false := hlive
    rw [hfin] at hlive
    cases hlive
  exact h.finish_of hq hs
    (h.steady.finish_over hover ⟨hfin, by simp [sendQueue, flowOf, hfin]⟩ hid)
    fun hm => hm.finish_over h.ordered hover

theorem register (m : Message) (now : Time) (hid : e.failure = none → e.out.get m.id = none) :
    SendInv on (register e m now).1 outstanding handed := by
  have hs := statics_register e m now
  by_cases hf : e.failure = none
  · have hq := sendQueue_register e m now hf
    have hfail : (Program.register e m now).1.failure = e.failure := same_failure hs
    have hgen : (Program.register e m now).1.gen = e.gen := same_gen hs
    have hmax : (Program.register e m now).1.quotaMax = e.quotaMax :=
      congrArg SendQueue.quotaMax hq
    refine ⟨?_, ?_, by rw [hmax]; exact h.within, ?_, h.sent⟩
    · rw [hq]
      exact h.steady.add m.id m.qos m.ref (hid hf)
    · intro hon _ hg
      rw [hq]
      exact (h.metered hon hf (hgen ▸ hg)).add h.ordered m.id m.qos m.ref
    · intro hon hg
      rw [hq]
      exact (h.walked hon (hgen ▸ hg)).add m.id m.qos m.ref
  · exact h.congr_statics (sendQueue_register_failed e m now (Option.isSome_iff_ne_none.mpr hf)) hs

theorem withdraw (hp : p < e.nextOut) : SendInv on (withdraw e p).1 outstanding handed := by
  rcases sendQueue_withdraw e p with heq | ⟨hfin, hatt, heq⟩
  · exact h.congr_statics heq (Acts.withdraw e p).statics
  · exact h.finish ⟨hp, hfin⟩ hatt heq (Acts.withdraw e p).statics

end

/-- What `Sys.answered` makes of the PUBLISHes outstanding. -/
def answer (outstanding : List OutPtr) (before after : Option OutPtr) : List OutPtr :=
  match before, after with
  | some p, none => outstanding.erase p
  | _, _ => outstanding

theorem answer_same (outstanding : List OutPtr) (o : Option OutPtr) :
    answer outstanding o o = outstanding := by
  cases o <;> rfl

section

variable (h : SendInv on e outstanding handed)
include h

/-- An acknowledgement that ends the flow it is for returns the flow's unit. -/
theorem acked {id : PacketID} (hf : e.failure = none) (hget : e.out.get id = some p)
    (hq : sendQueue e' = (sendQueue e).acked p) (hs : statics e' = statics e) :
    SendInv on e' (answer outstanding (e.out.get id) (e'.out.get id)) handed := by
  have hlive := h.ordered.live_of_get hget
  have hid : ((sendQueue e).flows p).id = id := h.ordered.id_of_get hget
  have hmem : p ∈ (sendQueue e).pub ∨ p ∈ (sendQueue e).rel := by
    simpa [SendQueue.listed] using (h.ordered.mem p).mpr hlive
  have hout : e'.out.get id = none := by
    have hout : e'.out = ((sendQueue e).acked p).out := congrArg SendQueue.out hq
    have hidc : ((((sendQueue e).unlink p).credit p).flows p).id = id := by
      unfold SendQueue.credit
      split
      · simp [SendQueue.unlink, ← hid]
      · exact hid
    rw [hout, SendQueue.acked, SendQueue.close]
    simp [hidc]
  have hmax : e'.quotaMax = e.quotaMax := by
    have := congrArg SendQueue.quotaMax hq
    rw [show (sendQueue e').quotaMax = e'.quotaMax from rfl] at this
    rw [this]
    unfold SendQueue.acked SendQueue.close SendQueue.credit
    split <;> rfl
  have hgen : e'.gen = e.gen := same_gen hs
  rw [hget, hout]
  show SendInv on e' (outstanding.erase p) handed
  refine ⟨?_, ?_, ?_, ?_, ?_⟩
  · rw [hq]
    exact h.steady.acked hmem
  · intro hon _ hg
    rw [hq]
    exact (h.metered hon hf (hgen ▸ hg)).acked h.ordered hmem
  · intro hon
    rw [hmax]
    have hle := List.length_erase_le (a := p) (l := outstanding)
    have hwithin := h.within hon
    omega
  · intro hon hg
    rw [hq]
    exact (h.walked hon (hgen ▸ hg)).acked h.ordered
  · intro hon q hq
    exact h.sent hon q (List.mem_of_mem_erase hq)

section

variable (id : PacketID)

/-- An acknowledgement that does not show in the send queue. -/
theorem unanswered (hq : sendQueue e' = sendQueue e) (hs : statics e' = statics e) :
    SendInv on e' (answer outstanding (e.out.get id) (e'.out.get id)) handed := by
  have hout : e'.out = e.out := congrArg SendQueue.out hq
  rw [hout, answer_same]
  exact h.congr_statics hq hs

theorem handlePuback (rc : ReasonCode) (r : Option PubErr) :
    SendInv on (handlePuback e id rc r)
      (answer outstanding (e.out.get id) ((handlePuback e id rc r).out.get id)) handed := by
  have hs := (Acts.handlePuback e id rc r).statics
  rcases sendQueue_handlePuback e id rc r with heq | ⟨p, hf, hget, heq⟩
  · exact h.unanswered id heq hs
  · exact h.acked hf hget heq hs

theorem handlePubcomp :
    SendInv on (handlePubcomp e id)
      (answer outstanding (e.out.get id) ((handlePubcomp e id).out.get id)) handed := by
  have hs := (Acts.handlePubcomp e id).statics
  rcases sendQueue_handlePubcomp e id with heq | ⟨p, hf, hget, heq⟩
  · exact h.unanswered id heq hs
  · exact h.acked hf hget heq hs

theorem handlePubrec (rc : ReasonCode) (r : Option PubErr) :
    SendInv on (handlePubrec e id rc r)
      (answer outstanding (e.out.get id) ((handlePubrec e id rc r).out.get id)) handed := by
  have hs := statics_handlePubrec e id rc r
  rcases sendQueue_handlePubrec e id rc r fun p hp => (h.ordered.live_of_get hp).2 with
    heq | ⟨p, hf, hget, hw, heq | heq⟩
  · exact h.unanswered id heq hs
  · exact h.acked hf hget heq hs
  · have hlive := h.ordered.live_of_get hget
    have hmem : p ∈ (sendQueue e).pub ∨ p ∈ (sendQueue e).rel := by
      simpa [SendQueue.listed] using (h.ordered.mem p).mpr hlive
    have hout : (Program.handlePubrec e id rc r).out = e.out := congrArg SendQueue.out heq
    have hmax : (Program.handlePubrec e id rc r).quotaMax = e.quotaMax :=
      congrArg SendQueue.quotaMax heq
    have hgen : (Program.handlePubrec e id rc r).gen = e.gen := same_gen hs
    rw [hout, answer_same]
    refine ⟨?_, ?_, by rw [hmax]; exact h.within, ?_, h.sent⟩
    · rw [heq]
      exact h.steady.toRel hmem
    · intro hon _ hg
      rw [heq]
      exact (h.metered hon hf (hgen ▸ hg)).toRel h.ordered hmem
    · intro hon hg
      rw [heq]
      exact (h.walked hon (hgen ▸ hg)).toRel h.ordered

end

theorem connected (ci : ConnInfo) (now : Time) (hf : e.failure = none) :
    SendInv on (connected e ci now) [] [] := by
  obtain ⟨ho, hm, hw⟩ := connected_send e ci now hf h.ordered
  obtain ⟨done, todo, hsplit, -, -⟩ := hw.split
  exact ⟨⟨ho, done, todo, hsplit⟩, fun _ _ _ => hm, fun _ => hm.length_le, fun _ _ => hw,
    fun _ p hp => hp⟩

theorem collect (gen upTo : ℕ) (now : Time) :
    SendInv on (collect e gen upTo now).1
      (outstanding ++ Sys.publishes (collect e gen upTo now).2)
      (handed ++ Sys.publishes (collect e gen upTo now).2) := by
  by_cases hserves : servesLocked e gen = true
  · have hs := fun hon => collect_serving e gen upTo now _ _ (h.serving hon hserves)
    exact ⟨collect_steady e gen upTo now h.steady, fun hon _ _ => (hs hon).metered,
      fun hon => (hs hon).metered.length_le, fun hon _ => (hs hon).walked,
      fun hon => (hs hon).handed⟩
  · rw [collect_of_not_serves e gen upTo now (by simpa using hserves)]
    simpa using h

theorem collectControl (gen : ℕ) :
    SendInv on (collectControl e gen).1
      (outstanding ++ Sys.publishes (collectControl e gen).2)
      (handed ++ Sys.publishes (collectControl e gen).2) := by
  rw [publishes_collectControl, List.append_nil, List.append_nil]
  exact h.congr_statics (sendQueue_collectControl e gen) (Inward.collectControl e gen).statics

theorem failLocked (err : StoreError) : SendInv on (failLocked e err) outstanding handed := by
  by_cases hf : e.failure = none
  · have hs := statics_failLocked e err hf
    have hfail : (Program.failLocked e err).failure = some err := congrArg Statics.failure hs
    have hgen : (Program.failLocked e err).gen = e.gen := congrArg Statics.gen hs
    have hmax : (Program.failLocked e err).quotaMax = e.quotaMax :=
      congrArg SendQueue.quotaMax (sendQueue_failLocked e err hf)
    refine ⟨?_, ?_, by rw [hmax]; exact h.within, ?_, h.sent⟩
    · have hd := dead_failLocked e err hf
      exact SendQueue.Steady.of_empty (failLocked_ordered e err h.ordered) hd.pub hd.cursor
    · intro _ hcon
      rw [hfail] at hcon
      cases hcon
    · intro hon hg
      exact failLocked_walked e err handed (h.walked hon (hgen ▸ hg))
  · rw [failLocked_of_failed e err hf]
    exact h

end

end SendInv

end Mqttv5.Analysis
