import Mathlib.Data.List.Nodup
import Mqttv5.Program.Publishing

/-!
# Where the packet of a Publish call is

A packet is in the write queue or in the writer's batch, or a byte of it was written, or it waits
as the tail of an interrupted write, or the session has it as a flow. `Accounted` says what each
of these means for the call and for the writer's answer to it; every move keeps it.
-/

set_option autoImplicit false

namespace Mqttv5.Analysis.Publishing

open Program.Publishing List
open Function (update_apply)

variable {s : Stage}

/-- The calls whose packets the writer has taken and not written. -/
def batched : Writer → List ℕ
  | .batching taken _ => taken
  | _ => []

/-- The calls whose packets are to be written on a connection: in the batch, then in the queue. -/
def toSend (x : Conn) : List ℕ := batched x.writer ++ x.queue.flatMap Req.calls

/-- Nothing of the call's packet was written, nor is left to write of one begun, and the session
has no flow for it. -/
def Clean (c : Client) (k : ℕ) : Prop :=
  k ∉ c.flows ∧ ∀ n, k ∉ (c.conns n).written ∧ k ∉ (c.conns n).rest

/-- The call waits for the answer of a connection's writer. -/
def Waits (s : Stage) (n : ℕ) : Prop := s = .awaiting n ∨ s = .outliving n

/-- The call has returned what no other connection is tried after. -/
def Gone (s : Stage) : Prop := ∃ err, s = .returned err ∧ notSent err = false

/-- The call has left its packet to the connection or the session. -/
def Late (c : Client) (k : ℕ) : Prop :=
  c.calls k = .registered ∨ Gone (c.calls k) ∨
    ∃ n err, Waits (c.calls k) n ∧ c.answers k = some err ∧ notSent err = false

/-- What is kept of the calls and connections of a client. -/
structure Accounted (c : Client) : Prop where
  nodup : ∀ n, (toSend (c.conns n)).Nodup
  clean : ∀ n k, k ∈ toSend (c.conns n) → Clean c k
  unanswered : ∀ n k, k ∈ toSend (c.conns n) → c.answers k = none
  once : ∀ n m k, k ∈ toSend (c.conns n) → k ∈ toSend (c.conns m) → n = m
  admitted : ∀ n k, k ∈ toSend (c.conns n) → Waits (c.calls k) n ∨ Gone (c.calls k)
  late : ∀ k, ¬ Clean c k → Late c k
  answered : ∀ k, c.answers k ≠ none →
    (∃ n, Waits (c.calls k) n) ∨ ∃ err, c.calls k = .returned err
  waits : ∀ n k, Waits (c.calls k) n →
    c.cfg.waitForFlush = true ∧ (c.answers k = none → k ∈ toSend (c.conns n))
  sends : ∀ n k, c.calls k = .sending n → k ∈ (c.conns n).senders
  shut : ∀ n, (c.conns n).closed = true → (c.conns n).senders = []
  drained : ∀ n, (c.conns n).writer = .draining ∨ (c.conns n).writer = .done →
    (c.conns n).closed = true
  empty : ∀ n, (c.conns n).writer = .done → (c.conns n).queue = []

/-- The stages before the packet is given its place. -/
def Early (s : Stage) : Prop :=
  s = .idle ∨ s = .connecting ∨ (∃ n, s = .ready n) ∨ ∃ n, s = .sending n

theorem Early.not_waits (h : Early s) (n : ℕ) : ¬ Waits s n := by
  rintro (rfl | rfl)
  · rcases h with h | h | ⟨_, h⟩ | ⟨_, h⟩ <;> cases h
  · rcases h with h | h | ⟨_, h⟩ | ⟨_, h⟩ <;> cases h

theorem Early.not_returned (h : Early s) (err : Option PublishError) :
    s ≠ .returned err := by
  rintro rfl
  rcases h with h | h | ⟨_, h⟩ | ⟨_, h⟩ <;> cases h

/-- INTERNAL: With its packet in the queue a call waits for the write, or it has returned nil. -/
theorem queued_stage {flush : Bool} {n : ℕ}
    (hs : (if flush then Stage.awaiting n else .returned none) = s) :
    (Waits s n ∨ Gone s) ∧ (∀ m, Waits s m → m = n ∧ flush = true) ∧ ∀ m, s ≠ .sending m := by
  subst hs
  cases flush with
  | true =>
    refine ⟨.inl (.inl rfl), fun m hm => ?_, nofun⟩
    rcases hm with hm | hm <;> cases hm
    exact ⟨rfl, rfl⟩
  | false =>
    refine ⟨.inr ⟨none, rfl, rfl⟩, fun m hm => ?_, nofun⟩
    rcases hm with hm | hm <;> cases hm

/-- INTERNAL: Only what is written, or left of a write, makes a call unclean. -/
theorem clean_setConn {c : Client} {n : ℕ} {x : Conn} (hw : x.written = (c.conns n).written)
    (hr : x.rest = (c.conns n).rest) (j : ℕ) : Clean (c.setConn n x) j ↔ Clean c j := by
  refine and_congr Iff.rfl (forall_congr' fun m => ?_)
  rw [show (c.setConn n x).conns m = if m = n then x else c.conns m from update_apply _ _ _ _]
  split
  · rename_i hm
    rw [hw, hr, hm]
  · rfl

namespace Accounted

variable {c : Client} {k n : ℕ}

section

variable (h : Accounted c)
include h

/-- INTERNAL: **The packet of a call that has not sent it is nowhere.** -/
theorem fresh (hk : Early (c.calls k)) :
    Clean c k ∧ (∀ m, k ∉ toSend (c.conns m)) ∧ c.answers k = none := by
  refine ⟨?_, fun m hm => ?_, ?_⟩
  · by_contra hclean
    rcases h.late k hclean with hreg | ⟨err, hret, -⟩ | ⟨m, err, hwait, -⟩
    · rcases hk with hs | hs | ⟨_, hs⟩ | ⟨_, hs⟩ <;> rw [hreg] at hs <;> cases hs
    · exact hk.not_returned err hret
    · exact hk.not_waits m hwait
  · rcases h.admitted m k hm with hwait | ⟨err, hret, -⟩
    · exact hk.not_waits m hwait
    · exact hk.not_returned err hret
  · by_contra hans
    rcases h.answered k hans with ⟨m, hwait⟩ | ⟨err, hret⟩
    · exact hk.not_waits m hwait
    · exact hk.not_returned err hret

/-- What a call returned that another connection is tried after: nothing of its packet
is, or will be, written. -/
theorem unsent {err : Option PublishError} (hk : c.calls k = .returned err)
    (hnot : notSent err = true) : Clean c k ∧ ∀ m, k ∉ toSend (c.conns m) := by
  have hgone : ¬ Gone (c.calls k) := by
    rintro ⟨err', hret, hfalse⟩
    rw [hk] at hret
    obtain rfl := Stage.returned.inj hret
    rw [hnot] at hfalse
    cases hfalse
  have hwaits : ∀ m, ¬ Waits (c.calls k) m := by
    rintro m (hw | hw) <;> rw [hk] at hw <;> cases hw
  refine ⟨?_, fun m hm => ?_⟩
  · by_contra hclean
    rcases h.late k hclean with hreg | hg | ⟨m, err, hwait, -⟩
    · rw [hk] at hreg
      cases hreg
    · exact hgone hg
    · exact hwaits m hwait
  · rcases h.admitted m k hm with hwait | hg
    · exact hwaits m hwait
    · exact hgone hg

/-- INTERNAL: **A call moves on.** -/
theorem setCall (hpending : ∀ m, k ∈ toSend (c.conns m) → Waits s m ∨ Gone s)
    (hclean : ¬ Clean c k → s = .registered ∨ Gone s ∨
      ∃ m err, Waits s m ∧ c.answers k = some err ∧ notSent err = false)
    (hanswer : c.answers k ≠ none → (∃ m, Waits s m) ∨ ∃ err, s = .returned err)
    (hwaits : ∀ m, Waits s m →
      c.cfg.waitForFlush = true ∧ (c.answers k = none → k ∈ toSend (c.conns m)))
    (hsends : ∀ m, s = .sending m → k ∈ (c.conns m).senders) :
    Accounted (c.setCall k s) := by
  have hcalls : ∀ j, (c.setCall k s).calls j = if j = k then s else c.calls j := fun j =>
    update_apply _ _ _ _
  refine ⟨h.nodup, h.clean, h.unanswered, h.once, ?_, ?_, ?_, ?_, ?_, h.shut, h.drained, h.empty⟩
  · intro m j hj
    rw [hcalls]
    split
    · rename_i hjk
      exact hpending m (hjk ▸ hj)
    · exact h.admitted m j hj
  · intro j hj
    unfold Late
    rw [hcalls]
    split
    · rename_i hjk
      subst hjk
      exact hclean hj
    · exact h.late j hj
  · intro j hj
    rw [hcalls]
    split
    · rename_i hjk
      subst hjk
      exact hanswer hj
    · exact h.answered j hj
  · intro m j hj
    rw [hcalls] at hj
    split at hj
    · rename_i hjk
      subst hjk
      exact hwaits m hj
    · exact h.waits m j hj
  · intro m j hj
    rw [hcalls] at hj
    split at hj
    · rename_i hjk
      subst hjk
      exact hsends m hj
    · exact h.sends m j hj

/-- A call that has not sent its packet goes on or returns. -/
theorem setFresh (hk : Early (c.calls k))
    (hs : s = .connecting ∨ (∃ m, s = .ready m) ∨ ∃ err, s = .returned err) :
    Accounted (c.setCall k s) := by
  obtain ⟨hclean, hpending, hans⟩ := h.fresh hk
  refine h.setCall (fun m hm => absurd hm (hpending m)) (absurd hclean) (absurd hans)
    (fun m hm => ?_) (fun m hm => ?_)
  · rcases hs with rfl | ⟨_, rfl⟩ | ⟨_, rfl⟩ <;> rcases hm with hm | hm <;> cases hm
  · rcases hs with rfl | ⟨_, rfl⟩ | ⟨_, rfl⟩ <;> cases hm

/-- A call returns what no other connection is tried after. -/
theorem giveUp (k : ℕ) {err : Option PublishError} (herr : notSent err = false) :
    Accounted (c.setCall k (.returned err)) :=
  h.setCall (fun _ _ => .inr ⟨err, rfl, herr⟩) (fun _ => .inr (.inl ⟨err, rfl, herr⟩))
    (fun _ => .inr ⟨err, rfl⟩) (fun m hm => by rcases hm with hm | hm <;> cases hm)
    (fun m hm => by cases hm)

/-- INTERNAL: **A connection moves**, with the same packets to write: what was written or is left
of a write belongs to flows and to calls that are late. -/
theorem setConn {x : Conn} (hpending : toSend x = toSend (c.conns n))
    (htouched : ∀ j, j ∈ x.written ∨ j ∈ x.rest →
      ¬ Clean c j ∨ Late c j ∧ ∀ m, j ∉ toSend (c.conns m))
    (hsends : ∀ j, c.calls j = .sending n → j ∈ x.senders)
    (hshut : x.closed = true → x.senders = [])
    (hdrained : x.writer = .draining ∨ x.writer = .done → x.closed = true)
    (hempty : x.writer = .done → x.queue = []) : Accounted (c.setConn n x) := by
  have hconns : ∀ m, (c.setConn n x).conns m = if m = n then x else c.conns m := fun m =>
    update_apply _ _ _ _
  have hpend : ∀ m, toSend ((c.setConn n x).conns m) = toSend (c.conns m) := by
    intro m
    rw [hconns]
    split
    · rename_i hm
      rw [hpending, hm]
    · rfl
  have hunclean : ∀ j, ¬ Clean (c.setConn n x) j →
      ¬ Clean c j ∨ Late c j ∧ ∀ m, j ∉ toSend (c.conns m) := by
    intro j hj
    by_contra hcon
    obtain ⟨hclean, hnone⟩ := not_or.mp hcon
    rw [not_not] at hclean
    refine hj ⟨hclean.1, fun m => ?_⟩
    rw [hconns]
    split
    · refine ⟨fun hw => ?_, fun hr => ?_⟩
      · exact hcon (htouched j (.inl hw))
      · exact hcon (htouched j (.inr hr))
    · exact hclean.2 m
  refine ⟨fun m => ?_, fun m j hj => ?_, fun m j hj => ?_, fun m m' j hj hj' => ?_,
    fun m j hj => ?_, fun j hj => ?_, h.answered, fun m j hj => ?_, fun m j hj => ?_, fun m => ?_,
    fun m => ?_, fun m => ?_⟩
  · rw [hpend]
    exact h.nodup m
  · rw [hpend] at hj
    by_contra hcon
    rcases hunclean j hcon with hc | ⟨-, hnone⟩
    · exact hc (h.clean m j hj)
    · exact hnone m hj
  · rw [hpend] at hj
    exact h.unanswered m j hj
  · rw [hpend] at hj hj'
    exact h.once m m' j hj hj'
  · rw [hpend] at hj
    exact h.admitted m j hj
  · rcases hunclean j hj with hc | ⟨hlate, -⟩
    · exact h.late j hc
    · exact hlate
  · rw [hpend]
    exact h.waits m j hj
  · rw [hconns]
    split
    · rename_i hm
      subst hm
      exact hsends j hj
    · exact h.sends m j hj
  · rw [hconns]
    split
    · exact hshut
    · exact h.shut m
  · rw [hconns]
    split
    · exact hdrained
    · exact h.drained m
  · rw [hconns]
    split
    · exact hempty
    · exact h.empty m

/-- INTERNAL: **The writer is done with some packets**, the first of those to write, and answers
their calls. -/
theorem popped (ks tl : List ℕ) {x : Conn} (err : Option PublishError)
    (hold : toSend (c.conns n) = ks ++ tl) (hnew : toSend x = tl)
    (hwritten : x.written = (c.conns n).written) (hrest : ∀ j ∈ x.rest, ¬ Clean c j)
    (hsenders : x.senders = (c.conns n).senders) (hclosed : x.closed = (c.conns n).closed)
    (hdrained : x.writer = .draining ∨ x.writer = .done → x.closed = true)
    (hempty : x.writer = .done → x.queue = []) : Accounted ((c.setConn n x).answer ks err) := by
  have hconns : ∀ m, ((c.setConn n x).answer ks err).conns m = if m = n then x else c.conns m :=
    fun m => update_apply _ _ _ _
  have hans : ∀ j, ((c.setConn n x).answer ks err).answers j =
      if c.cfg.waitForFlush ∧ j ∈ ks then some err else c.answers j := fun _ => rfl
  have hks : ∀ j ∈ ks, j ∈ toSend (c.conns n) := fun j hj => by
    rw [hold]
    exact mem_append_left _ hj
  have hsub : ∀ m j, j ∈ toSend (((c.setConn n x).answer ks err).conns m) →
      j ∈ toSend (c.conns m) ∧ j ∉ ks := by
    intro m j hj
    rw [hconns] at hj
    split at hj
    · rename_i hm
      subst hm
      rw [hnew] at hj
      have hnodup := h.nodup m
      rw [hold] at hnodup ⊢
      exact ⟨mem_append_right _ hj, fun hcon =>
        (nodup_append.mp hnodup).2.2 j hcon j hj rfl⟩
    · rename_i hm
      exact ⟨hj, fun hcon => hm (h.once m n j hj (hks j hcon))⟩
  have hclean : ∀ j, Clean c j → Clean ((c.setConn n x).answer ks err) j := by
    intro j hj
    refine ⟨hj.1, fun m => ?_⟩
    rw [hconns]
    split
    · rw [hwritten]
      exact ⟨(hj.2 n).1, fun hr => hrest j hr hj⟩
    · exact hj.2 m
  refine ⟨fun m => ?_, fun m j hj => hclean j (h.clean m j (hsub m j hj).1), fun m j hj => ?_,
    fun m m' j hj hj' => h.once m m' j (hsub m j hj).1 (hsub m' j hj').1,
    fun m j hj => h.admitted m j (hsub m j hj).1, fun j hj => ?_, fun j hj => ?_,
    fun m j hj => ?_, fun m j hj => ?_, fun m => ?_, fun m => ?_, fun m => ?_⟩
  · rw [hconns]
    split
    · rename_i hm
      subst hm
      have hnodup := h.nodup m
      rw [hold] at hnodup
      rw [hnew]
      exact (nodup_append.mp hnodup).2.1
    · exact h.nodup m
  · rw [hans, if_neg (fun hcon => (hsub m j hj).2 hcon.2)]
    exact h.unanswered m j (hsub m j hj).1
  · have hold' : ¬ Clean c j := fun hcon => hj (hclean j hcon)
    have hj' : j ∉ ks := fun hcon => hold' (h.clean n j (hks j hcon))
    rcases h.late j hold' with hreg | hg | ⟨m, e, hw, ha, hn⟩
    · exact .inl hreg
    · exact .inr (.inl hg)
    · refine .inr (.inr ⟨m, e, hw, ?_, hn⟩)
      rw [hans, if_neg (fun hcon => hj' hcon.2)]
      exact ha
  · rw [hans] at hj
    split at hj
    · rename_i hcon
      rcases h.admitted n j (hks j hcon.2) with hw | ⟨e, hr, -⟩
      · exact .inl ⟨n, hw⟩
      · exact .inr ⟨e, hr⟩
    · exact h.answered j hj
  · obtain ⟨hflush, hp⟩ := h.waits m j hj
    refine ⟨hflush, fun hnone => ?_⟩
    rw [hans] at hnone
    split at hnone
    · cases hnone
    · rename_i hcon
      have hj' : j ∉ ks := fun hmem => hcon ⟨hflush, hmem⟩
      have hmem := hp hnone
      rw [hconns]
      split
      · rename_i hm
        subst hm
        rw [hold] at hmem
        rw [hnew]
        exact (mem_append.mp hmem).resolve_left hj'
      · exact hmem
  · rw [hconns]
    split
    · rename_i hm
      subst hm
      rw [hsenders]
      exact h.sends m j hj
    · exact h.sends m j hj
  · rw [hconns]
    split
    · rename_i hm
      rw [hsenders, hclosed]
      exact h.shut n
    · exact h.shut m
  · rw [hconns]
    split
    · exact hdrained
    · exact h.drained m
  · rw [hconns]
    split
    · exact hempty
    · exact h.empty m

/-- INTERNAL: A connection that a call sends on is open. -/
theorem open_of_sending (hk : c.calls k = .sending n) : (c.conns n).closed = false := by
  refine (Bool.not_eq_true _).mp fun hclosed => ?_
  have hmem := h.sends n k hk
  rw [h.shut n hclosed] at hmem
  cases hmem

/-- A packet is put in the queue. -/
theorem pushed (hk : c.calls k = .sending n) :
    Accounted ((c.setConn n { c.conns n with
      queue := (c.conns n).queue ++ [.pkt k]
      senders := (c.conns n).senders.erase k }).setCall k
        (if c.cfg.waitForFlush then .awaiting n else .returned none)) := by
  obtain ⟨hclean, hnone, hans⟩ := h.fresh (.inr (.inr (.inr ⟨n, hk⟩)))
  have hopen := h.open_of_sending hk
  obtain ⟨x, hx⟩ : ∃ x, ({ c.conns n with
      queue := (c.conns n).queue ++ [.pkt k]
      senders := (c.conns n).senders.erase k } : Conn) = x := ⟨_, rfl⟩
  obtain ⟨s, hs⟩ : ∃ s, (if c.cfg.waitForFlush then Stage.awaiting n else .returned none) = s :=
    ⟨_, rfl⟩
  obtain ⟨hstage, hwaits, hsending⟩ := queued_stage hs
  rw [hx, hs]
  have hconns : ∀ m, ((c.setConn n x).setCall k s).conns m = if m = n then x else c.conns m :=
    fun m => update_apply _ _ _ _
  have hcalls : ∀ j, ((c.setConn n x).setCall k s).calls j = if j = k then s else c.calls j :=
    fun j => update_apply _ _ _ _
  have hpend : toSend x = toSend (c.conns n) ++ [k] := by
    rw [← hx, toSend, toSend, flatMap_append, append_assoc]
    rfl
  have hmem : ∀ m j, j ∈ toSend (((c.setConn n x).setCall k s).conns m) ↔
      j ∈ toSend (c.conns m) ∨ m = n ∧ j = k := by
    intro m j
    rw [hconns]
    split
    · rename_i hm
      rw [hpend, mem_append, mem_singleton, hm]
      simp
    · rename_i hm
      simp [hm]
  have hcleaniff : ∀ j, Clean ((c.setConn n x).setCall k s) j ↔ Clean c j := fun j =>
    show Clean (c.setConn n x) j ↔ _ from clean_setConn (by rw [← hx]) (by rw [← hx]) j
  refine ⟨fun m => ?_, fun m j hj => ?_, fun m j hj => ?_, fun m m' j hj hj' => ?_,
    fun m j hj => ?_, fun j hj => ?_, fun j hj => ?_, fun m j hj => ?_, fun m j hj => ?_,
    fun m => ?_, fun m => ?_, fun m => ?_⟩
  · rw [hconns]
    split
    · rw [hpend]
      refine nodup_append.mpr ⟨h.nodup n, nodup_singleton k, ?_⟩
      rintro a ha b hb rfl
      rw [mem_singleton.mp hb] at ha
      exact hnone n ha
    · exact h.nodup m
  · rw [hcleaniff]
    rcases (hmem m j).mp hj with hj | ⟨-, rfl⟩
    · exact h.clean m j hj
    · exact hclean
  · rcases (hmem m j).mp hj with hj | ⟨-, rfl⟩
    · exact h.unanswered m j hj
    · exact hans
  · rcases (hmem m j).mp hj with hold | ⟨hm, hjk⟩
    · rcases (hmem m' j).mp hj' with hold' | ⟨-, hjk⟩
      · exact h.once m m' j hold hold'
      · exact absurd (hjk ▸ hold) (hnone m)
    · rcases (hmem m' j).mp hj' with hold' | ⟨hm', -⟩
      · exact absurd (hjk ▸ hold') (hnone m')
      · rw [hm, hm']
  · rw [hcalls]
    split
    · rename_i hjk
      subst hjk
      rcases (hmem m j).mp hj with hj | ⟨hm, -⟩
      · exact absurd hj (hnone m)
      · exact hm ▸ hstage
    · rename_i hjk
      exact h.admitted m j (((hmem m j).mp hj).resolve_right fun hcon => hjk hcon.2)
  · rw [hcleaniff] at hj
    have hjk : j ≠ k := fun hcon => hj (hcon ▸ hclean)
    unfold Late
    rw [hcalls, if_neg hjk]
    exact h.late j hj
  · have hjk : j ≠ k := fun hcon => hj (hcon ▸ hans)
    rw [hcalls, if_neg hjk]
    exact h.answered j hj
  · rw [hcalls] at hj
    split at hj
    · rename_i hjk
      subst hjk
      obtain ⟨hm, hflush⟩ := hwaits m hj
      exact ⟨hflush, fun _ => (hmem m j).mpr (.inr ⟨hm, rfl⟩)⟩
    · obtain ⟨hflush, hp⟩ := h.waits m j hj
      exact ⟨hflush, fun hn => (hmem m j).mpr (.inl (hp hn))⟩
  · rw [hcalls] at hj
    split at hj
    · exact absurd hj (hsending m)
    · rename_i hjk
      have hold := h.sends m j hj
      rw [hconns]
      split
      · rename_i hm
        rw [← hx]
        exact (mem_erase_of_ne hjk).mpr (hm ▸ hold)
      · exact hold
  · rw [hconns]
    split
    · intro hclosed
      rw [← hx] at hclosed
      rw [show (c.conns n).closed = true from hclosed] at hopen
      cases hopen
    · exact h.shut m
  · rw [hconns]
    split
    · intro hw
      rw [← hx] at hw ⊢
      exact h.drained n hw
    · exact h.drained m
  · rw [hconns]
    split
    · intro hw
      rw [← hx] at hw
      rw [h.drained n (.inr hw)] at hopen
      cases hopen
    · exact h.empty m

/-- The session has a flow for a call that waits for it. -/
theorem addFlow (hk : c.calls k = .registered ∨ Gone (c.calls k))
    (hnone : ∀ m, k ∉ toSend (c.conns m)) : Accounted { c with flows := k :: c.flows } := by
  refine ⟨h.nodup, fun m j hj => ⟨?_, (h.clean m j hj).2⟩, h.unanswered, h.once, h.admitted,
    fun j hj => ?_, h.answered, h.waits, h.sends, h.shut, h.drained, h.empty⟩
  · refine not_mem_cons_of_ne_of_not_mem ?_ (h.clean m j hj).1
    rintro rfl
    exact hnone m hj
  · by_cases hjk : j = k
    · rcases hk with hk | hk
      · exact .inl (hjk ▸ hk)
      · exact .inr (.inl (hjk ▸ hk))
    · refine h.late j fun hcon => hj ⟨not_mem_cons_of_ne_of_not_mem hjk hcon.1, hcon.2⟩

/-- The session has finished a flow. -/
theorem eraseFlow (k : ℕ) : Accounted { c with flows := c.flows.erase k } := by
  have hsub : ∀ j, Clean c j → Clean { c with flows := c.flows.erase k } j := fun j hj =>
    ⟨fun hcon => hj.1 (mem_of_mem_erase hcon), hj.2⟩
  exact ⟨h.nodup, fun m j hj => hsub j (h.clean m j hj), h.unanswered, h.once, h.admitted,
    fun j hj => h.late j fun hcon => hj (hsub j hcon), h.answered, h.waits, h.sends, h.shut,
    h.drained, h.empty⟩

/-- What connections are for the supervisor does not matter. -/
theorem relive {c' : Client} (hcfg : c'.cfg = c.cfg) (hconns : c'.conns = c.conns)
    (hflows : c'.flows = c.flows) (hcalls : c'.calls = c.calls) (hans : c'.answers = c.answers) :
    Accounted c' := by
  cases c
  cases c'
  simp only at hcfg hconns hflows hcalls hans
  subst hcfg hconns hflows hcalls hans
  exact ⟨h.nodup, h.clean, h.unanswered, h.once, h.admitted, h.late, h.answered, h.waits, h.sends,
    h.shut, h.drained, h.empty⟩

end

end Accounted

end Mqttv5.Analysis.Publishing
