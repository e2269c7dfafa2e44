import Mqttv5.Analysis.Unsent
import Mqttv5.Computation.Transition

/-!
# One Publish, one connection

A Publish that goes through a publisher pool or a ClientGroup tries another client only after an
error that `notSent` accepts. Such an error stands for a packet nothing of which was or will be
written: it is returned before the packet has a place in the write order, or once the writer, which
answers every packet it takes and drains its queue before it is gone, has dropped it.

The error a connection's Write returns is passed on as it is. One that contains ErrNotConnected,
as that of a connection tunnelled through another client may, is taken for the client's own, and
the message is sent a second time. The same holds for what a flow completes with and for what ended
the client's span, both of which may contain the error of a store.
-/

set_option autoImplicit false

namespace Mqttv5.Guarantees.Publishing

open Analysis.Publishing Mqttv5.Computation Program.Publishing List
open Function (update_apply update_eq_self update_idem update_of_ne update_self)
open Option (bind_eq_some_iff ite_none_left_eq_some ite_none_right_eq_some map_eq_some_iff none_or
  or_eq_some_iff)

variable {s t : Group}

/-- No error of a connection, of the session's store or of the end of a span, once the packet has
its place in the write order or the session has it, has ErrNotConnected or ErrWriteQueueFull in
it. -/
def Honest (c : Client) : Event → Prop
  | .direct _ (.failed started wraps) => started = true → wraps = false
  | .flush _ (.failed part wraps) => part ≠ [] → wraps = false
  | .finish _ (.store wraps) => wraps = false
  | .cut _ span => c.causes span = false
  | .registerFails _ err kept => kept = true → notSent (some err) = false
  | _ => True

/-! ### Every move keeps the account -/

section Moves

variable {c c' : Client} {ev : Event}

variable {k n : ℕ} {err : Option PublishError}

section

variable (h : Accounted c)
include h

theorem stepLife_accounted (hs : c.stepLife ev = some c') : Accounted c' := by
  cases ev with
  | connect | startSpan =>
    obtain ⟨-, ⟨⟩⟩ := ite_none_right_eq_some.mp hs
    exact h.relive rfl rfl rfl rfl rfl
  | resume n | down n | clear =>
    cases hs
    exact h.relive rfl rfl rfl rfl rfl
  | finishSpan wraps =>
    obtain ⟨-, ⟨⟩⟩ := ite_none_left_eq_some.mp hs
    exact h.relive rfl rfl rfl rfl rfl
  | _ => cases hs

/-- INTERNAL: A call leaves `send` without having sent. -/
theorem release_accounted (hk : c.calls k = .sending n) (err : PublishError) :
    Accounted (c.release k n (.returned (some err))) := by
  have hset := h.setFresh (s := .returned (some err)) (.inr (.inr (.inr ⟨n, hk⟩)))
    (.inr (.inr ⟨_, rfl⟩))
  have hclosed : (c.conns n).closed = true → (c.conns n).senders.erase k = [] := by
    intro hc
    rw [h.shut n hc]
    rfl
  refine hset.setConn (x := { c.conns n with senders := (c.conns n).senders.erase k }) rfl
    (fun j hj => .inl fun hcon => ?_) (fun j hj => ?_) hclosed (h.drained n) (h.empty n)
  · rcases hj with hj | hj
    · exact (hcon.2 n).1 hj
    · exact (hcon.2 n).2 hj
  · have hne : j ≠ k := by
      rintro rfl
      simp only [Client.setCall, update_self] at hj
      cases hj
    have hj' : c.calls j = .sending n := by
      simpa only [Client.setCall, update_of_ne hne] using hj
    exact (mem_erase_of_ne hne).mpr (h.sends n j hj')

/-- INTERNAL: A connection is written to by the call itself, which may leave it the rest. -/
theorem direct_accounted (hk : c.calls k = .ready n) (herr : notSent err = false)
    {rest : List ℕ} (hrest : ∀ j ∈ rest, j = k ∨ j ∈ (c.conns n).rest) :
    Accounted ((c.setConn n { c.conns n with
      written := k :: (c.conns n).written, rest := rest }).setCall k (.returned err)) := by
  obtain ⟨-, hnone, -⟩ := h.fresh (.inr (.inr (.inl ⟨n, hk⟩)))
  have hset := h.giveUp k herr
  have hlate : Late (c.setCall k (.returned err)) k :=
    .inr (.inl ⟨err, update_self _ _ _, herr⟩)
  refine hset.setConn (n := n) rfl (fun j hj => ?_) (hset.sends n) (h.shut n) (h.drained n)
    (h.empty n)
  have htouched : j = k ∨ j ∈ (c.conns n).written ∨ j ∈ (c.conns n).rest := by
    rcases hj with hj | hj
    · exact (mem_cons.mp hj).imp_right .inl
    · exact (hrest j hj).imp_right .inr
  rcases htouched with rfl | hj | hj
  · exact .inr ⟨hlate, hnone⟩
  · exact .inl fun hcon => (hcon.2 n).1 hj
  · exact .inl fun hcon => (hcon.2 n).2 hj

/-- INTERNAL: A call returns the writer's answer. -/
theorem answer_accounted (hk : Waits (c.calls k) n)
    (hans : c.answers k = some err) : Accounted (c.setCall k (.returned err)) := by
  refine h.setCall (fun m hm => ?_) (fun hclean => ?_) (fun _ => .inr ⟨err, rfl⟩)
    (fun m hm => by rcases hm with hm | hm <;> cases hm) (fun m hm => by cases hm)
  · rw [h.unanswered m k hm] at hans
    cases hans
  · rcases h.late k hclean with hreg | ⟨err', hret, -⟩ | ⟨m, err', -, hans', hfalse⟩
    · rcases hk with hk | hk <;> rw [hk] at hreg <;> cases hreg
    · rcases hk with hk | hk <;> rw [hk] at hret <;> cases hret
    · rw [hans] at hans'
      cases hans'
      exact .inr (.inl ⟨err, rfl, hfalse⟩)

theorem stepCall_accounted (hev : Honest c ev) (hs : c.stepCall ev = some c') :
    Accounted c' := by
  cases ev with
  | call k =>
    obtain ⟨hk, ⟨⟩⟩ := ite_none_right_eq_some.mp hs
    exact h.setFresh (.inl hk) (.inl rfl)
  | found k =>
    simp only [Client.stepCall] at hs
    split at hs
    · rename_i n hk hcur
      obtain ⟨-, ⟨⟩⟩ := ite_none_right_eq_some.mp hs
      exact h.setFresh (.inr (.inl hk)) (.inr (.inl ⟨n, rfl⟩))
    · cases hs
  | noConnection k =>
    obtain ⟨hk, ⟨⟩⟩ := ite_none_right_eq_some.mp hs
    exact h.setFresh (.inr (.inl hk.1)) (.inr (.inr ⟨_, rfl⟩))
  | cancel k =>
    simp only [Client.stepCall] at hs
    split at hs
    · cases hs
      exact h.giveUp k rfl
    · cases hs
      exact h.giveUp k rfl
    · rename_i n hk
      obtain ⟨-, ⟨⟩⟩ := ite_none_right_eq_some.mp hs
      exact release_accounted h hk _
    · cases hs
      exact h.giveUp k rfl
    · cases hs
      exact h.giveUp k rfl
    · cases hs
  | refuse k =>
    simp only [Client.stepCall] at hs
    split at hs
    · cases hs
      exact h.giveUp k rfl
    · cases hs
  | aliasLost k =>
    simp only [Client.stepCall] at hs
    split at hs
    · rename_i n hk
      obtain ⟨-, ⟨⟩⟩ := ite_none_right_eq_some.mp hs
      exact h.setFresh (.inr (.inr (.inl ⟨n, hk⟩))) (.inr (.inr ⟨_, rfl⟩))
    · cases hs
  | direct k how =>
    simp only [Client.stepCall] at hs
    split at hs
    · rename_i n hk
      split at hs
      · cases how with
        | ok =>
          cases hs
          exact direct_accounted h hk rfl fun j hj => .inr hj
        | failed started wraps =>
          cases hs
          cases started with
          | true =>
            have hw : wraps = false := hev rfl
            subst hw
            have herr : notSent (some (.write false)) = false := rfl
            have hdirect := direct_accounted h hk herr fun j hj => .inr hj
            exact hdirect.relive rfl rfl rfl rfl rfl
          | false =>
            refine Accounted.relive (h.setFresh (s := .returned (some (.write wraps)))
              (.inr (.inr (.inl ⟨n, hk⟩))) (.inr (.inr ⟨_, rfl⟩))) rfl ?_ rfl rfl rfl
            exact update_eq_self _ _
        | cancelled =>
          cases hs
          exact h.giveUp k rfl
        | interrupted =>
          cases hs
          exact direct_accounted h hk rfl fun j hj => .inl (mem_singleton.mp hj)
      · cases hs
    · cases hs
  | admitted k =>
    simp only [Client.stepCall] at hs
    split at hs
    · rename_i n hk
      split at hs
      · cases hs
        exact h.setFresh (.inr (.inr (.inl ⟨n, hk⟩))) (.inr (.inr ⟨_, rfl⟩))
      · rename_i hopen
        cases hs
        obtain ⟨hclean, hnone, hans⟩ := h.fresh (.inr (.inr (.inl ⟨n, hk⟩)))
        have hconn := h.setConn (n := n)
          (x := { c.conns n with senders := k :: (c.conns n).senders }) rfl
          (fun j hj => .inl fun hcon => by
            rcases hj with hj | hj
            · exact (hcon.2 n).1 hj
            · exact (hcon.2 n).2 hj)
          (fun j hj => .tail _ (h.sends n j hj)) (fun hc => absurd hc hopen)
          (h.drained n) (h.empty n)
        obtain ⟨hclean', hnone', hans'⟩ := hconn.fresh (k := k) (.inr (.inr (.inl ⟨n, hk⟩)))
        refine hconn.setCall (fun m hm => absurd hm (hnone' m)) (absurd hclean') (absurd hans')
          (fun m hm => ?_) (fun m hm => ?_)
        · rcases hm with hm | hm <;> cases hm
        · cases hm
          simp only [Client.setConn, update_self]
          exact mem_cons_self
    · cases hs
  | push k =>
    simp only [Client.stepCall] at hs
    split at hs
    · rename_i n hk
      obtain ⟨-, ⟨⟩⟩ := ite_none_right_eq_some.mp hs
      exact h.pushed hk
    · cases hs
  | sendFails k =>
    simp only [Client.stepCall] at hs
    split at hs
    · rename_i n hk
      split at hs
      · cases hs
        exact release_accounted h hk _
      · obtain ⟨-, ⟨⟩⟩ := ite_none_right_eq_some.mp hs
        exact release_accounted h hk _
    · cases hs
  | full k =>
    simp only [Client.stepCall] at hs
    split at hs
    · rename_i n hk
      obtain ⟨-, ⟨⟩⟩ := ite_none_right_eq_some.mp hs
      exact release_accounted h hk _
    · cases hs
  | _ => cases hs

theorem stepWait_accounted (hev : Honest c ev) (hs : c.stepWait ev = some c') :
    Accounted c' := by
  cases ev with
  | answered k =>
    simp only [Client.stepWait] at hs
    split at hs
    · rename_i n err hk hans
      cases hs
      exact answer_accounted h (.inl hk) hans
    · cases hs
  | sawDown k =>
    simp only [Client.stepWait] at hs
    split at hs
    · rename_i n hk
      obtain ⟨-, ⟨⟩⟩ := ite_none_right_eq_some.mp hs
      have hwaits : Waits (c.calls k) n := .inl hk
      refine h.setCall (fun m hm => ?_) (fun hclean => ?_) (fun _ => .inl ⟨n, .inr rfl⟩)
        (fun m hm => ?_) (fun m hm => by cases hm)
      · rcases h.admitted m k hm with (hw | hw) | ⟨err, hret, -⟩
        · rw [hk] at hw
          cases hw
          exact .inl (.inr rfl)
        · rw [hk] at hw
          cases hw
        · rw [hk] at hret
          cases hret
      · rcases h.late k hclean with hreg | ⟨err', hret, -⟩ | ⟨m, err', -, hans', hfalse⟩
        · rw [hk] at hreg
          cases hreg
        · rw [hk] at hret
          cases hret
        · exact .inr (.inr ⟨n, err', .inr rfl, hans', hfalse⟩)
      · rcases hm with hm | hm <;> cases hm
        exact h.waits n k hwaits
    · cases hs
  | cut k span =>
    have herr : notSent (some (c.closedErr span)) = false := hev
    simp only [Client.stepWait] at hs
    split at hs
    · obtain ⟨-, ⟨⟩⟩ := ite_none_right_eq_some.mp hs
      exact h.giveUp k herr
    · obtain ⟨-, ⟨⟩⟩ := ite_none_right_eq_some.mp hs
      exact h.giveUp k herr
    · cases hs
  | resolve k =>
    simp only [Client.stepWait] at hs
    split at hs
    · rename_i n hk
      obtain ⟨hdone, ⟨⟩⟩ := ite_none_right_eq_some.mp hs
      have hnone : toSend (c.conns n) = [] := by
        rw [toSend, h.empty n hdone, hdone]
        rfl
      cases hans : c.answers k with
      | none =>
        have hmem := (h.waits n k (.inr hk)).2 hans
        rw [hnone] at hmem
        cases hmem
      | some err =>
        exact answer_accounted h (.inr hk) hans
    · cases hs
  | register k =>
    simp only [Client.stepWait] at hs
    split at hs
    · rename_i n hk
      cases hs
      obtain ⟨hclean, hnone, hans⟩ := h.fresh (.inr (.inr (.inl ⟨n, hk⟩)))
      have hset := h.setCall (s := .registered) (fun m hm => absurd hm (hnone m)) (absurd hclean)
        (absurd hans) (fun m hm => by rcases hm with hm | hm <;> cases hm) (fun m hm => by cases hm)
      exact hset.addFlow (k := k) (.inl (update_self _ _ _)) hnone
    · cases hs
  | registerFails k err kept =>
    simp only [Client.stepWait] at hs
    split at hs
    · rename_i n hk
      cases hs
      have hearly : Early (c.calls k) := .inr (.inr (.inl ⟨n, hk⟩))
      have hset := h.setFresh (k := k) hearly (.inr (.inr ⟨some err, rfl⟩))
      cases kept with
      | false => exact hset
      | true =>
        have hgone : Gone ((c.setCall k (.returned (some err))).calls k) :=
          ⟨some err, update_self _ _ _, hev rfl⟩
        exact hset.addFlow (k := k) (.inr hgone) (h.fresh hearly).2.1
    · cases hs
  | finish k how =>
    have herr : notSent how.err = false := by
      cases how with
      | store wraps => exact hev
      | _ => rfl
    simp only [Client.stepWait] at hs
    split at hs
    · cases hs
      exact h.giveUp k herr
    · cases hs
  | forget k =>
    cases hs
    exact h.eraseFlow k
  | _ => cases hs

/-- INTERNAL: A connection moves and nothing is written but what was begun, or belongs to flows. -/
theorem conn_accounted {x : Conn} (hpending : toSend x = toSend (c.conns n))
    (htouched : ∀ j, j ∈ x.written ∨ j ∈ x.rest →
      j ∈ c.flows ∨ j ∈ (c.conns n).written ∨ j ∈ (c.conns n).rest)
    (hsenders : x.senders = (c.conns n).senders)
    (hclosed : x.closed = (c.conns n).closed ∨ (c.conns n).senders = [])
    (hdrained : x.writer = .draining ∨ x.writer = .done → x.closed = true)
    (hempty : x.writer = .done → x.queue = []) : Accounted (c.setConn n x) := by
  refine h.setConn hpending (fun j hj => .inl fun hcon => ?_) (fun j hj => ?_) (fun hx => ?_)
    hdrained hempty
  · rcases htouched j hj with hj | hj | hj
    · exact hcon.1 hj
    · exact (hcon.2 n).1 hj
    · exact (hcon.2 n).2 hj
  · rw [hsenders]
    exact h.sends n j hj
  · rw [hsenders]
    rcases hclosed with hclosed | hnone
    · exact h.shut n (hclosed ▸ hx)
    · exact hnone

end

theorem mem_sent {sent flows written rest : List ℕ} (hsent : ∀ k ∈ sent, k ∈ flows) {j : ℕ}
    (hj : j ∈ sent ++ written ∨ j ∈ rest) : j ∈ flows ∨ j ∈ written ∨ j ∈ rest := by
  rcases hj with hj | hj
  · rcases mem_append.mp hj with hj | hj
    · exact .inl (hsent j hj)
    · exact .inr (.inl hj)
  · exact .inr (.inr hj)

section

variable (h : Accounted c)
include h

theorem stepOther_accounted (hs : c.stepOther ev = some c') : Accounted c' := by
  cases ev with
  | other n r =>
    obtain ⟨hr, ⟨⟩⟩ := ite_none_right_eq_some.mp hs
    refine conn_accounted h ?_ (fun j hj => .inr hj) rfl (.inl rfl) (h.drained n) (fun hw => ?_)
    · simp only [toSend, flatMap_append, flatMap_singleton, hr.2, append_nil]
    · have hclosed := h.drained n (.inr hw)
      rw [hr.1] at hclosed
      cases hclosed
  | ordered n sent how =>
    simp only [Client.stepOther] at hs
    split at hs
    · rename_i hg
      have hok : Accounted (c.setConn n
          { c.conns n with written := sent ++ (c.conns n).written }) :=
        conn_accounted h rfl (fun j hj => mem_sent hg.1 hj) rfl (.inl rfl) (h.drained n) (h.empty n)
      cases how with
      | ok =>
        cases hs
        exact hok
      | failed started wraps =>
        cases hs
        exact hok.relive rfl rfl rfl rfl rfl
      | cancelled => cases hs
      | interrupted =>
        cases hs
        refine conn_accounted h rfl (fun j hj => ?_) rfl (.inl rfl) (h.drained n) (h.empty n)
        rcases hj with hj | hj
        · have hor : j ∈ sent ++ (c.conns n).written ∨ j ∈ (c.conns n).rest := .inl hj
          exact mem_sent hg.1 hor
        · exact .inl (hg.1 j hj)
    · cases hs
  | _ => cases hs

/-- INTERNAL: The batch is written, as far as it goes, and its calls are answered. -/
theorem flush_accounted {taken part : List ℕ} {next : Bool}
    (hbatch : (c.conns n).writer = .batching taken next) (hpart : ∀ k ∈ part, k ∈ taken)
    (herr : part ≠ [] → notSent err = false) {w : Writer}
    (hw : w = .single ∨ w = .waiting ∨ w = .leaving) :
    Accounted ((c.setConn n { c.conns n with
      written := part ++ (c.conns n).written, writer := w }).answer taken err) := by
  have hnone : batched w = [] := by rcases hw with rfl | rfl | rfl <;> rfl
  have hwd : ¬ (w = .draining ∨ w = .done) := by
    rcases hw with rfl | rfl | rfl <;> rintro (hcon | hcon) <;> cases hcon
  have hold : toSend (c.conns n) = taken ++ (c.conns n).queue.flatMap Req.calls := by
    rw [toSend, hbatch, batched]
  have hpop := h.popped _ _ (x := { c.conns n with writer := w }) err hold
    (by rw [toSend, hnone, nil_append]) rfl (fun j hj hcon => (hcon.2 n).2 hj) rfl rfl
    (fun hcon => absurd hcon hwd) (fun hcon => absurd (.inr hcon) hwd)
  obtain ⟨d, hd⟩ : ∃ d, (c.setConn n { c.conns n with writer := w }).answer taken err = d :=
    ⟨_, rfl⟩
  rw [hd] at hpop
  have hconn : d.conns n = { c.conns n with writer := w } := by
    rw [← hd]
    exact update_self _ _ _
  have hfinal : (c.setConn n { c.conns n with
      written := part ++ (c.conns n).written, writer := w }).answer taken err =
      d.setConn n { d.conns n with written := part ++ (d.conns n).written } := by
    rw [hconn, ← hd]
    simp only [Client.answer, Client.setConn, update_idem]
    rfl
  rw [hfinal]
  refine hpop.setConn rfl (fun j hj => ?_) (fun j hj => hpop.sends n j hj) (hpop.shut n)
    (hpop.drained n) (hpop.empty n)
  have hrest : j ∈ (d.conns n).written ∨ j ∈ (d.conns n).rest → ¬ Clean d j := by
    rintro (hj | hj) hcon
    · exact (hcon.2 n).1 hj
    · exact (hcon.2 n).2 hj
  rcases hj with hj | hj
  · rcases mem_append.mp hj with hj | hj
    · -- The call is answered, or has gone before.
      have htaken := hpart j hj
      have hjold : j ∈ toSend (c.conns n) := by
        rw [hold]
        exact mem_append_left _ htaken
      have hfalse := herr (ne_nil_of_mem hj)
      have hcalls : d.calls = c.calls := by
        rw [← hd]
        rfl
      have hnot : ∀ m, j ∉ toSend (d.conns m) := by
        intro m hm
        by_cases hmn : m = n
        · rw [hmn, hconn, toSend, hnone, nil_append] at hm
          have hnodup := h.nodup n
          rw [hold] at hnodup
          exact (nodup_append.mp hnodup).2.2 j htaken j hm rfl
        · have hsame : d.conns m = c.conns m := by
            rw [← hd]
            exact update_of_ne hmn _ _
          rw [hsame] at hm
          exact hmn (h.once m n j hm hjold)
      refine .inr ⟨?_, hnot⟩
      rcases h.admitted n j hjold with hwait | hgone
      · refine .inr (.inr ⟨n, err, hcalls ▸ hwait, ?_, hfalse⟩)
        rw [← hd]
        exact if_pos ⟨(h.waits n j hwait).1, htaken⟩
      · exact .inr (.inl (hcalls ▸ hgone))
    · exact .inl (hrest (.inl hj))
  · exact .inl (hrest (.inr hj))

/-- INTERNAL: The rest of a write that was interrupted goes out, and what follows it. -/
theorem writeRest_accounted {taken : Bool} {out : Outcome}
    (hs : c.stepWriter (.writeRest n taken out) = some c') : Accounted c' := by
  simp only [Client.stepWriter] at hs
  split at hs
  · rename_i hg
    have hpend : toSend (c.conns n) = (c.conns n).queue.flatMap Req.calls := by
      rw [toSend, hg.1]
      rfl
    have htouched : ∀ j, j ∈ (c.conns n).rest ++ (c.conns n).written ∨ j ∈ ([] : List ℕ) →
        j ∈ c.flows ∨ j ∈ (c.conns n).written ∨ j ∈ (c.conns n).rest := by
      rintro j (hj | hj)
      · rcases mem_append.mp hj with hj | hj
        · exact .inr (.inr hj)
        · exact .inr (.inl hj)
      · cases hj
    cases out with
    | ok =>
      cases hs
      exact conn_accounted h rfl htouched rfl (.inl rfl) (h.drained n) (h.empty n)
    | failed part wraps =>
      have hleave : Accounted (c.setConn n { c.conns n with
          rest := [], written := (c.conns n).rest ++ (c.conns n).written, writer := .leaving }) :=
        conn_accounted h (by rw [hpend]; rfl) htouched rfl (.inl rfl)
          (by rintro (hcon | hcon) <;> cases hcon) (fun hcon => by cases hcon)
      simp only at hs
      split at hs
      · rename_i r queue hq
        cases hs
        -- First the tail is written, then the request that was taken fails.
        have hself : ∀ x, (c.setConn n x).conns n = x := fun x => update_self _ _ _
        have hpop := hleave.popped (n := n) r.calls (queue.flatMap Req.calls)
          (x := { c.conns n with
            rest := [], written := (c.conns n).rest ++ (c.conns n).written, writer := .leaving,
            queue := queue }) (some (.write wraps))
          (by rw [hself, toSend, hq]; rfl) rfl (by rw [hself]) (fun j hj => by cases hj)
          (by rw [hself]) (by rw [hself]) (by rintro (hcon | hcon) <;> cases hcon)
          (fun hcon => by cases hcon)
        simp only [Client.answer, Client.setConn, update_idem] at hpop
        exact hpop
      · cases hs
        exact hleave
  · cases hs

/-- INTERNAL: The writer that has closed the queue answers what is left in it. -/
theorem drain_accounted (hs : c.stepWriter (.drain n) = some c') : Accounted c' := by
  simp only [Client.stepWriter] at hs
  split at hs
  · rename_i hw
    split at hs
    · rename_i r queue hq
      cases hs
      refine h.popped r.calls (queue.flatMap Req.calls) _ ?_ ?_ rfl
        (fun j hj hcon => (hcon.2 n).2 hj) rfl rfl (fun _ => h.drained n (.inl hw)) ?_
      · rw [toSend, hw, hq]
        rfl
      · rw [toSend, hw]
        rfl
      · intro hcon
        rw [hw] at hcon
        cases hcon
    · rename_i hq
      cases hs
      refine conn_accounted h ?_ (fun j hj => .inr hj) rfl (.inl rfl)
        (fun _ => h.drained n (.inl hw)) (fun _ => hq)
      rw [toSend, toSend, hw]
      rfl
  · cases hs

theorem stepWriter_accounted (hev : Honest c ev) (hs : c.stepWriter ev = some c') :
    Accounted c' := by
  cases ev with
  | take n =>
    simp only [Client.stepWriter] at hs
    split at hs
    case h_3 => cases hs
    -- The first request of a batch and each after it.
    all_goals
      rename_i r queue hw hq
      obtain ⟨-, ⟨⟩⟩ := ite_none_right_eq_some.mp hs
      refine conn_accounted h ?_ (fun j hj => .inr hj) rfl (.inl rfl) ?_ ?_
      · cases r <;> simp [toSend, batched, hw, hq, Req.calls]
      · cases r <;> rintro (hcon | hcon) <;> cases hcon
      · cases r <;> intro hcon <;> cases hcon
  | flush n out =>
    simp only [Client.stepWriter] at hs
    split at hs
    · rename_i taken next hw
      cases out with
      | ok =>
        cases hs
        refine flush_accounted h hw (fun k hk => hk) (fun _ => rfl) ?_
        cases next with
        | true => exact .inl rfl
        | false => exact .inr (.inl rfl)
      | failed part wraps =>
        obtain ⟨hpart, ⟨⟩⟩ := ite_none_right_eq_some.mp hs
        have herr : part ≠ [] → notSent (some (.write wraps)) = false := hev
        exact flush_accounted h hw hpart herr (.inr (.inr rfl))
    · cases hs
  | writeRest n taken out => exact writeRest_accounted h hs
  | engine n sent out =>
    obtain ⟨hg, ⟨⟩⟩ := ite_none_right_eq_some.mp hs
    have hbatch : batched (c.conns n).writer = [] := by
      rcases hg.2 with hw | ⟨hw, -⟩ <;> rw [hw] <;> rfl
    refine conn_accounted h ?_ (fun j hj => mem_sent hg.1 hj) rfl (.inl rfl) ?_ ?_
    · rw [toSend, toSend, hbatch]
      split <;> rfl
    · split <;> rintro (hcon | hcon) <;> cases hcon
    · split <;> intro hcon <;> cases hcon
  | leave n =>
    obtain ⟨hg, ⟨⟩⟩ := ite_none_right_eq_some.mp hs
    refine conn_accounted h ?_ (fun j hj => .inr hj) rfl (.inl rfl)
      (by rintro (hcon | hcon) <;> cases hcon) (fun hcon => by cases hcon)
    rw [toSend, toSend, hg.1]
    rfl
  | signal n =>
    obtain ⟨hg, ⟨⟩⟩ := ite_none_right_eq_some.mp hs
    have hconn : Accounted (c.setConn n { c.conns n with writer := .closing }) := by
      refine conn_accounted h ?_ (fun j hj => .inr hj) rfl (.inl rfl)
        (by rintro (hcon | hcon) <;> cases hcon) (fun hcon => by cases hcon)
      rw [toSend, toSend, hg]
      rfl
    exact hconn.relive rfl rfl rfl rfl rfl
  | close n =>
    obtain ⟨hg, ⟨⟩⟩ := ite_none_right_eq_some.mp hs
    refine conn_accounted h ?_ (fun j hj => ?_) rfl (.inr hg.2) (fun _ => rfl)
      (fun hcon => by cases hcon)
    · rw [toSend, toSend, hg.1]
      rfl
    · rcases hj with hj | hj
      · exact .inr (.inl hj)
      · cases hj
  | drain n => exact drain_accounted h hs
  | _ => cases hs

/-- INTERNAL: **Every move of a client keeps the account.** -/
theorem step_accounted (hev : Honest c ev) (hs : c.step ev = some c') :
    Accounted c' := by
  unfold Client.step at hs
  simp only [or_eq_some_iff] at hs
  rcases hs with hs | ⟨-, hs | ⟨-, hs | ⟨-, hs | ⟨-, hs⟩⟩⟩⟩
  · exact stepLife_accounted h hs
  · exact stepCall_accounted h hev hs
  · exact stepWait_accounted h hev hs
  · exact stepOther_accounted h hs
  · exact stepWriter_accounted h hev hs

end

@[simp, grind =]
theorem calls_setCall (c : Client) (k j : ℕ) (s : Stage) :
    (c.setCall k s).calls j = if j = k then s else c.calls j := update_apply _ _ _ _

@[simp, grind =]
theorem calls_setConn (c : Client) (n : ℕ) (x : Conn) : (c.setConn n x).calls = c.calls := rfl

@[simp, grind =]
theorem calls_signalDown (c : Client) (n : ℕ) : (c.signalDown n).calls = c.calls := rfl

/-- INTERNAL: A call that was not made, or has returned, stays so. -/
theorem step_rests (hs : c.step ev = some c')
    (hk : c.calls k = .idle ∧ ev ≠ .call k ∨ ∃ err, c.calls k = .returned err) :
    c'.calls k = c.calls k := by
  unfold Client.step at hs
  simp only [or_eq_some_iff] at hs
  rcases hs with hs | ⟨-, hs | ⟨-, hs | ⟨-, hs | ⟨-, hs⟩⟩⟩⟩
  · cases ev <;> grind [Client.stepLife, Client.setLife]
  · cases ev <;> grind [Client.stepCall, Client.release]
  · cases ev <;> grind [Client.stepWait]
  · cases ev <;> grind [Client.stepOther]
  · cases ev <;> grind [Client.stepWriter, Client.answer]

end Moves

/-! ### Trying clients one after another -/

/-- Nothing of the call's packet was written, none of it is to be written, and the session has no
flow for it. -/
def Unwritten (c : Client) (k : ℕ) : Prop := Clean c k ∧ ∀ n, k ∉ toSend (c.conns n)

/-- A group before it is asked to publish. -/
def Untried (s : Group) : Prop :=
  ∃ (cfgs : ℕ → Config) (g : List Pooled) (start : UInt64) (starts : ℕ → UInt64),
    s = { clients := fun i => { cfg := cfgs i }, targets := groupTargets g start starts }

def HonestIn (s : Group) : GroupEvent → Prop
  | .client i ev => Honest (s.clients i) ev
  | _ => True

/-- Only the attempts up to the present one were made, each on its client, and those before it
returned an error that `notSent` accepts. -/
structure Followed (s : Group) : Prop where
  accounted : ∀ i, Accounted (s.clients i)
  tried : ∀ i a, a < s.targets.length → (s.clients i).calls a ≠ .idle →
    s.targets[a]? = some i ∧ a ≤ s.attempt ∧ (a < s.attempt →
      ∃ err, (s.clients i).calls a = .returned err ∧ notSent err = true)

theorem accounted_new (cfg : Config) : Accounted { cfg := cfg } := by
  refine ⟨fun n => nodup_nil, fun n k hk => ?_, fun n k hk => ?_, fun n m k hk => ?_,
    fun n k hk => ?_, fun k hk => ?_, fun k hk => ?_, fun n k hk => ?_, fun n k hk => ?_,
    fun n hn => ?_, fun n hn => ?_, fun n hn => ?_⟩
  · cases hk
  · cases hk
  · cases hk
  · cases hk
  · exact absurd ⟨not_mem_nil, fun n => ⟨not_mem_nil, not_mem_nil⟩⟩ hk
  · exact absurd rfl hk
  · rcases hk with hk | hk <;> cases hk
  · cases hk
  · cases hn
  · rcases hn with hn | hn <;> cases hn
  · cases hn

/-- INTERNAL: A client's move, other than the start of an attempt, keeps the trace; the start of
the present attempt does as well. -/
theorem Followed.stepClient (h : Followed s) {i : ℕ} {ev : Event} (hev : Honest (s.clients i) ev)
    (hcall : ∀ a < s.targets.length, ev = .call a →
      a = s.attempt ∧ s.targets[a]? = some i ∧ (s.clients i).calls a = .idle)
    (hs : s.stepClient i ev = some t) : Followed t := by
  obtain ⟨c, hc, rfl⟩ := map_eq_some_iff.mp hs
  have hclients : ∀ j, Function.update s.clients i c j = if j = i then c else s.clients j :=
    fun j => update_apply _ _ _ _
  refine ⟨fun j => ?_, fun j a ha hne => ?_⟩
  · simp only [hclients]
    split
    · exact step_accounted (h.accounted i) hev hc
    · exact h.accounted j
  · simp only [hclients] at hne ⊢
    split
    · rename_i hj
      subst hj
      rw [if_pos rfl] at hne
      by_cases hidle : (s.clients j).calls a = .idle
      · -- It was not made before, so this event makes it.
        have hmade : ev = .call a := by
          by_contra hcon
          exact hne ((step_rests hc (.inl ⟨hidle, hcon⟩)).trans hidle)
        obtain ⟨hat, htarget, -⟩ := hcall a ha hmade
        exact ⟨htarget, Nat.le_of_eq hat, fun hlt => absurd hlt (by omega)⟩
      · obtain ⟨htarget, hle, hbefore⟩ := h.tried j a ha hidle
        refine ⟨htarget, hle, fun hlt => ?_⟩
        obtain ⟨err, hret, hnot⟩ := hbefore hlt
        exact ⟨err, (step_rests hc (.inr ⟨err, hret⟩)).trans hret, hnot⟩
    · rename_i hj
      rw [if_neg hj] at hne
      exact h.tried j a ha hne

theorem Followed.step (h : Followed s) {ev : GroupEvent} (hev : HonestIn s ev)
    (hs : s.step ev = some t) : Followed t := by
  cases ev with
  | client i ev =>
    simp only [Group.step] at hs
    split at hs
    · cases hs
    · rename_i hreserved
      refine h.stepClient hev (fun a ha heq => ?_) hs
      subst heq
      exact absurd (decide_eq_true ha) hreserved
  | attempt =>
    obtain ⟨i, hi, hs⟩ := bind_eq_some_iff.mp hs
    have hcall : Honest (s.clients i) (.call s.attempt) := trivial
    refine h.stepClient hcall (fun a ha heq => ?_) hs
    obtain rfl := Event.call.inj heq
    refine ⟨rfl, hi, ?_⟩
    by_contra hidle
    obtain ⟨c, hc, -⟩ := map_eq_some_iff.mp hs
    have hnone : (s.clients i).step (.call s.attempt) = none := by
      simp only [Client.step, Client.stepLife, Client.stepCall, Client.stepWait, Client.stepOther,
        Client.stepWriter, if_neg hidle, none_or]
    rw [hnone] at hc
    cases hc
  | moveOn =>
    obtain ⟨i, hi, hs⟩ := bind_eq_some_iff.mp hs
    split at hs
    · rename_i err hret
      obtain ⟨hnot, ⟨⟩⟩ := ite_none_right_eq_some.mp hs
      refine ⟨h.accounted, fun j a ha hne => ?_⟩
      obtain ⟨htarget, hle, hbefore⟩ := h.tried j a ha hne
      refine ⟨htarget, Nat.le_succ_of_le hle, fun hlt => ?_⟩
      rcases Nat.lt_or_eq_of_le hle with hless | rfl
      · exact hbefore hless
      · rw [hi] at htarget
        cases htarget
        exact ⟨err, hret, hnot⟩
    · cases hs
  | skip =>
    obtain ⟨i, hi, hs⟩ := bind_eq_some_iff.mp hs
    obtain ⟨hidle, ⟨⟩⟩ := ite_none_right_eq_some.mp hs
    refine ⟨h.accounted, fun j a ha hne => ?_⟩
    obtain ⟨htarget, hle, hbefore⟩ := h.tried j a ha hne
    refine ⟨htarget, Nat.le_succ_of_le hle, fun hlt => ?_⟩
    rcases Nat.lt_or_eq_of_le hle with hless | rfl
    · exact hbefore hless
    · rw [hi] at htarget
      cases htarget
      exact absurd hidle hne

/-- INTERNAL: A call that has returned stays so in the run of the group. -/
theorem group_rests {ev : GroupEvent} {i k : ℕ} {err : Option PublishError}
    (hk : (s.clients i).calls k = .returned err) (hs : s.step ev = some t) :
    (t.clients i).calls k = .returned err := by
  have hclient : ∀ j ev', s.stepClient j ev' = some t → (t.clients i).calls k = .returned err := by
    intro j ev' hs'
    obtain ⟨c, hc, rfl⟩ := map_eq_some_iff.mp hs'
    by_cases hij : i = j
    · subst hij
      simp only [update_self]
      exact (step_rests hc (.inr ⟨err, hk⟩)).trans hk
    · simp only [update_of_ne hij]
      exact hk
  cases ev with
  | client j ev' =>
    simp only [Group.step] at hs
    split at hs
    · cases hs
    · exact hclient j ev' hs
  | attempt =>
    obtain ⟨j, -, hs⟩ := bind_eq_some_iff.mp hs
    exact hclient j _ hs
  | moveOn =>
    obtain ⟨j, -, hs⟩ := bind_eq_some_iff.mp hs
    split at hs
    · obtain ⟨-, ⟨⟩⟩ := ite_none_right_eq_some.mp hs
      exact hk
    · cases hs
  | skip =>
    obtain ⟨j, -, hs⟩ := bind_eq_some_iff.mp hs
    obtain ⟨-, ⟨⟩⟩ := ite_none_right_eq_some.mp hs
    exact hk

/-- **One Publish, one connection.** For every ClientGroup (a publisher pool with its main
connection is a group of one), in every run of its Publish among the connections, writers,
disconnects, reconnects, shutdowns and other callers of its clients, as long as no error of a
connection, a session or the end of a span contains ErrNotConnected or ErrWriteQueueFull once the
packet is on its way: when a client's Publish has returned an error that `notSent` accepts, nothing
of its packet was written or is to be written on any connection of the client and its session has no
flow for it, now and in every later state; and the message is with at most one client, by one
attempt. -/
theorem one_publish_one_connection {s : Group} (h : Reach Group.step HonestIn Untried s) :
    (∀ i k err, (s.clients i).calls k = .returned err → notSent err = true →
      ∀ t, Reach Group.step HonestIn (· = s) t → Unwritten (t.clients i) k) ∧
    ∀ i j a b, a < s.targets.length → b < s.targets.length → ¬ Unwritten (s.clients i) a →
      ¬ Unwritten (s.clients j) b → i = j ∧ a = b := by
  have htraced : Followed s := by
    refine h.invariant Followed ?_ fun _ _ _ hs hev hstep => hs.step hev hstep
    rintro _ ⟨cfgs, g, start, starts, rfl⟩
    exact ⟨fun i => accounted_new (cfgs i), fun i a _ hne => absurd rfl hne⟩
  refine ⟨fun i k err hk hnot t ht => ?_, fun i j a b ha hb hsent hsent' => ?_⟩
  · have hlater : Followed t ∧ (t.clients i).calls k = .returned err := by
      refine ht.invariant (fun t => Followed t ∧ (t.clients i).calls k = .returned err) ?_ ?_
      · rintro _ rfl
        exact ⟨htraced, hk⟩
      · exact fun _ _ _ hs hev hstep => ⟨hs.1.step hev hstep, group_rests hs.2 hstep⟩
    exact (hlater.1.accounted i).unsent hlater.2 hnot
  · -- An attempt with something of its packet is the present one.
    have hpresent : ∀ i a, a < s.targets.length → ¬ Unwritten (s.clients i) a →
        s.targets[a]? = some i ∧ a = s.attempt := by
      intro i a ha hsent
      have hne : (s.clients i).calls a ≠ .idle := by
        intro hidle
        obtain ⟨hclean, hnone, -⟩ := (htraced.accounted i).fresh (.inl hidle)
        exact hsent ⟨hclean, hnone⟩
      obtain ⟨htarget, hle, hbefore⟩ := htraced.tried i a ha hne
      refine ⟨htarget, ?_⟩
      by_contra hat
      obtain ⟨err, hret, hnot⟩ := hbefore (by omega)
      exact hsent ((htraced.accounted i).unsent hret hnot)
    obtain ⟨hi, haa⟩ := hpresent i a ha hsent
    obtain ⟨hj, hbb⟩ := hpresent j b hb hsent'
    have hab : a = b := haa.trans hbb.symm
    subst hab
    rw [hi] at hj
    exact ⟨Option.some.inj hj, rfl⟩

/-- A group of two clients that wait for their packets to be flushed. -/
def pair : Group where
  clients _ := { cfg := { waitForFlush := true, block := false, capacity := 1, batchMax := 1 } }
  targets := groupTargets [⟨[], 0⟩, ⟨[], 1⟩] 0 fun _ => 0

/-- A client connects, and its writer writes the packet of call `k`, with this outcome. -/
def writes (i k : ℕ) (out : Outcome) : List GroupEvent :=
  [.client i .connect, .client i (.resume 0), .attempt, .client i (.found k),
    .client i (.admitted k),
    .client i (.push k), .client i (.take 0), .client i (.flush 0 out), .client i (.answered k)]

/-- The decidable part of `HonestIn`, for runs without failures. -/
def honest (_ : Group) : GroupEvent → Bool
  | .client _ (.direct _ (.failed _ _)) => false
  | .client _ (.flush _ (.failed _ _)) => false
  | .client _ (.finish _ _) => false
  | .client _ (.cut _ _) => false
  | .client _ (.registerFails _ _ _) => false
  | _ => true

theorem honest_of_check (s : Group) (ev : GroupEvent) (h : honest s ev = true) :
    HonestIn s ev := by
  cases ev with
  | client i ev =>
    cases ev with
    | direct k how =>
      cases how with
      | failed started wraps => cases h
      | _ => trivial
    | flush n out =>
      cases out with
      | ok => trivial
      | failed part wraps => cases h
    | finish k err => cases h
    | cut k span => cases h
    | registerFails k err kept => cases h
    | _ => trivial
  | _ => trivial

/-- The first client is not connected; the second sends the message. -/
theorem second_client_sends : ∃ s, execute Group.step pair
      ([.attempt, .client 0 (.noConnection 0), .moveOn] ++ writes 1 1 .ok) = some s ∧
      Unwritten (s.clients 0) 0 ∧ ¬ Unwritten (s.clients 1) 1 ∧
      (s.clients 1).calls 1 = .returned none := by
  have hrun : (execute Group.step pair
      ([.attempt, .client 0 (.noConnection 0), .moveOn] ++ writes 1 1 .ok)).any (fun s =>
        (s.clients 0).calls 0 = .returned (some .notConnected) ∧
        1 ∈ ((s.clients 1).conns 0).written ∧ (s.clients 1).calls 1 = .returned none) = true := by
    decide +kernel
  obtain ⟨s, hs, hP⟩ := exists_of_execute hrun
  obtain ⟨hret, hwritten, hcall⟩ := of_decide_eq_true hP
  have hreach : Reach Group.step HonestIn Untried s :=
    Reach.of_execute honest_of_check (.start ⟨_, _, _, _, rfl⟩) (by decide +kernel) hs
  refine ⟨s, hs, ?_, fun hcon => (hcon.1.2 0).1 hwritten, hcall⟩
  exact (one_publish_one_connection hreach).1 0 0 _ hret rfl s (.start rfl)

/-- The connection of the first client writes a byte and fails with an error that contains
ErrNotConnected: the second client sends the message as well. -/
theorem written_on_two : ((execute Group.step pair
      (writes 0 0 (.failed [0] true) ++ [.moveOn] ++ writes 1 1 .ok)).any fun s =>
        0 ∈ ((s.clients 0).conns 0).written ∧ 1 ∈ ((s.clients 1).conns 0).written ∧
        (s.clients 1).calls 1 = .returned none) = true := by
  decide +kernel

end Mqttv5.Guarantees.Publishing
