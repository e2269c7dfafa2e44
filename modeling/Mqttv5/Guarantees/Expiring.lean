import Mqttv5.Analysis.ExpiryOffset
import Mqttv5.Guarantees.Withdrawing

/-!
# The expiry of a message never grows

`Expiring` is a run of the session together with the last reading of the clock and the flows
whose PUBLISH a `Collect` has handed out in the current broker session. A flow that comes back
from the store has been handed out when the flow it continues was.

`Register` remembers how many seconds its clock gives the message, whatever the packet says, and
`Collect` rewrites the packet only when less than that is left. And a flow that comes back from
the store is sent as it is, whether it was sent before or not. Apart from these two, a PUBLISH
handed out for the first time in a broker session has not expired, and its interval ends less
than a second after the message does.
-/

set_option autoImplicit false

namespace Mqttv5.Guarantees

open Mqttv5.Computation Model Program Interface Analysis List
open Function (update_of_ne update_self)

variable {o o' : Out} {c now t : ℤ} {X : Prop} {p : OutPtr} {e e' : Engine}

structure Expiring where
  sys : Sys
  clock : Time
  sent : List OutPtr := []

/-- The reading of the clock an event comes with. -/
def Expiring.reading : Event → Option Time
  | .register _ now => some now
  | .connected _ now => some now
  | .collect _ _ now => some now
  | _ => none

/-- The flows from address `k` on that continue one handed out. -/
def sentAgain (sent : List OutPtr) (e e' : Engine) (k : ℕ) : List OutPtr :=
  (List.range' k (e'.nextOut - k)).filter fun q => sent.any fun p => continues e e' p q

/-- The flows handed out in the broker session after a step to `t`. -/
def Expiring.sentAfter (h : Expiring) (a : Event) (t : Sys) : List OutPtr :=
  match a with
  | .collect gen upTo now => h.sent ++ Sys.publishes (collect h.sys.eng gen upTo now).2
  | .connected ci _ =>
    if h.sys.eng.failure = none ∧ ci.sessionPresent = false then [] else h.sent
  | .restore => h.sent ++ sentAgain h.sent h.sys.eng t.eng h.sys.eng.nextOut
  | .restart => sentAgain h.sent h.sys.eng t.eng 0
  | _ => h.sent

def Expiring.step (h : Expiring) (a : Event) : Option Expiring :=
  (h.sys.step a).map fun t =>
    { sys := t, clock := (Expiring.reading a).getD h.clock, sent := h.sentAfter a t }

/-- The records are those of QoS 1 and 2 PUBLISHes, and each that expires is the record of a flow
that was handed out. -/
def Expiring.recalls (h : Expiring) (recs : List Record) : Prop :=
  ∀ r ∈ recs, Continues r → hasPacketID r.packet = true ∧
    (r.expiresAt ≠ none → ∃ p ∈ h.sent, (h.sys.eng.outs p).id = r.key.packetID ∧
      (h.sys.eng.outs p).pubSeq = r.seq)

/-- The clock never goes back; a message is registered with the packet of a QoS 1 or 2 PUBLISH, as
its decoder reads it, whose interval, if it has one and has not expired, ends less than a second
after the message, which is less than 2^32 seconds ahead; and no flow comes back from the store
that was not handed out. `AtRest` says when Restore and Discard may come. -/
def Timely (h : Expiring) (a : Event) : Prop :=
  AtRest True h.sys a ∧ (∀ now, Expiring.reading a = some now → h.clock ≤ now) ∧
  match a with
  | .register m now => (∃ x, decoded m.packet = some x ∧ 0 < x.qos) ∧
      ∀ t s, m.expiresAt = some t → interval m.packet = some s → t ≤ now ∨
        now + s * 1000000000 < t + 1000000000 ∧ t < now + 2 ^ 32 * 1000000000 - 1000000000
  | .restore => ∀ m recs, h.sys.loaded = some (m, recs) → h.recalls recs
  | .restart => h.recalls h.sys.store.load.2
  | _ => True

/-! ### One flow -/

/-- An unsent packet says no more than the engine thinks, or has expired at `c`. -/
def WithinExpiry (c : Time) (o : Out) : Prop :=
  ∀ t, o.expiresAt = some t → t ≤ c ∨ ∀ s, messageExpiry o.packet = some s → s ≤ o.expiry

/-- The packet, sent at `now`, belongs to a message that expires at `t`. -/
def InTime (now t : ℤ) (packet : Bytes) : Prop :=
  now < t ∧ ∀ s, messageExpiry packet = some s → now + s * 1000000000 < t + 1000000000

/-- What a run keeps of the packet of a flow. -/
def Sized (c : Time) (o : Out) : Prop :=
  o.finished = true ∨ hasPacketID o.packet = true ∧ (o.attempted = false → WithinExpiry c o)

/-- What a run keeps of the mark of the flow at `p`. -/
def Marked (sent : List OutPtr) (p : OutPtr) (o : Out) : Prop :=
  o.finished = true ∨ o.attempted = false ∨ o.expiresAt = none ∨ p ∈ sent

theorem WithinExpiry.mono {c c' : Time} (h : WithinExpiry c o) (hc : c ≤ c') :
    WithinExpiry c' o := by
  intro t ht
  rcases h t ht with h | h
  · exact .inl (le_trans h hc)
  · exact .inr h

theorem WithinExpiry.tracked {c : Time} (h : WithinExpiry c o) (ht : Tracked o o') :
    WithinExpiry c o' := by
  intro t hexp
  rw [ht.expiresAt] at hexp
  rw [ht.packet, ht.expiry]
  exact h t hexp

/-- INTERNAL: A packet whose interval was written is bounded by it. -/
theorem bounded_written (f : Bytes) (v : ℕ) {s : ℕ}
    (h : messageExpiry (withMessageExpiry f v) = some s) :
    s ≤ v := by
  rw [messageExpiry_withMessageExpiry] at h
  obtain ⟨off, -, rfl⟩ := Option.map_eq_some_iff.mp h
  exact Nat.mod_le _ _

namespace Sized

variable {c c' : Time} {o o' : Out}

section

variable (h : Sized c o)
include h

theorem mono (hc : c ≤ c') : Sized c' o := by
  rcases h with h | ⟨hid, hnew⟩
  · exact .inl h
  · exact .inr ⟨hid, fun ha => (hnew ha).mono hc⟩

theorem tracked (ht : Tracked o o') : Sized c o' := by
  rcases h with h | ⟨hid, hnew⟩
  · exact .inl (ht.finished h)
  · refine .inr ⟨?_, fun ha => (hnew (ht.attempted.symm.trans ha)).tracked ht⟩
    rw [ht.packet]
    exact hid

theorem downgrade : Sized c (downgraded o) := by
  rcases h with h | ⟨hid, hnew⟩
  · exact .inl h
  · obtain ⟨hsame, hid'⟩ := messageExpiry_downgraded o hid
    refine .inr ⟨hid', fun ha t ht => ?_⟩
    rw [hsame]
    exact hnew ha t ht

/-- INTERNAL: A lost session writes the interval anew. -/
theorem renew (now : Time) : Sized c' (asNew o now) := by
  unfold asNew
  cases hexp : o.expiresAt with
  | none =>
    rcases h with h | ⟨hid, -⟩
    · exact .inl h
    · refine .inr ⟨hid, fun _ t ht => ?_⟩
      have ht : (none : Option Time) = some t := ht
      cases ht
  | some t =>
    rcases h with h | ⟨hid, -⟩
    · exact .inl h
    · refine .inr ⟨?_, fun _ _ _ => .inr fun s hs => bounded_written _ _ hs⟩
      exact (hasPacketID_withMessageExpiry _ _).trans hid

theorem sends {now : Time} (hs : Moves.Sends now o o') : Sized c o' := by
  rcases h with h | ⟨hid, hnew⟩
  · exact .inl (sends_finished hs h)
  · cases hs with
    | send => exact .inr ⟨hid, fun hcon => (by cases hcon)⟩
    | shorten hleft =>
      refine .inr ⟨?_, fun _ _ _ => .inr fun s hs => bounded_written _ _ hs⟩
      exact (hasPacketID_withMessageExpiry _ _).trans hid

end

end Sized

namespace Marked

variable {sent sent' : List OutPtr} {p : OutPtr} {o o' : Out}

theorem mono (h : Marked sent p o) (hsent : ∀ q ∈ sent, q ∈ sent') : Marked sent' p o := by
  rcases h with h | h | h | h
  · exact .inl h
  · exact .inr (.inl h)
  · exact .inr (.inr (.inl h))
  · exact .inr (.inr (.inr (hsent p h)))

theorem tracked (h : Marked sent p o) (ht : Tracked o o') : Marked sent p o' := by
  rcases h with h | h | h | h
  · exact .inl (ht.finished h)
  · exact .inr (.inl (ht.attempted.trans h))
  · exact .inr (.inr (.inl (ht.expiresAt.trans h)))
  · exact .inr (.inr (.inr h))

end Marked

/-! ### What a `Collect` sends -/

/-- What the loop of `Collect` at `now` keeps of a flow that expires at `t`; `X` says that the
flow was handed out before. -/
structure Sendable (c now t : ℤ) (X : Prop) (o : Out) : Prop where
  expires : o.expiresAt = some t
  unsent : o.attempted = false → WithinExpiry c o
  resent : o.attempted = true → X ∨ InTime now t o.packet

section

variable (h : Sendable c now t X o)
include h

theorem Sendable.tracked (ht : Tracked o o') :
    Sendable c now t X o' := by
  refine ⟨ht.expiresAt.trans h.expires, fun ha => ?_, fun ha => ?_⟩
  · exact (h.unsent (ht.attempted.symm.trans ha)).tracked ht
  · rw [ht.packet]
    exact h.resent (ht.attempted.symm.trans ha)

end

theorem outs_setOut_ne (e : Engine) {q : OutPtr} (h : p ≠ q) (f : Out → Out) :
    (setOut e q f).outs p = e.outs p := update_of_ne h _ _

theorem outs_setOut_self (e : Engine) (p : OutPtr) (f : Out → Out) :
    (setOut e p f).outs p = f (e.outs p) := update_self _ _ _

/-- INTERNAL: A flow that was handed out is so. -/
theorem Sendable.handOut (q : OutPtr) (h : Sendable c now t X (e.outs p))
    (hq : p = q → X ∨ InTime now t (e.outs p).packet) :
    Sendable c now t X ((Program.handOut e q).outs p) := by
  show Sendable c now t X
    ((setOut e q fun o => { o with attempted := true, counted := true }).outs p)
  by_cases hpq : p = q
  · subst hpq
    rw [outs_setOut_self]
    exact ⟨h.expires, fun ha => (by cases ha), fun _ => hq rfl⟩
  · rw [outs_setOut_ne e hpq]
    exact h

/-- INTERNAL: The loop marks no flow but those it hands out. -/
theorem collectLoop_unsent (now : Time) (fuel : ℕ) :
    ∀ (sent : ℕ) (e : Engine), (e.outs p).attempted = false →
      p ∉ Sys.publishes (collectLoop now fuel sent e).2 →
      ((collectLoop now fuel sent e).1.outs p).attempted = false := by
  have hkeep : ∀ {e e' : Engine}, Moves Never e e' → (e.outs p).attempted = false →
      (e'.outs p).attempted = false := fun hm ha =>
    hm.keeps (fun o => o.attempted = false) (fun _ _ ht ho => ht.attempted.trans ho)
      (fun _ _ hf => hf.elim) p ha
  have hshort : ∀ (e : Engine) (q : OutPtr) (left : ℕ), (e.outs p).attempted = false →
      ((shorten e q left).outs p).attempted = false := by
    intro e q left ha
    unfold shorten
    by_cases hpq : p = q
    · subst hpq
      rw [outs_setOut_self]
      exact ha
    · rw [outs_setOut_ne e hpq]
      exact ha
  have hout : ∀ (e : Engine) (q : OutPtr), p ≠ q → (e.outs p).attempted = false →
      ((handOut e q).outs p).attempted = false := by
    intro e q hpq ha
    show ((setOut e q fun o => { o with attempted := true, counted := true }).outs p).attempted = _
    rw [outs_setOut_ne e hpq]
    exact ha
  induction fuel with
  | zero => exact fun _ _ ha _ => ha
  | succ fuel ih =>
    intro sent e ha hnot
    unfold collectLoop at hnot ⊢
    split
    · exact ha
    · rename_i q hq
      rw [hq] at hnot
      simp only at hnot ⊢
      split
      · exact ha
      · rename_i hmax
        rw [if_neg hmax] at hnot
        split
        · exact ha
        · rename_i hwait
          rw [if_neg hwait] at hnot
          split
          · rename_i hexp
            rw [if_pos hexp] at hnot
            exact ih _ _ (hkeep (Acts.endFlow e q _).toMoves ha) hnot
          · rename_i hexp
            rw [if_neg hexp] at hnot
            split
            · rename_i hleft
              rw [hleft] at hnot
              have hnot : p ∉ q :: Sys.publishes
                (collectLoop now fuel (sent + 1) (handOut e q)).2 :=
                hnot
              rw [mem_cons, not_or] at hnot
              exact ih _ _ (hout e q hnot.1 ha) hnot.2
            · rename_i left hleft
              rw [hleft] at hnot
              simp only at hnot
              split
              · exact hkeep (Acts.putOutLocked _ q).toMoves (hshort e q left ha)
              · rename_i hstore
                rw [if_neg hstore] at hnot
                have hnot : p ∉ q ::
                    Sys.publishes (collectLoop now fuel (sent + 1)
                      (handOut (shorten e q left) q)).2 :=
                  hnot
                rw [mem_cons, not_or] at hnot
                exact ih _ _ (hout _ q hnot.1 (hshort e q left ha)) hnot.2

/-! ### A lost session -/

/-- The flow has ended, or is unsent. -/
def NotTried (o : Out) : Prop := o.finished = true ∨ o.attempted = false

theorem unsent_of_renews {policy : SessionLossPolicy} {now : Time} {lost : Bool}
    (hm : Moves (Moves.Renews policy now lost) e e') (p : OutPtr) (h : NotTried (e.outs p)) :
    NotTried (e'.outs p) := by
  refine hm.keeps NotTried (fun o o' ht ho => ?_) (fun o o' hr ho => ?_) p h
  · rcases ho with ho | ho
    · exact .inl (ht.finished ho)
    · exact .inr (ht.attempted.trans ho)
  · cases hr with
    | renew =>
      refine .inr ?_
      unfold asNew
      simp only
      split <;> rfl
    | downgrade => exact ho

theorem loseFlow_unsent (now : Time) (e : Engine) (p : OutPtr) :
    NotTried ((loseFlow now e p).outs p) := by
  unfold loseFlow
  split
  · rename_i reason _
    have hm := Acts.retireLocked (finishLocked e p (some reason)) p
    refine .inl (finished_of_moves hm.toMoves (fun _ _ hf => hf.elim) p ?_)
    exact finishLocked_finished e p _
  · refine .inr ((Acts.putOutLocked _ p).toMoves.keeps (fun o => o.attempted = false)
      (fun _ _ ht ho => ht.attempted.trans ho) (fun _ _ hf => hf.elim) p ?_)
    show ((setOut e p fun o => asNew o now).outs p).attempted = false
    rw [outs_setOut_self]
    unfold asNew
    simp only
    split <;> rfl

/-- INTERNAL: Every flow on the lists is unsent, or ended. -/
theorem foldl_loseFlow_unsent (now : Time) (l : List OutPtr) :
    ∀ (e : Engine) (p : OutPtr), p ∈ l → NotTried ((l.foldl (loseFlow now) e).outs p) := by
  induction l with
  | nil =>
    intro e p hp
    cases hp
  | cons q rest ih =>
    intro e p hp
    rw [foldl_cons]
    rcases mem_cons.mp hp with rfl | hp
    · exact unsent_of_renews (Moves.foldl_loseFlow now rest rfl) p (loseFlow_unsent now e p)
    · exact ih _ p hp

theorem connected_unsent {ci : ConnInfo} (now : Time) (hf : e.failure = none)
    (hlost : ci.sessionPresent = false) (hp : p ∈ e.pub ++ e.rel) :
    NotTried ((connected e ci now).outs p) := by
  unfold connected
  rw [if_neg (by simp [hf])]
  simp only [hlost, Bool.false_eq_true, if_false]
  have hlists : (bindLocked e ci).pub = e.pub ∧ (bindLocked e ci).rel = e.rel := by
    unfold bindLocked
    simp only [foldl_clearCounted, and_self]
  generalize bindLocked e ci = d at hlists ⊢
  have hlost : NotTried ((sessionLostLocked d now).outs p) := by
    unfold sessionLostLocked
    refine foldl_loseFlow_unsent now _ _ p ?_
    unfold sortByPubSeq
    rw [mem_insertionSort]
    have hq := (Inward.lose d).sendQueue
    have hin : (d.inn.toList.foldl loseIn d).pub = d.pub ∧
        (d.inn.toList.foldl loseIn d).rel = d.rel :=
      ⟨congrArg SendQueue.pub hq, congrArg SendQueue.rel hq⟩
    show p ∈ (d.inn.toList.foldl loseIn d).pub ++ (d.inn.toList.foldl loseIn d).rel
    rw [hin.1, hin.2, hlists.1, hlists.2]
    exact hp
  have hlim := Acts.limitLocked (G := Moves.Renews .republish now true) (fun _ => .downgrade)
    (sessionLostLocked d now) ci
  exact unsent_of_renews hlim.toMoves p hlost

/-! ### The run -/

structure ExpiringInv (h : Expiring) : Prop where
  session : Session True h.sys
  sized : ∀ p < h.sys.eng.nextOut, Sized h.clock (h.sys.eng.outs p)
  marked : ∀ p < h.sys.eng.nextOut, Marked h.sent p (h.sys.eng.outs p)

theorem collect_unsent (e : Engine) (gen upTo : ℕ) (now : Time) (ha : (e.outs p).attempted = false)
    (hnot : p ∉ Sys.publishes (collect e gen upTo now).2) :
    ((collect e gen upTo now).1.outs p).attempted = false := by
  unfold collect at hnot ⊢
  split
  · exact ha
  · rename_i hserves
    rw [if_neg hserves] at hnot
    simp only [publishes_append, mem_append, not_or] at hnot ⊢
    refine collectLoop_unsent now _ _ _ ?_ hnot.2
    have hm : Moves Never e (collectControlLocked { e with released := max e.released upTo }).1 :=
      (Inward.collectControlLoop _ _).moves.after rfl rfl
    exact hm.keeps (fun o => o.attempted = false) (fun _ _ ht ho => ht.attempted.trans ho)
      (fun _ _ hf => hf.elim) p ha

namespace ExpiringInv

variable {h : Expiring} {t : Sys}

section

variable (hk : ExpiringInv h)
include hk

/-- INTERNAL: A step that keeps books: the clock does not go back, and nothing sent is
forgotten. -/
theorem of_books (ht : Session True t) (hm : Moves Never h.sys.eng t.eng)
    {c : Time} (hc : h.clock ≤ c) {sent : List OutPtr} (hsent : ∀ q ∈ h.sent, q ∈ sent) :
    ExpiringInv { sys := t, clock := c, sent := sent } := by
  refine ⟨ht, fun p hp => ?_, fun p hp => ?_⟩
  · have hp : p < h.sys.eng.nextOut := hm.nextOut ▸ hp
    exact hm.keeps (Sized c) (fun _ _ htr ho => ho.tracked htr) (fun _ _ hf => hf.elim) p
      ((hk.sized p hp).mono hc)
  · have hp : p < h.sys.eng.nextOut := hm.nextOut ▸ hp
    exact hm.keeps (Marked sent p) (fun _ _ htr ho => ho.tracked htr) (fun _ _ hf => hf.elim) p
      ((hk.marked p hp).mono hsent)

theorem register {m : Message} {now : Time} (ha : Timely h (.register m now))
    (ht : Session True t) (hnext : t.eng.nextOut = h.sys.eng.nextOut + 1) (houts : t.eng.outs =
      Function.update h.sys.eng.outs h.sys.eng.nextOut (newOut h.sys.eng m now)) :
    ExpiringInv { sys := t, clock := now, sent := h.sent } := by
  obtain ⟨-, hclock, ⟨x, hx, hqos⟩, hstated⟩ := ha
  -- The new flow says what `Timely` has it say.
  have hnew : Sized now (newOut h.sys.eng m now) := by
    refine .inr ⟨hasPacketID_of_decoded hx hqos, fun _ t' ht' => ?_⟩
    have ht' : m.expiresAt = some t' := ht'
    by_cases hpast : t' ≤ now
    · exact .inl hpast
    · refine .inr fun s hs => ?_
      have hexp : (newOut h.sys.eng m now).expiry = secondsUntil t' now := by
        unfold newOut
        rw [ht']
      have hs : messageExpiry m.packet = some s := hs
      rw [messageExpiry_eq_interval hx] at hs
      obtain ⟨hends, hfar⟩ := (hstated t' s ht' hs).resolve_left hpast
      rw [hexp]
      exact le_secondsUntil (Int.not_le.mp hpast) hends hfar
  refine ⟨ht, fun p hp => ?_, fun p hp => ?_⟩
  · have hp : p < t.eng.nextOut := hp
    show Sized now (t.eng.outs p)
    rw [houts]
    by_cases heq : p = h.sys.eng.nextOut
    · rw [heq, update_self]
      exact hnew
    · rw [update_of_ne heq]
      exact (hk.sized p (by omega)).mono (hclock now rfl)
  · have hp : p < t.eng.nextOut := hp
    show Marked h.sent p (t.eng.outs p)
    rw [houts]
    by_cases heq : p = h.sys.eng.nextOut
    · rw [heq, update_self]
      exact .inr (.inl rfl)
    · rw [update_of_ne heq]
      exact hk.marked p (by omega)

theorem connected {ci : ConnInfo} {now : Time} (hf : h.sys.eng.failure = none) (ht : Session True t)
    (heng : t.eng = connected h.sys.eng ci now) (hclock : h.clock ≤ now) :
    ExpiringInv { sys := t, clock := now, sent := h.sentAfter (.connected ci now) t } := by
  have hm := Moves.connected h.sys.eng ci now
  rw [← heng] at hm
  refine ⟨ht, fun p hp => ?_, fun p hp => ?_⟩
  · have hp : p < h.sys.eng.nextOut := hm.nextOut ▸ hp
    refine hm.keeps (Sized now) (fun _ _ htr ho => ho.tracked htr) (fun o o' hr ho => ?_) p
      ((hk.sized p hp).mono hclock)
    cases hr with
    | renew => exact ho.renew now
    | downgrade => exact ho.downgrade
  · have hp : p < h.sys.eng.nextOut := hm.nextOut ▸ hp
    by_cases hlost : ci.sessionPresent = false
    · -- What was sent is forgotten with the session, and unsent again.
      show Marked (h.sentAfter (.connected ci now) t) p (t.eng.outs p)
      by_cases hend : (h.sys.eng.outs p).finished = true
      · refine .inl (finished_of_moves hm (fun o o' hr ho => ?_) p hend)
        cases hr with
        | renew =>
          unfold asNew
          simp only
          split <;> exact ho
        | downgrade => exact ho
      · have hlive : (sendQueue h.sys.eng).Live p := by
          refine ⟨hp, ?_⟩
          show (h.sys.eng.outs p).finished = false
          simpa using hend
        have hmem := (hk.session.core.ordered.mem p).mpr hlive
        rw [SendQueue.listed, append_nil] at hmem
        have hun := connected_unsent now hf hlost hmem
        rw [← heng] at hun
        rcases hun with hun | hun
        · exact .inl hun
        · exact .inr (.inl hun)
    · have hsent : h.sentAfter (.connected ci now) t = h.sent := if_neg fun hcon => hlost hcon.2
      rw [hsent]
      refine hm.keeps (Marked h.sent p) (fun _ _ htr ho => ho.tracked htr) (fun o o' hr ho => ?_) p
        (hk.marked p hp)
      cases hr with
      | renew hpresent =>
        rw [show (!ci.sessionPresent) = false by simpa using hlost] at hpresent
        cases hpresent
      | downgrade => exact ho

theorem collect {gen upTo : ℕ} {now : Time} (hclock : h.clock ≤ now)
    (ht : Session True (h.sys.handed (collect h.sys.eng gen upTo now))) :
    ExpiringInv
      { sys := h.sys.handed (collect h.sys.eng gen upTo now)
        clock := now
        sent := h.sent ++ Sys.publishes (Program.collect h.sys.eng gen upTo now).2 } := by
  have hm := Moves.collect h.sys.eng gen upTo now
  refine ⟨ht, fun p hp => ?_, fun p hp => ?_⟩
  · have hp : p < h.sys.eng.nextOut := hm.nextOut ▸ hp
    exact hm.keeps (Sized now) (fun _ _ htr ho => ho.tracked htr) (fun o o' hs ho => ho.sends hs) p
      ((hk.sized p hp).mono hclock)
  · have hp : p < h.sys.eng.nextOut := hm.nextOut ▸ hp
    show Marked _ p ((Program.collect h.sys.eng gen upTo now).1.outs p)
    rcases hk.marked p hp with hend | hun | hexp | hsent
    · exact .inl (finished_of_moves hm (fun _ _ hs => sends_finished hs) p hend)
    · by_cases hpub : p ∈ Sys.publishes (Program.collect h.sys.eng gen upTo now).2
      · exact .inr (.inr (.inr (mem_append_right _ hpub)))
      · exact .inr (.inl (collect_unsent h.sys.eng gen upTo now hun hpub))
    · refine .inr (.inr (.inl (hm.keeps (fun o => o.expiresAt = none)
        (fun _ _ htr ho => htr.expiresAt.trans ho) (fun o o' hs ho => ?_) p hexp)))
      cases hs with
      | send => exact ho
      | shorten => exact ho
    · exact .inr (.inr (.inr (mem_append_left _ hsent)))

end

/-- INTERNAL: What comes back from the store. -/
theorem revived {e : Engine} {recs : List Record} (hrev : Revives recs e t.eng)
    (hrecalls : h.recalls recs) {q : ℕ} (hge : e.nextOut ≤ q) (hlt : q < t.eng.nextOut) :
    Sized h.clock (t.eng.outs q) ∧
      Marked (sentAgain h.sent h.sys.eng t.eng e.nextOut) q (t.eng.outs q) := by
  rcases hrev.new q hge hlt with hend | ⟨r, hr, hc, hout⟩
  · exact ⟨.inl hend, .inl hend⟩
  · obtain ⟨hid, hsent⟩ := hrecalls r hr hc
    rw [hout]
    refine ⟨.inr ⟨hid, fun hcon => (by cases hcon)⟩, ?_⟩
    by_cases hexp : r.expiresAt = none
    · exact .inr (.inr (.inl hexp))
    · obtain ⟨p, hp, hpid, hpseq⟩ := hsent hexp
      refine .inr (.inr (.inr (mem_filter.mpr ⟨?_, ?_⟩)))
      · exact List.mem_range'_1.mpr ⟨hge, by omega⟩
      · refine any_eq_true.mpr ⟨p, hp, ?_⟩
        unfold continues
        rw [hout]
        exact decide_eq_true ⟨hpid, hpseq, rfl⟩

/-- INTERNAL: **Every step keeps the packets within their time.** -/
theorem step (hk : ExpiringInv h) {h' : Expiring} {a : Event} (ha : Timely h a)
    (hstep : h.step a = some h') : ExpiringInv h' := by
  obtain ⟨u, hu, rfl⟩ := Option.map_eq_some_iff.mp hstep
  have hs := hk.session.step ha.1 hu
  have hclock : h.clock ≤ (Expiring.reading a).getD h.clock := by
    cases hr : Expiring.reading a with
    | none => exact le_refl _
    | some now => exact ha.2.1 now hr
  by_cases hconn : ∃ ci now, a = .connected ci now
  · obtain ⟨ci, now, rfl⟩ := hconn
    cases (stepped hu).2 with
    | connectedFailed _ _ hfail =>
      have hsent : h.sentAfter (.connected ci now) h.sys = h.sent := by
        refine if_neg fun hcon => ?_
        rw [hcon.1] at hfail
        cases hfail
      rw [hsent]
      exact hk.of_books hs (.refl _) hclock fun _ hq => hq
    | connected _ _ hf => exact hk.connected (by simpa using hf) hs rfl hclock
  cases flowStep hu with
  | books hbooks hm =>
    refine hk.of_books hs hm hclock fun q hq => ?_
    cases a with
    | connected ci now => exact absurd ⟨ci, now, rfl⟩ hconn
    | collect => cases hbooks
    | restart => cases hbooks
    | restore => exact mem_append_left _ hq
    | _ => exact hq
  | register hf hnext houts => exact hk.register ha hs hnext houts
  | connected hf heq => exact absurd ⟨_, _, rfl⟩ hconn
  | collect => exact hk.collect hclock hs
  | restore hloaded hrev =>
    have hnew := fun q => revived (h := h) (t := u) (q := q) hrev (ha.2.2 _ _ hloaded)
    refine ⟨hs, fun q hq => ?_, fun q hq => ?_⟩
    · by_cases hold : q < h.sys.eng.nextOut
      · show Sized h.clock (u.eng.outs q)
        rw [hrev.old hold]
        exact hk.sized q hold
      · exact (hnew q (Nat.le_of_not_lt hold) hq).1
    · by_cases hold : q < h.sys.eng.nextOut
      · show Marked (h.sent ++ _) q (u.eng.outs q)
        rw [hrev.old hold]
        exact (hk.marked q hold).mono fun x hx => mem_append_left _ hx
      · exact (hnew q (Nat.le_of_not_lt hold) hq).2.mono fun x hx => mem_append_right _ hx
  | restart hrev =>
    have hnew := fun q => revived (h := h) (t := u) (q := q) hrev ha.2.2 (Nat.zero_le q)
    exact ⟨hs, fun q hq => (hnew q hq).1, fun q hq => (hnew q hq).2⟩

end ExpiringInv

end Mqttv5.Guarantees
