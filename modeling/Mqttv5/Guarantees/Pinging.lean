import Mqttv5.Computation.Transition
import Mqttv5.Program.KeepAlive

/-!
# A live connection is not declared dead

`pingLoop` queues the PINGREQ before it samples the read counter, so an answer read in between
counts as old; and it counts the ping timeout from the clock reading it decided with, however long
it then waited for room in the write queue. When no packet is read between the queueing and the
sample and no time passes before it, no packet is between `ReadPacket` and the counter at a
decision, and application code is not entered within a snapshot, a connection is given up only
when nothing was read for a ping timeout from the moment its last PINGREQ was queued.
-/

set_option autoImplicit false

namespace Mqttv5.Guarantees

open Mqttv5.Computation
open Program

variable {s t : PingState} {e : PingEvent}

/-- `pingLoop` gave the connection up before the ping timeout from the moment the last PINGREQ was
queued had passed, or after a packet had been read in it, or application code had held the read
loop since. -/
def FalselyDead (s : PingState) : Prop :=
  ∃ deadline, s.pc = .dead deadline ∧ s.dying = false ∧
    (s.clock < s.queuedAt + s.timeout ∨ (∃ t ∈ s.readSince, t ≤ s.queuedAt + s.timeout) ∨
      s.callsBefore % 2 = 1 ∨ s.appCalls ≠ s.callsBefore)

/-- The value of `appCalls` a snapshot is being taken with. -/
def snapshotApp : PingPC → Option ℕ
  | .loadNow app => some app
  | .loadWrite app _ => some app
  | .loadRead app _ _ => some app
  | .loadReads app _ _ _ => some app
  | _ => none

/-- The clock reading of the snapshot that is taken or decided with. -/
def snapshotNow : PingPC → Option ℕ
  | .loadWrite _ now => some now
  | .loadRead _ now _ => some now
  | .loadReads _ now _ _ => some now
  | .enqueue _ now => some now
  | _ => none

/-- No packet is read between the queueing of a PINGREQ and the sample of the counter; a PINGREQ is
queued at the time that was read to decide on it; no packet is read and not yet counted at a
decision; application code is not entered or left within a snapshot. -/
def Undisturbed (s : PingState) : PingEvent → Prop
  | .packet => ∀ app now, s.pc ≠ .sample app now
  | .ping => (∀ app now, s.pc = .enqueue app now → s.clock = now) ∧
      ∀ app now lastWrite lastRead, s.pc = .loadReads app now lastWrite lastRead →
        s.readPC ≠ .decoded ∧ s.readPC ≠ .stamped
  | .enter => snapshotApp s.pc = none
  | .leave => snapshotApp s.pc = none
  | _ => True

def Started (s : PingState) : Prop :=
  ∃ clock keep configured appCalls, s = .started clock keep configured appCalls

/-- The packets read and not counted. -/
def uncounted (r : ReadPC) : ℕ := if r = .decoded ∨ r = .stamped then 1 else 0

/-- What holds in every state of an undisturbed run while the connection is not dying. -/
structure Sampled (s : PingState) : Prop where
  counted : s.readBefore + s.readSince.length = s.reads + uncounted s.readPC
  reads : s.readsThen ≤ s.readBefore
  calls : s.appThen ≤ s.callsBefore ∧ s.callsBefore ≤ s.appCalls
  snapshot : ∀ app, snapshotApp s.pc = some app → app = s.appCalls
  enqueue : ∀ app now, s.pc = .enqueue app now → app ≤ s.appCalls
  sample : ∀ app now, s.pc = .sample app now →
    s.readSince = [] ∧ app ≤ s.callsBefore ∧ s.queuedAt = now
  clock : ∀ now, snapshotNow s.pc = some now → now ≤ s.clock
  sent : ∀ at_, s.pingSent = some at_ → (∀ app now, s.pc ≠ .sample app now) → s.queuedAt = at_
  dead : ∀ deadline, s.pc = .dead deadline → s.readSince = [] ∧ s.callsBefore % 2 = 0 ∧
    s.appCalls = s.callsBefore ∧ s.queuedAt + s.timeout ≤ s.clock

theorem sampled_started (h : Started s) : Sampled s := by
  obtain ⟨clock, keep, configured, appCalls, rfl⟩ := h
  constructor <;> simp [PingState.started, uncounted, snapshotApp, snapshotNow]

/-- A connection is given up only when a PINGREQ is outstanding and its deadline has passed, the
counter stands where it was sampled and application code has not run. -/
theorem decide_dead (s : PingState) (app now lastWrite lastRead deadline : ℕ)
    (h : (s.decide app now lastWrite lastRead).pc = .dead deadline) :
    s.reads = s.readsThen ∧ app = s.appThen ∧ app % 2 = 0 ∧
      ∃ at_, s.pingSent = some at_ ∧ at_ + s.timeout ≤ now := by
  unfold PingState.decide KeepAlive.decide KeepAlive.decideQuiet at h
  by_cases hheard : s.reads = s.readsThen
  · by_cases happ : app ≠ s.appThen ∨ app % 2 = 1
    · exfalso
      revert h
      simp only [hheard, happ]
      cases s.pingSent <;> simp <;> split_ifs <;> simp
    · refine ⟨hheard, by omega, by omega, ?_⟩
      revert h
      simp only [hheard, happ]
      cases s.pingSent with
      | none => simp only [Option.isSome_none]; simp; split_ifs <;> simp
      | some at_ =>
        simp
        split_ifs with hnow
        · simp
        · intro _
          omega
  · exfalso
    revert h
    simp only [ne_eq, hheard, not_false_eq_true, decide_true, and_true]
    cases s.pingSent <;> simp <;> split_ifs <;> simp

/-- A decision changes the program counter and the outstanding PINGREQ only, which it can only
forget; a PINGREQ is queued with the reading of the snapshot. -/
theorem decide_frame (s : PingState) (app now lastWrite lastRead : ℕ) :
    ∃ pingSent pc, s.decide app now lastWrite lastRead = { s with pingSent, pc } ∧
      (pingSent = none ∨ pingSent = s.pingSent) ∧ snapshotApp pc = none ∧
      (∀ app' now', pc ≠ .sample app' now') ∧
      (∀ now', snapshotNow pc = some now' → now' = now) ∧
      ∀ app' now', pc = .enqueue app' now' → app' = app := by
  refine ⟨_, _, rfl, ?_, ?_⟩
  · split
    · exact .inl rfl
    · exact .inr rfl
  · split <;> simp [snapshotApp, snapshotNow, eq_comm]

section

variable (h : Sampled s)
include h

theorem sampled_decide {app now lastWrite lastRead : ℕ}
    (hpc : s.pc = .loadReads app now lastWrite lastRead)
    (hread : s.readPC ≠ .decoded ∧ s.readPC ≠ .stamped) :
    Sampled (s.decide app now lastWrite lastRead) := by
  have happ : app = s.appCalls := h.snapshot app (by rw [hpc]; rfl)
  have hnow : now ≤ s.clock := h.clock now (by rw [hpc]; rfl)
  have hsent : ∀ at_, s.pingSent = some at_ → s.queuedAt = at_ :=
    fun at_ hat => h.sent at_ hat fun app' now' hcon => by rw [hpc] at hcon; cases hcon
  have hdead := decide_dead s app now lastWrite lastRead
  obtain ⟨pingSent, pc, heq, hping, hsnap, hsample, hclock, henq⟩ :=
    decide_frame s app now lastWrite lastRead
  rw [heq] at hdead ⊢
  refine ⟨h.counted, h.reads, h.calls, ?_, ?_, ?_, ?_, ?_, ?_⟩
  · intro app' happ'
    rw [hsnap] at happ'
    cases happ'
  · intro app' now' hpc'
    exact Nat.le_of_eq ((henq app' now' hpc').trans happ)
  · intro app' now' hpc'
    exact absurd hpc' (hsample app' now')
  · intro now' hnow'
    rw [hclock now' hnow']
    exact hnow
  · intro at_ hat _
    rcases hping with hnone | hsame
    · have hat : pingSent = some at_ := hat
      rw [hnone] at hat
      cases hat
    · exact hsent at_ (hsame ▸ hat)
  · intro deadline hpc'
    -- The counter has not moved and no packet waits for it: nothing was read since.
    obtain ⟨h1, h2, h3, at_, hat, hpast⟩ := hdead deadline hpc'
    have hcount := h.counted
    have hthen := h.reads
    have hcalls := h.calls
    have hqueued := hsent at_ hat
    have hun : uncounted s.readPC = 0 := by simp [uncounted, hread]
    refine ⟨List.length_eq_zero_iff.mp ?_, ?_, ?_, ?_⟩
    · change s.readSince.length = 0
      omega
    · change s.callsBefore % 2 = 0
      omega
    · change s.appCalls = s.callsBefore
      omega
    · change s.queuedAt + s.timeout ≤ s.clock
      omega

theorem sampled_pingStep (hlive : s.dying = false) (hok : Undisturbed s .ping)
    (hs : s.pingStep = some t) : Sampled t := by
  have hcalls := h.calls
  unfold PingState.pingStep at hs
  cases hpc : s.pc with
  | loadApp =>
    simp only [hpc, Option.some.injEq] at hs
    subst hs
    exact ⟨h.counted, h.reads, h.calls, by simp [snapshotApp], by simp, by simp,
      by simp [snapshotNow], fun at_ hat _ => h.sent at_ hat (by simp [hpc]), by simp⟩
  | loadNow app =>
    simp only [hpc, Option.some.injEq] at hs
    subst hs
    have := h.snapshot app (by rw [hpc]; rfl)
    exact ⟨h.counted, h.reads, h.calls, by simp [snapshotApp, this], by simp, by simp,
      by simp [snapshotNow], fun at_ hat _ => h.sent at_ hat (by simp [hpc]), by simp⟩
  | loadWrite app now | loadRead app now lastWrite =>
    simp only [hpc, Option.some.injEq] at hs
    subst hs
    have := h.snapshot app (by rw [hpc]; rfl)
    have hnow : now ≤ s.clock := h.clock now (by rw [hpc]; rfl)
    exact ⟨h.counted, h.reads, h.calls, by simp [snapshotApp, this], by simp, by simp,
      by simp [snapshotNow, hnow], fun at_ hat _ => h.sent at_ hat (by simp [hpc]), by simp⟩
  | loadReads app now lastWrite lastRead =>
    simp only [hpc, Option.some.injEq] at hs
    subst hs
    exact sampled_decide h hpc (hok.2 app now lastWrite lastRead hpc)
  | enqueue app now =>
    have happ := h.enqueue app now hpc
    have hat := hok.1 app now hpc
    simp only [hpc, hlive, Bool.false_eq_true, if_false, Option.some.injEq] at hs
    subst hs
    refine ⟨?_, ?_, ?_, by simp [snapshotApp], by simp, ?_, by simp [snapshotNow], ?_, by simp⟩
    · exact h.counted
    · exact Nat.le_trans h.reads (Nat.le_add_right _ _)
    · exact ⟨Nat.le_trans h.calls.1 h.calls.2, Nat.le_refl _⟩
    · intro app' now' hpc'
      cases hpc'
      exact ⟨rfl, happ, hat⟩
    · exact fun _ _ hcon => absurd rfl (hcon app now)
  | sample app now =>
    obtain ⟨hnil, happ, hqueued⟩ := h.sample app now hpc
    simp only [hpc, Option.some.injEq] at hs
    subst hs
    refine ⟨h.counted, ?_, ⟨happ, h.calls.2⟩, by simp [snapshotApp], by simp, by simp,
      by simp [snapshotNow], ?_, by simp⟩
    · -- Nothing was read since the PINGREQ was queued: what is counted was read before.
      have hcount := h.counted
      rw [hnil, List.length_nil] at hcount
      change s.reads ≤ s.readBefore
      omega
    · intro at_ hat _
      exact hqueued.trans (Option.some.inj hat)
  | waiting wake =>
    simp only [hpc, hlive, Bool.false_eq_true, if_false] at hs
    split at hs
    · cases hs
      exact ⟨h.counted, h.reads, h.calls, by simp [snapshotApp], by simp, by simp,
        by simp [snapshotNow], fun at_ hat _ => h.sent at_ hat (by simp [hpc]), by simp⟩
    · cases hs
  | dead deadline => simp [hpc] at hs
  | returned => simp [hpc] at hs

/-- Application code is entered or left outside a snapshot. -/
theorem sampled_call (hnone : snapshotApp s.pc = none) (hdead : ∀ deadline, s.pc ≠ .dead deadline) :
    Sampled { s with appCalls := s.appCalls + 1 } := by
  refine ⟨h.counted, h.reads, ⟨h.calls.1, Nat.le_trans h.calls.2 (Nat.le_succ _)⟩, ?_, ?_,
    h.sample, h.clock, h.sent, fun deadline hpc => absurd hpc (hdead deadline)⟩
  · intro app happ
    rw [hnone] at happ
    cases happ
  · intro app now hpc
    exact Nat.le_trans (h.enqueue app now hpc) (Nat.le_succ _)

theorem sampled_step (hlive : s.dying = false) (hok : Undisturbed s e)
    (hs : s.step e = some t) : Sampled t := by
  unfold PingState.step at hs
  split at hs
  · cases hs
  · next hdead =>
    cases e with
    | tick d =>
      cases hs
      exact ⟨h.counted, h.reads, h.calls, h.snapshot, h.enqueue, h.sample,
        fun now hnow => Nat.le_add_right_of_le (h.clock now hnow), h.sent,
        fun deadline hpc => absurd hpc (hdead deadline)⟩
    | written | die =>
      cases hs
      exact ⟨h.counted, h.reads, h.calls, h.snapshot, h.enqueue, h.sample, h.clock, h.sent, h.dead⟩
    | packet =>
      simp only at hs
      split at hs
      · next hr =>
        cases hs
        refine ⟨?_, h.reads, h.calls, h.snapshot, h.enqueue, ?_, h.clock, h.sent, ?_⟩
        · have := h.counted
          simp only [hr, uncounted, List.length_cons] at this ⊢
          simp at this ⊢
          omega
        · intro app now hpc
          exact absurd hpc (hok app now)
        · exact fun deadline hpc => absurd hpc (hdead deadline)
      · cases hs
    | stamp | count | dispatched =>
      simp only at hs
      split at hs
      · next hr =>
        cases hs
        refine ⟨?_, h.reads, h.calls, h.snapshot, h.enqueue, h.sample, h.clock, h.sent, h.dead⟩
        have := h.counted
        simpa [hr, uncounted] using this
      · cases hs
    | enter | leave =>
      simp only at hs
      split at hs
      · cases hs
        exact sampled_call h hok hdead
      · cases hs
    | ping => exact sampled_pingStep h hlive hok hs

end

/-- A connection that is dying stays so. -/
theorem dying_step (hs : s.step e = some t) (hd : s.dying = true) : t.dying = true := by
  unfold PingState.step PingState.pingStep PingState.decide at hs
  split at hs
  · cases hs
  · cases e <;> simp only at hs <;> (try split at hs) <;> (try split at hs) <;> cases hs <;>
      first | exact hd | rfl

theorem sampled_of_reach (h : Reach PingState.step Undisturbed Started s) :
    s.dying = true ∨ Sampled s := by
  refine Reach.invariant (fun s => s.dying = true ∨ Sampled s)
    (fun s hs => .inr (sampled_started hs)) ?_ h
  intro s e t hinv hok hs
  rcases hinv with hd | hinv
  · exact .inl (dying_step hs hd)
  · by_cases hd : s.dying = true
    · exact .inl (dying_step hs hd)
    · exact .inr (sampled_step hinv (by simpa using hd) hok hs)

/-- **A live connection is kept.** In every run whose steps are all undisturbed, a connection is
given up only once nothing was read, and no application code held the read loop, for a ping timeout
from the moment its last PINGREQ was queued.
SOURCE: conn.go:518-539, 1118-1244 -/
theorem live_connection_kept (s : PingState) (h : Reach PingState.step Undisturbed Started s) :
    ¬FalselyDead s := by
  rintro ⟨deadline, hpc, hlive, hread⟩
  rcases sampled_of_reach h with hd | hinv
  · rw [hlive] at hd
    cases hd
  · obtain ⟨hnil, heven, hcalls, hpast⟩ := hinv.dead deadline hpc
    rcases hread with hearly | ⟨t, ht, -⟩ | hodd | hne
    · omega
    · rw [hnil] at ht
      cases ht
    · omega
    · exact hne hcalls

/-- A keep-alive of 2 s and a ping timeout of 1 s: the PINGREQ is queued and written, its answer
is read and counted before the counter is sampled, and 1 s later the connection is given up. -/
def answeredEarly : List PingEvent :=
  [.tick 2000000000, .ping, .ping, .ping, .ping, .ping, .ping, .written, .packet, .stamp, .count,
    .dispatched, .ping, .ping, .ping, .ping, .ping, .ping, .tick 1000000000, .ping, .ping, .ping,
    .ping, .ping, .ping]

/-- The same times, but the write queue has no room for 1.5 s, in which packets are read: the
connection is given up in the moment the PINGREQ is queued. -/
def queuedLate : List PingEvent :=
  [.tick 2000000000, .ping, .ping, .ping, .ping, .ping, .tick 500000000, .packet, .stamp, .count,
    .dispatched, .tick 500000000, .packet, .stamp, .count, .dispatched, .tick 500000000, .packet,
    .stamp, .count, .dispatched, .ping, .ping, .ping, .ping, .ping, .ping, .ping]

/-- The same times, but the answer comes after the sample; and nothing after the next PINGREQ. -/
def answeredLater : List PingEvent :=
  [.tick 2000000000, .ping, .ping, .ping, .ping, .ping, .ping, .written, .ping, .packet, .stamp,
    .count, .dispatched, .ping, .ping, .ping, .ping, .ping, .tick 2000000000, .ping, .ping, .ping,
    .ping, .ping, .ping, .ping, .ping, .written, .ping, .ping, .ping, .ping, .ping,
    .tick 1000000000, .ping, .ping, .ping, .ping, .ping, .ping]

/-- `Undisturbed`, to be evaluated. -/
def undisturbed (s : PingState) : PingEvent → Bool
  | .packet => match s.pc with
    | .sample _ _ => false
    | _ => true
  | .ping => match s.pc with
    | .enqueue _ now => s.clock = now
    | .loadReads _ _ _ _ => s.readPC ≠ .decoded ∧ s.readPC ≠ .stamped
    | _ => true
  | .enter => (snapshotApp s.pc).isNone
  | .leave => (snapshotApp s.pc).isNone
  | _ => true

theorem undisturbed_sound (s : PingState) (e : PingEvent) (h : undisturbed s e = true) :
    Undisturbed s e := by
  cases e with
  | packet =>
    intro app now hpc
    simp [undisturbed, hpc] at h
  | ping =>
    refine ⟨fun app now hpc => ?_, fun app now lastWrite lastRead hpc => ?_⟩
    · simpa [undisturbed, hpc] using h
    · simpa [undisturbed, hpc] using h
  | enter | leave => simpa [undisturbed, Undisturbed] using h
  | _ => trivial

/-- After `answeredLater` the connection is given up, a ping timeout after its second PINGREQ. -/
theorem live_connection_kept_later :
    ∃ s, execute PingState.step (.started 0 2000000000 1000000000 0) answeredLater = some s ∧
      s.pc = .dead 5000000000 ∧ s.queuedAt = 4000000000 ∧ ¬FalselyDead s := by
  have hrun : (execute PingState.step (.started 0 2000000000 1000000000 0) answeredLater).any
      (fun s => s.pc = .dead 5000000000 ∧ s.queuedAt = 4000000000) = true := by decide
  obtain ⟨s, hs, hpc⟩ := exists_of_execute hrun
  simp only [decide_eq_true_eq] at hpc
  refine ⟨s, hs, hpc.1, hpc.2, live_connection_kept s ?_⟩
  exact Reach.of_execute undisturbed_sound (.start ⟨0, 2000000000, 1000000000, 0, rfl⟩)
    (by decide) hs

/-- Both disturbed runs end with a live connection given up. -/
theorem live_connection_given_up :
    (∃ s, execute PingState.step (.started 0 2000000000 1000000000 0) answeredEarly = some s ∧
      FalselyDead s) ∧
    ∃ s, execute PingState.step (.started 0 2000000000 1000000000 0) queuedLate = some s ∧
      s.lastRead = 3500000000 ∧ s.queuedAt = 3500000000 ∧ s.clock = 3500000000 ∧
      FalselyDead s := by
  have hrun : (execute PingState.step (.started 0 2000000000 1000000000 0) answeredEarly).any
      (fun s => s.pc = .dead 3000000000 ∧ s.dying = false ∧ s.readSince = [2000000000] ∧
        s.queuedAt = 2000000000 ∧ s.timeout = 1000000000) = true := by
    decide
  have hrun' : (execute PingState.step (.started 0 2000000000 1000000000 0) queuedLate).any
      (fun s => s.pc = .dead 3000000000 ∧ s.dying = false ∧ s.lastRead = 3500000000 ∧
        s.queuedAt = 3500000000 ∧ s.clock = 3500000000 ∧ s.timeout = 1000000000) = true := by
    decide
  refine ⟨?_, ?_⟩
  · obtain ⟨s, hs, hdead⟩ := exists_of_execute hrun
    simp only [decide_eq_true_eq] at hdead
    obtain ⟨hpc, hlive, hread, hqueued, htimeout⟩ := hdead
    exact ⟨s, hs, 3000000000, hpc, hlive,
      .inr (.inl ⟨2000000000, by simp [hread], by rw [hqueued, htimeout]; decide⟩)⟩
  · obtain ⟨s, hs, hdead⟩ := exists_of_execute hrun'
    simp only [decide_eq_true_eq] at hdead
    obtain ⟨hpc, hlive, hread, hqueued, hclock, htimeout⟩ := hdead
    exact ⟨s, hs, hread, hqueued, hclock, 3000000000, hpc, hlive,
      .inl (by rw [hqueued, hclock, htimeout]; decide)⟩

end Mqttv5.Guarantees
