import Mqttv5.Computation.Transition
import Mqttv5.Program.Reauth

/-!
# What a re-authentication reports

In every run each call gets at most one result, so the read loop never waits to send one. A call
takes the slot before its AUTH 0x19 is queued, and the read loop goes by the slot: what a call
reports is what the broker concluded only in runs where no AUTH is read, or being looked at,
while a call is between the two.
-/

set_option autoImplicit false

namespace Mqttv5.Guarantees

open Mqttv5.Computation Model Program Program.Reauth

variable {s t : State} {e : Event} {pc : ReaderPC}

/-! ### The steps of a caller -/

/-- What a caller's own step does to its call. -/
structure CallerMove (c c' : Call) : Prop where
  delivered : c'.delivered = c.delivered
  concluded : c'.concluded = c.concluded
  queued : c.queued = true → c'.queued = true
  result : c'.result = c.result ∨ c'.result = none
  success : c'.pc = .returned none → c.pc = .returned none ∨ c.result = some none

theorem CallerMove.refl (c : Call) : CallerMove c c := ⟨rfl, rfl, fun h => h, .inl rfl, .inl⟩

/-- What it does to the connection. -/
structure CallerStep (s t : State) : Prop where
  calls : ∀ n, CallerMove (s.calls n) (t.calls n)
  slot : t.slot = s.slot ∨ t.slot = none
  rest : t = { s with calls := t.calls, slot := t.slot }

def isCaller : Event → Bool
  | .begun _ _ | .queue _ _ | .release _ | .result _ | .cancel _ | .down _ | .close _ => true
  | _ => false

theorem calls_setCall (s : State) (n m : ℕ) (f : Call → Call) :
    (setCall s n f).calls m = if m = n then f (s.calls n) else s.calls m := by
  by_cases h : m = n
  · subst h
    simp [setCall]
  · simp [setCall, h]

theorem CallerStep.of_setCall (s : State) (n : ℕ) (f : Call → Call)
    (hf : CallerMove (s.calls n) (f (s.calls n))) : CallerStep s (setCall s n f) := by
  refine ⟨fun m => ?_, .inl rfl, rfl⟩
  rw [calls_setCall]
  split
  · rename_i h
    subst h
    exact hf
  · exact .refl _

/-- INTERNAL: The steps of the callers, after they took the slot. -/
theorem callerStep (he : isCaller e = true) (h : step s e = some t) : CallerStep s t := by
  unfold step at h
  cases e with
  | begun n err =>
    obtain ⟨-, ⟨⟩⟩ := Option.ite_none_right_eq_some.mp h
    refine .of_setCall s n _ ⟨rfl, rfl, fun h => h, .inl rfl, fun h => ?_⟩
    cases err <;> cases h
  | queue n err =>
    simp only at h
    split at h
    · cases err with
      | none =>
        cases h
        refine .of_setCall s n _ ⟨rfl, rfl, fun _ => rfl, .inl rfl, fun h => ?_⟩
        cases h
      | some e =>
        cases h
        refine .of_setCall s n _ ⟨rfl, rfl, fun h => h, .inl rfl, fun h => ?_⟩
        cases h
    · cases h
  | release n =>
    simp only at h
    split at h
    · split at h
      · cases h
        rename_i err hpc _
        have hset := CallerStep.of_setCall s n (fun c => { c with pc := .returned (some err) })
          ⟨rfl, rfl, fun h => h, .inl rfl, nofun⟩
        refine ⟨hset.calls, ?_, rfl⟩
        show (if s.slot = some n then none else s.slot) = s.slot ∨ _
        split
        · exact .inr rfl
        · exact .inl rfl
      · cases h
    · cases h
  | result n =>
    simp only at h
    split at h
    · rename_i res _ hres
      cases h
      refine .of_setCall s n _ ⟨rfl, rfl, fun h => h, .inr rfl, fun h => .inr ?_⟩
      cases h
      exact hres
    · cases h
  | cancel n | close n =>
    obtain ⟨-, ⟨⟩⟩ := Option.ite_none_right_eq_some.mp h
    exact .of_setCall s n _ ⟨rfl, rfl, fun h => h, .inl rfl, nofun⟩
  | down n =>
    simp only at h
    split at h
    · split at h
      · rename_i res hres
        cases h
        refine .of_setCall s n _ ⟨rfl, rfl, fun h => h, .inr rfl, fun h => .inr ?_⟩
        cases h
        exact hres
      · cases h
        exact .of_setCall s n _ ⟨rfl, rfl, fun h => h, .inl rfl, nofun⟩
    · cases h
  | _ => cases he

/-! ### One result for each call -/

/-- The call whose exchange the read loop is about to end, or has ended. -/
def concluding : ReaderPC → Option ℕ
  | .ending n => some n
  | .verifying n => some n
  | .firing n => some n
  | .sending n _ => some n
  | _ => none

/-- The read loop has taken the call out of the slot. -/
def cleared : ReaderPC → Option ℕ
  | .verifying n => some n
  | .firing n => some n
  | .sending n _ => some n
  | _ => none

/-- The call the read loop is about to report a success to. -/
def succeeding : ReaderPC → Option ℕ
  | .ending n => some n
  | .verifying n => some n
  | .firing n => some n
  | .sending n none => some n
  | _ => none

theorem concluding_of_succeeding {n : ℕ} (h : succeeding pc = some n) : concluding pc = some n := by
  cases pc with
  | sending m res =>
    cases res with
    | none => exact h
    | some err => cases h
  | reading => cases h
  | read p => cases h
  | continuing m => cases h
  | _ => exact h

/-- What the read loop does between the AUTH it has read and the result it sends. -/
structure ReaderStep (s t : State) : Prop where
  rest : t = { s with
    reader := t.reader
    slot := t.slot
    hooks := t.hooks
    dying := t.dying
    protocolError := t.protocolError
    letPass := t.letPass }
  slot : t.slot = s.slot ∨ t.slot = none
  past : ∀ p, t.reader ≠ .read p
  concluding : ∀ n, concluding t.reader = some n → concluding s.reader = some n ∨ s.slot = some n
  cleared : ∀ n, cleared t.reader = some n →
    cleared s.reader = some n ∧ t.slot = s.slot ∨ t.slot ≠ some n
  success : ∀ n, succeeding t.reader = some n → succeeding s.reader = some n ∨
    ∃ p, s.reader = .read p ∧ p.reason = .success ∧ s.slot = some n
  hooks : ∀ n ∈ t.hooks, n ∈ s.hooks ∨ succeeding s.reader = some n
  passed : t.letPass = s.letPass ∨
    ∃ p n, s.reader = .read p ∧ s.slot = some n ∧ t.letPass = (s.letPass || s.stray)

def isReader : Event → Bool
  | .load | .continued _ | .endExchange | .verified _ | .fire => true
  | _ => false

/-- INTERNAL: The steps of the read loop. -/
theorem readerStep (he : isReader e = true) (h : step s e = some t) : ReaderStep s t := by
  unfold step at h
  cases e with
  | load =>
    simp only at h
    split at h
    · rename_i p hp
      split at h
      · cases h
        exact ⟨rfl, .inl rfl, fun _ hn => (by cases hn), fun _ hn => (by cases hn),
          fun _ hn => (by cases hn), fun _ hn => (by cases hn), fun _ hn => .inl hn, .inl rfl⟩
      · split at h
        · cases h
        · rename_i n hn
          cases h
          refine ⟨rfl, .inl rfl, fun _ hcon => ?_, fun m hm => ?_, fun m hm => ?_, fun m hm => ?_,
            fun _ hm => .inl hm, .inr ⟨p, n, hp, hn, rfl⟩⟩
          · split at hcon <;> cases hcon
          · split at hm
            · cases hm
              exact .inr hn
            · cases hm
          · split at hm <;> cases hm
          · split at hm
            · rename_i hsucc
              cases hm
              exact .inr ⟨p, hp, hsucc, hn⟩
            · cases hm
    · cases h
  | continued err =>
    simp only at h
    split at h
    · cases h
      exact ⟨rfl, .inl rfl, fun _ hn => (by cases hn), fun _ hn => (by cases hn),
        fun _ hn => (by cases hn), fun _ hn => (by cases hn), fun _ hn => .inl hn, .inl rfl⟩
    · cases h
  | endExchange =>
    simp only at h
    split at h
    · rename_i n hn
      cases h
      refine ⟨rfl, ?_, fun _ hcon => (by cases hcon), fun m hm => .inl (by rw [hn]; exact hm),
        fun m hm => .inr ?_, fun m hm => .inl (by rw [hn]; exact hm), fun _ hm => .inl hm, .inl rfl⟩
      · show (if s.slot = some n then none else s.slot) = s.slot ∨ _
        split
        · exact .inr rfl
        · exact .inl rfl
      · cases hm
        show (if s.slot = some n then none else s.slot) ≠ some n
        split
        · simp
        · assumption
    · cases h
  | verified err =>
    simp only at h
    split at h
    · rename_i n hn
      cases h
      refine ⟨rfl, .inl rfl, fun _ hcon => ?_, fun m hm => .inl ?_, fun m hm => .inl ⟨?_, rfl⟩,
        fun m hm => .inl ?_, fun _ hm => .inl hm, .inl rfl⟩
      · cases err <;> cases hcon
      all_goals rw [hn]
      · cases err <;> exact hm
      · cases err <;> exact hm
      · cases err with
        | none => exact hm
        | some e => cases hm
    · cases h
  | fire =>
    simp only at h
    split at h
    · rename_i n hn
      cases h
      refine ⟨rfl, .inl rfl, fun _ hcon => (by cases hcon), fun m hm => .inl (by rw [hn]; exact hm),
        fun m hm => .inl ⟨by rw [hn]; exact hm, rfl⟩, fun m hm => .inl (by rw [hn]; exact hm),
        fun m hm => ?_, .inl rfl⟩
      rcases List.mem_append.mp hm with hm | hm
      · exact .inl hm
      · rw [List.mem_singleton.mp hm, hn]
        exact .inr rfl
    · cases h
  | _ => cases he

structure Once (s : State) : Prop where
  once : ∀ n, (s.calls n).delivered ≤ 1
  empty : ∀ n, (s.calls n).delivered = 0 → (s.calls n).result = none
  slot : ∀ n, s.slot = some n → n < s.next ∧ (s.calls n).delivered = 0
  reader : ∀ n, concluding s.reader = some n → n < s.next ∧ (s.calls n).delivered = 0
  out : ∀ n, cleared s.reader = some n → s.slot ≠ some n
  hooks : ∀ n ∈ s.hooks, n < s.next

theorem Once.callerStep (h : Once s) (hc : CallerStep s t) : Once t := by
  obtain ⟨hcalls, hslot, hrest⟩ := hc
  rw [hrest]
  refine ⟨fun n => ?_, fun n hn => ?_, fun n hn => ?_, fun n hn => ?_, fun n hn => ?_, h.hooks⟩
  · rw [(hcalls n).delivered]
    exact h.once n
  · rcases (hcalls n).result with hr | hr
    · rw [hr]
      rw [(hcalls n).delivered] at hn
      exact h.empty n hn
    · exact hr
  · rcases hslot with hs | hs
    · rw [hs] at hn
      rw [(hcalls n).delivered]
      exact h.slot n hn
    · rw [hs] at hn
      cases hn
  · rw [(hcalls n).delivered]
    exact h.reader n hn
  · rcases hslot with hs | hs
    · rw [hs]
      exact h.out n hn
    · rw [hs]
      nofun

theorem concluding_of_cleared {n : ℕ} (h : cleared pc = some n) : concluding pc = some n := by
  cases pc <;> first | exact h | cases h

theorem Once.readerStep (h : Once s) (hr : ReaderStep s t) : Once t := by
  rw [hr.rest]
  refine ⟨h.once, h.empty, fun n hn => ?_, fun n hn => ?_, fun n hn => ?_, fun n hn => ?_⟩
  · rcases hr.slot with hs | hs
    · exact h.slot n (hs ▸ hn)
    · cases hs.symm.trans hn
  · exact (hr.concluding n hn).elim (h.reader n) (h.slot n)
  · rcases hr.cleared n hn with ⟨hc, hs⟩ | hs
    · exact hs ▸ h.out n hc
    · exact hs
  · rcases hr.hooks n hn with hn | hn
    · exact h.hooks n hn
    · exact (h.reader n (concluding_of_succeeding hn)).1

/-- INTERNAL: A new call has a number no one has. -/
theorem Once.call (h : Once s) (c : Call) (hd : c.delivered = 0) (hr : c.result = none)
    (slot : Option ℕ) (hslot : slot = s.slot ∨ slot = some s.next) :
    Once { setCall { s with next := s.next + 1 } s.next (fun _ => c) with slot := slot } := by
  have hold : ∀ n, n < s.next ∧ (s.calls n).delivered = 0 → n < s.next + 1 ∧
      ((setCall { s with next := s.next + 1 } s.next fun _ => c).calls n).delivered = 0 := by
    intro n hn
    rw [calls_setCall, if_neg hn.1.ne]
    exact ⟨Nat.lt_succ_of_lt hn.1, hn.2⟩
  refine ⟨fun n => ?_, fun n hn => ?_, fun n hn => ?_, fun n hn => hold n (h.reader n hn),
    fun n hn hcon => ?_, fun n hn => Nat.lt_succ_of_lt (h.hooks n hn)⟩
  · simp only [calls_setCall]
    split
    · rw [hd]
      exact Nat.zero_le 1
    · exact h.once n
  · simp only [calls_setCall] at hn ⊢
    split at hn
    · rename_i hnew
      rw [if_pos hnew, hr]
    · rename_i hold
      rw [if_neg hold]
      exact h.empty n hn
  · rcases hslot with hs | hs
    · exact hold n (h.slot n (hs ▸ hn))
    · obtain rfl := Option.some.inj (hs.symm.trans hn)
      refine ⟨Nat.lt_succ_self _, ?_⟩
      simp only [calls_setCall, if_pos, hd]
  · rcases hslot with hs | hs
    · exact h.out n hn (hs ▸ hcon)
    · obtain rfl := Option.some.inj (hs.symm.trans hcon)
      exact Nat.lt_irrefl _ (h.reader _ (concluding_of_cleared hn)).1

theorem concluded_delivered (s : State) (p : Auth) (n : ℕ) :
    (if (s.calls n).queued ∧ p.reason = .success then { s.calls n with concluded := true }
      else s.calls n).delivered = (s.calls n).delivered ∧
    (if (s.calls n).queued ∧ p.reason = .success then { s.calls n with concluded := true }
      else s.calls n).result = (s.calls n).result := by
  split <;> exact ⟨rfl, rfl⟩

theorem Once.step (h : Once s) (hstep : Reauth.step s e = some t) : Once t := by
  by_cases he : isCaller e = true
  · exact h.callerStep (Guarantees.callerStep he hstep)
  by_cases hr : isReader e = true
  · exact h.readerStep (Guarantees.readerStep hr hstep)
  unfold Reauth.step at hstep
  cases e with
  | call =>
    simp only at hstep
    split at hstep
    · cases hstep
      exact h.call {} rfl rfl _ (.inr rfl)
    · cases hstep
      exact h.call { pc := .returned (some .inProgress) } rfl rfl _ (.inl rfl)
  | read p =>
    obtain ⟨-, ⟨⟩⟩ := Option.ite_none_right_eq_some.mp hstep
    refine ⟨fun n => ?_, fun n hn => ?_, fun n hn => ?_, fun n hn => (by cases hn),
      fun n hn => (by cases hn), h.hooks⟩
    · rw [(concluded_delivered s p n).1]
      exact h.once n
    · rw [(concluded_delivered s p n).2]
      exact h.empty n ((concluded_delivered s p n).1 ▸ hn)
    · rw [(concluded_delivered s p n).1]
      exact h.slot n hn
  | send =>
    simp only at hstep
    split at hstep
    · rename_i n res hn
      obtain ⟨-, ⟨⟩⟩ := Option.ite_none_right_eq_some.mp hstep
      have hzero := (h.reader n (by rw [hn]; rfl)).2
      have hout := h.out n (by rw [hn]; rfl)
      refine ⟨fun m => ?_, fun m hm => ?_, fun m hm => ?_, fun m hm => (by cases hm),
        fun m hm => (by cases hm), h.hooks⟩
      · simp only [calls_setCall]
        split
        · show (s.calls n).delivered + 1 ≤ 1
          omega
        · exact h.once m
      · simp only [calls_setCall] at hm ⊢
        split at hm
        · exact absurd hm (Nat.succ_ne_zero _)
        · rename_i hmn
          rw [if_neg hmn]
          exact h.empty m hm
      · have hmn : m ≠ n := fun hcon => hout (hcon ▸ hm)
        refine ⟨(h.slot m hm).1, ?_⟩
        simp only [calls_setCall, if_neg hmn]
        exact (h.slot m hm).2
    · cases hstep
  | die sd =>
    cases hstep
    exact ⟨h.once, h.empty, h.slot, h.reader, h.out, h.hooks⟩
  | load | continued | endExchange | verified | fire => exact absurd rfl hr
  | _ => exact absurd rfl he

/-! ### What a call reports -/

/-- No AUTH is read while a call is between taking the slot and queueing its AUTH 0x19, and no
call takes the slot while an AUTH has been read and not looked at. -/
def Exclusive (s : State) : Event → Prop
  | .read _ => ∀ n, s.slot = some n → (s.calls n).queued = true
  | .call => ∀ p, s.reader ≠ .read p
  | _ => True

structure Sound (s : State) : Prop where
  read : ∀ p, s.reader = .read p → ∀ n, s.slot = some n → (s.calls n).queued = true ∧
    (p.reason = .success → (s.calls n).concluded = true) ∧ s.stray = false
  reader : ∀ n, succeeding s.reader = some n → (s.calls n).concluded = true
  buffered : ∀ n, (s.calls n).result = some none → (s.calls n).concluded = true
  returned : ∀ n, (s.calls n).pc = .returned none → (s.calls n).concluded = true
  hooks : ∀ n ∈ s.hooks, (s.calls n).concluded = true
  passed : s.letPass = false

theorem Sound.callerStep (h : Sound s) (hc : CallerStep s t) : Sound t := by
  obtain ⟨hcalls, hslot, hrest⟩ := hc
  rw [hrest]
  refine ⟨fun p hp n hn => ?_, fun n hn => ?_, fun n hn => ?_, fun n hn => ?_, fun n hn => ?_,
    h.passed⟩
  · rcases hslot with hs | hs
    · rw [hs] at hn
      obtain ⟨hq, hconc, hstray⟩ := h.read p hp n hn
      exact ⟨(hcalls n).queued hq, fun hsucc => (hcalls n).concluded.trans (hconc hsucc), hstray⟩
    · rw [hs] at hn
      cases hn
  · exact (hcalls n).concluded.trans (h.reader n hn)
  · rcases (hcalls n).result with hr | hr
    · exact (hcalls n).concluded.trans (h.buffered n (hr ▸ hn))
    · rw [hr] at hn
      cases hn
  · refine (hcalls n).concluded.trans ?_
    rcases (hcalls n).success hn with hp | hb
    · exact h.returned n hp
    · exact h.buffered n hb
  · exact (hcalls n).concluded.trans (h.hooks n hn)

theorem Sound.readerStep (h : Sound s) (hr : ReaderStep s t) : Sound t := by
  rw [hr.rest]
  refine ⟨fun p hp => absurd hp (hr.past p), fun n hn => ?_, h.buffered, h.returned,
    fun n hn => (hr.hooks n hn).elim (h.hooks n) (h.reader n), ?_⟩
  · rcases hr.success n hn with hn | ⟨p, hp, hsucc, hslot⟩
    · exact h.reader n hn
    · exact (h.read p hp n hslot).2.1 hsucc
  · rcases hr.passed with hp | ⟨p, n, hp, hslot, heq⟩
    · exact hp.trans h.passed
    · show t.letPass = false
      rw [heq, h.passed, (h.read p hp n hslot).2.2]
      rfl

theorem concluded_mono (s : State) (p : Auth) (n : ℕ) (h : (s.calls n).concluded = true) :
    (if (s.calls n).queued ∧ p.reason = .success then { s.calls n with concluded := true }
      else s.calls n).concluded = true := by
  split
  · rfl
  · exact h

theorem concluded_other (s : State) (p : Auth) (n : ℕ) :
    (if (s.calls n).queued ∧ p.reason = .success then { s.calls n with concluded := true }
      else s.calls n).pc = (s.calls n).pc ∧
    (if (s.calls n).queued ∧ p.reason = .success then { s.calls n with concluded := true }
      else s.calls n).queued = (s.calls n).queued := by
  split <;> exact ⟨rfl, rfl⟩

/-- INTERNAL: A new call has reported nothing yet. -/
theorem Sound.call (h : Sound s) (honce : Once s) (hreader : ∀ p, s.reader ≠ .read p) (c : Call)
    (hc : c.pc ≠ .returned none) (hr : c.result = none) (slot : Option ℕ) :
    Sound { setCall { s with next := s.next + 1 } s.next (fun _ => c) with slot := slot } := by
  refine ⟨fun p hp => absurd hp (hreader p), fun n hn => ?_, fun n hn => ?_, fun n hn => ?_,
    fun n hn => ?_, h.passed⟩
  · have hlt := (honce.reader n (concluding_of_succeeding hn)).1
    simp only [calls_setCall, if_neg hlt.ne]
    exact h.reader n hn
  · simp only [calls_setCall] at hn ⊢
    split at hn
    · rw [hr] at hn
      cases hn
    · rename_i hold
      rw [if_neg hold]
      exact h.buffered n hn
  · simp only [calls_setCall] at hn ⊢
    split at hn
    · exact absurd hn hc
    · rename_i hold
      rw [if_neg hold]
      exact h.returned n hn
  · simp only [calls_setCall, if_neg (honce.hooks n hn).ne]
    exact h.hooks n hn

theorem Sound.step (h : Sound s) (honce : Once s) (ha : Exclusive s e)
    (hstep : Reauth.step s e = some t) : Sound t := by
  by_cases he : isCaller e = true
  · exact h.callerStep (Guarantees.callerStep he hstep)
  by_cases hr : isReader e = true
  · exact h.readerStep (Guarantees.readerStep hr hstep)
  unfold Reauth.step at hstep
  cases e with
  | call =>
    simp only at hstep
    split at hstep
    · cases hstep
      exact h.call honce ha {} nofun rfl _
    · cases hstep
      exact h.call honce ha { pc := .returned (some .inProgress) } nofun rfl _
  | read p =>
    obtain ⟨-, ⟨⟩⟩ := Option.ite_none_right_eq_some.mp hstep
    refine ⟨fun p' hp' n hn => ?_, fun n hn => (by cases hn), fun n hn => ?_, fun n hn => ?_,
      fun n hn => ?_, h.passed⟩
    · obtain rfl := ReaderPC.read.inj hp'
      have hq := ha n hn
      refine ⟨?_, fun hsucc => ?_, ?_⟩
      · rw [(concluded_other s p n).2]
        exact hq
      · simp only [hq, hsucc, and_self, if_true]
      · have hslot : s.slot = some n := hn
        simp only [exchanging, hslot, hq, Bool.not_true]
    · rw [(concluded_delivered s p n).2] at hn
      exact concluded_mono s p n (h.buffered n hn)
    · rw [(concluded_other s p n).1] at hn
      exact concluded_mono s p n (h.returned n hn)
    · exact concluded_mono s p n (h.hooks n hn)
  | send =>
    simp only at hstep
    split at hstep
    · rename_i n res hn
      obtain ⟨-, ⟨⟩⟩ := Option.ite_none_right_eq_some.mp hstep
      refine ⟨fun _ hcon => (by cases hcon), fun m hm => (by cases hm), fun m hm => ?_,
        fun m hm => ?_, fun m hm => ?_, h.passed⟩
      · simp only [calls_setCall] at hm ⊢
        by_cases hmn : m = n
        · simp only [if_pos hmn] at hm ⊢
          exact h.reader n (by rw [hn, Option.some.inj hm]; rfl)
        · simp only [if_neg hmn] at hm ⊢
          exact h.buffered m hm
      · simp only [calls_setCall] at hm ⊢
        by_cases hmn : m = n
        · simp only [if_pos hmn] at hm ⊢
          exact h.returned n hm
        · simp only [if_neg hmn] at hm ⊢
          exact h.returned m hm
      · simp only [calls_setCall]
        split
        · rename_i hmn
          exact hmn ▸ h.hooks m hm
        · exact h.hooks m hm
    · cases hstep
  | die sd =>
    cases hstep
    exact ⟨h.read, h.reader, h.buffered, h.returned, h.hooks, h.passed⟩
  | load | continued | endExchange | verified | fire => exact absurd rfl hr
  | _ => exact absurd rfl he

/-- INTERNAL: A stray AUTH finds the slot empty, so its look at the slot ends the connection. -/
theorem Sound.load_stray (h : Sound s) {p : Auth} (hp : s.reader = .read p)
    (hstray : s.stray = true) : Reauth.step s .load =
      some { s with reader := .reading, dying := true, protocolError := true } := by
  have hslot : s.slot = none := by
    cases hn : s.slot with
    | none => rfl
    | some n =>
      rw [(h.read p hp n hn).2.2] at hstray
      cases hstray
  have hviolation : violation s p = true := decide_eq_true (.inl hslot)
  simp only [Reauth.step, hp, hviolation, if_true]

theorem once_start (method : String) : Once { method := method } := by
  refine ⟨fun _ => Nat.zero_le 1, fun _ _ => rfl, fun n hn => ?_, fun n hn => ?_, fun n hn => ?_,
    fun n hn => ?_⟩
  · cases hn
  · cases hn
  · cases hn
  · cases hn

theorem sound_start (method : String) : Sound { method := method } := by
  refine ⟨fun p hp => ?_, fun n hn => ?_, fun n hn => ?_, fun n hn => ?_, fun n hn => ?_, rfl⟩
  · cases hp
  · cases hn
  · cases hn
  · cases hn
  · cases hn

/-- **Reauthenticate reports what the broker concluded.** In every run each call is sent at most
one result, and the read loop can always send the result it has. In every run that keeps the
callers' windows free of the broker's AUTHs (`Exclusive`), a call returns nil, and the hook runs,
only if an AUTH 0x00 was read after the call's AUTH 0x19 was queued; and an AUTH that is read
while no AUTH 0x19 of a running exchange is queued ends the connection as a protocol error when
the read loop looks at it, with no result and no hook; none gets past that check. -/
theorem reauthenticate_reports_broker (method : String) {s : State}
    (h : Reach Reauth.step (fun _ _ => True) (· = { method := method }) s) :
    (∀ n, (s.calls n).delivered ≤ 1) ∧
    (∀ n res, s.reader = .sending n res → (Reauth.step s .send).isSome = true) ∧
    (Reach Reauth.step Exclusive (· = { method := method }) s →
      (∀ n, (s.calls n).pc = .returned none → (s.calls n).concluded = true) ∧
      (∀ n ∈ s.hooks, (s.calls n).concluded = true) ∧ s.letPass = false ∧
      ∀ p, s.reader = .read p → s.stray = true → Reauth.step s .load =
        some { s with reader := .reading, dying := true, protocolError := true }) := by
  have honce : Once s := by
    refine h.invariant Once ?_ fun _ _ _ hs _ hstep => hs.step hstep
    rintro _ rfl
    exact once_start method
  refine ⟨honce.once, fun n res hr => ?_, fun hex => ?_⟩
  · have hempty := honce.empty n (honce.reader n (by rw [hr]; rfl)).2
    simp only [Reauth.step, hr, hempty, if_true, Option.isSome_some]
  · have hboth : Once s ∧ Sound s := by
      refine hex.invariant (fun s => Once s ∧ Sound s) ?_ fun _ _ _ hs ha hstep =>
        ⟨hs.1.step hstep, hs.2.step hs.1 ha hstep⟩
      rintro _ rfl
      exact ⟨once_start method, sound_start method⟩
    refine ⟨hboth.2.returned, hboth.2.hooks, hboth.2.passed, fun p hp hstray => ?_⟩
    exact hboth.2.load_stray hp hstray

/-- An exchange as it should be. -/
def exchange : List Event :=
  [.call, .begun 0 none, .queue 0 none, .read ⟨0x18, some "m"⟩, .load, .continued none,
    .read ⟨0x00, some "m"⟩, .load, .endExchange, .verified none, .fire, .send, .result 0]

/-- The decidable form of `Exclusive`. -/
def exclusive (s : State) : Event → Bool
  | .read _ => match s.slot with
    | none => true
    | some n => (s.calls n).queued
  | .call => match s.reader with
    | .read _ => false
    | _ => true
  | _ => true

theorem exclusive_of_check (s : State) (e : Event) (h : exclusive s e = true) : Exclusive s e := by
  cases e with
  | read p =>
    intro n hn
    simpa only [exclusive, hn] using h
  | call =>
    intro p hp
    simp only [exclusive, hp] at h
    cases h
  | _ => trivial

/-- The call of `exchange` returns nil, and the broker concluded it; a further AUTH ends the
connection as a protocol error. -/
theorem exchange_reports_broker :
    ∃ s t, execute Reauth.step { method := "m" } (exchange ++ [.read ⟨0x00, none⟩]) = some s ∧
      (s.calls 0).pc = .returned none ∧ s.hooks = [0] ∧ (s.calls 0).concluded = true ∧
      Reauth.step s .load = some t ∧ t.dying = true ∧ t.protocolError = true := by
  have hrun : (execute Reauth.step { method := "m" } (exchange ++ [.read ⟨0x00, none⟩])).any
      (fun s => (s.calls 0).pc = .returned none ∧ s.hooks = [0] ∧
        s.reader = .read ⟨0x00, none⟩ ∧ s.stray = true) = true := by decide
  obtain ⟨s, hs, hP⟩ := exists_of_execute hrun
  simp only [decide_eq_true_eq] at hP
  have hex : Reach Reauth.step Exclusive (· = { method := "m" }) s :=
    Reach.of_execute exclusive_of_check (.start rfl) (by decide) hs
  have hany : Reach Reauth.step (fun _ _ => True) (· = { method := "m" }) s :=
    hex.mono (fun _ _ _ => trivial) fun _ h => h
  obtain ⟨hnil, -, -, hload⟩ := (reauthenticate_reports_broker "m" hany).2.2 hex
  exact ⟨s, _, hs, hP.1, hP.2.1, hnil 0 hP.1, hload _ hP.2.2.1 hP.2.2.2, rfl, rfl⟩

/-- The broker sends AUTH 0x00 while the call still resolves its credentials. -/
def earlySuccess : List Event :=
  [.call, .read ⟨0x00, none⟩, .load, .endExchange, .verified none, .fire, .send, .begun 0 none,
    .queue 0 none, .result 0]

/-- The call of `earlySuccess` returns nil, and the hook has run, before its AUTH 0x19 is
answered; the AUTH of the broker did not end the connection. -/
theorem early_success_reported :
    ((execute Reauth.step { method := "m" } earlySuccess).any fun s =>
      (s.calls 0).pc = .returned none ∧ s.hooks = [0] ∧ (s.calls 0).concluded = false ∧
        s.letPass = true ∧ s.protocolError = false ∧ s.dying = false) = true := by
  decide

end Mqttv5.Guarantees
