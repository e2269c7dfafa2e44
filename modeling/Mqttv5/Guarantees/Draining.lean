import Mqttv5.Computation.Transition
import Mqttv5.Program.Pool

/-!
# A drained pool has no call in it

`exit` is two steps, and a call may count itself off in one span and take the channel of the next.
What holds of every interleaving is `Kept`; what a `drain` that returns nil is for is `Settled`,
and it needs that no `connect` begins while a call is between the two steps.
-/

set_option autoImplicit false

namespace Mqttv5.Guarantees.Draining

open Mqttv5.Computation Program List

variable {p q : Pool} {a : PoolEvent}

/-- The span has stored the channel `c` and not left `drain`. -/
def Awaits (p : Pool) (c : ℕ) : Prop := p.span = .stored c ∨ p.span = .waiting c

/-- The channels that were taken. -/
def taken (p : Pool) : List ℕ := p.closers ++ p.closed

structure Kept (p : Pool) : Prop where
  count : p.count = p.running + p.backing
  once : (taken p).Nodup
  made : ∀ c ∈ taken p, c < p.nextChan
  held : ∀ c, p.drained = some c → c < p.nextChan ∧ c ∉ taken p
  own : ∀ c, Awaits p c → c ∈ taken p ∨ p.drained = some c
  wait : ∀ c, p.span = .waiting c →
    p.closing = true ∧ (c ∈ taken p ∨ 0 < p.count ∨ 0 < p.swapping)

/-- No admitted call is left once the channel of a `drain` was taken. -/
structure Settled (p : Pool) : Prop where
  last : 0 < p.swapping → p.closing = true ∧ p.running = 0
  own : ∀ c, Awaits p c → c ∈ taken p → p.closing = true ∧ p.running = 0
  returned : p.returned = true → p.closing = true ∧ p.running = 0

/-- A channel is closed by the call that took it. -/
theorem perm_close {c : ℕ} (hc : c ∈ p.closers) :
    (p.closers.erase c ++ c :: p.closed).Perm (taken p) :=
  perm_middle.trans ((perm_cons_erase hc).symm.append_right _)

/-- INTERNAL: **One step**, of any call or of the span. -/
theorem Kept.step (h : Kept p) (hs : p.step a = some q) : Kept q := by
  obtain ⟨hcount, honce, hmade, hheld, hown, hwait⟩ := h
  cases a <;> simp only [Pool.step, Option.ite_none_right_eq_some, Option.some.injEq] at hs
  case enter =>
    -- The call is counted, as running or, in a closing pool, as one that backs out.
    subst hs
    split <;> constructor <;> grind [taken, Awaits]
  case exit | backOut =>
    -- The last call of a closing pool is to take the channel the span waits for.
    obtain ⟨hpos, rfl⟩ := hs
    constructor <;> grind [Pool.leave, taken, Awaits]
  case swap =>
    -- The channel goes to the call that takes it, whichever span stored it.
    obtain ⟨-, rfl⟩ := hs
    constructor <;> grind [taken, Awaits]
  case close c =>
    obtain ⟨hc, rfl⟩ := hs
    have hmem : ∀ d, d ∈ p.closers.erase c ++ c :: p.closed ↔ d ∈ taken p :=
      fun _ => (perm_close hc).mem_iff
    refine ⟨hcount, (perm_close hc).nodup_iff.mpr honce, ?_, ?_, ?_, ?_⟩ <;> grind [taken, Awaits]
  case clear | storeNil | storeDone =>
    -- A new channel was never taken; a cleared one is no span's any more.
    obtain ⟨-, rfl⟩ := hs
    constructor <;> grind [taken, Awaits]
  case mark | ctxDone =>
    -- A span that waits has marked the pool, and found calls in it or taken the channel back.
    split at hs
    · cases hs
      constructor <;> grind [taken, Awaits]
    · cases hs
  case receive =>
    -- The span is over: it awaits no channel.
    split at hs
    · obtain ⟨-, ⟨⟩⟩ := Option.ite_none_right_eq_some.mp hs
      constructor <;> grind [taken, Awaits]
    · cases hs

/-- No `connect` begins while a call is between the two steps of its `exit`. -/
def Apart (p : Pool) (a : PoolEvent) : Prop := a = .clear → p.swapping = 0

/-- INTERNAL: A new call is admitted to an open pool only, and of that nothing was taken. -/
theorem Settled.step (hp : Settled p) (h : Kept p) (ha : Apart p a) (hs : p.step a = some q) :
    Settled q := by
  obtain ⟨hlast, hown, hret⟩ := hp
  obtain ⟨hcount, -, hmade, -, -, -⟩ := h
  cases a <;> simp only [Pool.step, Option.ite_none_right_eq_some, Option.some.injEq] at hs
  case enter =>
    subst hs
    split <;> constructor <;> grind [taken, Awaits]
  case exit | backOut =>
    obtain ⟨hpos, rfl⟩ := hs
    constructor <;> grind [Pool.leave, taken, Awaits]
  case swap =>
    obtain ⟨hpos, rfl⟩ := hs
    exact ⟨fun _ => hlast hpos, fun _ _ _ => hlast hpos, hret⟩
  case close c =>
    obtain ⟨hc, rfl⟩ := hs
    exact ⟨hlast, fun d hd hmem => hown d hd ((perm_close hc).mem_iff.mp hmem), hret⟩
  case clear =>
    obtain ⟨-, rfl⟩ := hs
    constructor <;> grind [Apart, Awaits]
  case storeNil | storeDone =>
    obtain ⟨-, rfl⟩ := hs
    constructor <;> grind [taken, Awaits]
  case mark | ctxDone =>
    split at hs
    · cases hs
      constructor <;> grind [taken, Awaits]
    · cases hs
  case receive =>
    split at hs
    · rename_i c hc
      obtain ⟨hclosed, ⟨⟩⟩ := Option.ite_none_right_eq_some.mp hs
      have hquiet := hown c (.inr hc) (mem_append_right _ hclosed)
      constructor <;> grind [Awaits]
    · cases hs

theorem init : Kept {} ∧ Settled {} := by
  constructor <;> constructor <;> grind [taken, Awaits]

/-- A call counts itself off in one span and takes the channel of the next. -/
def lateExit : List PoolEvent :=
  [.enter, .storeDone, .mark, .exit, .ctxDone, .clear, .storeNil, .enter, .storeDone, .mark, .swap,
    .close 1, .receive]

/-- **A drained pool has no call in it.** In every interleaving of calls with the `connect`s and
`drain`s of the spans, each channel is closed at most once, and a `drain` that still waits when
every call has returned can return. In those where no `connect` begins while a call is between the
two steps of its `exit`, from the moment a `drain` has returned nil to the next `connect` no
admitted call is running; without that, one may be.
SOURCE: publish.go:543-604 -/
theorem drained_pool_is_empty :
    (∀ p, Reach Pool.step (fun _ _ => True) (· = {}) p → p.closed.Nodup ∧
      ∀ c, p.span = .waiting c → p.count = 0 → p.swapping = 0 → p.closers = [] →
        (p.step .receive).isSome) ∧
    (∀ p, Reach Pool.step Apart (· = {}) p → p.returned = true → p.running = 0) ∧
    ∃ p, Reach Pool.step (fun _ _ => True) (· = {}) p ∧ p.returned = true ∧ p.running ≠ 0 := by
  refine ⟨fun p h => ?_, fun p h hret => ?_, ?_⟩
  · have hk := h.invariant Kept (by rintro _ rfl; exact init.1) fun _ _ _ hk _ hs => hk.step hs
    refine ⟨(nodup_append.mp hk.once).2.1, fun c hc hcount hswap hclosers => ?_⟩
    rcases (hk.wait c hc).2 with hmem | hpos | hpos
    · rw [taken, hclosers, nil_append] at hmem
      simp [Pool.step, hc, hmem]
    · omega
    · omega
  · have hs := h.invariant (fun p => Kept p ∧ Settled p) (by rintro _ rfl; exact init)
      fun _ _ _ hp ha hs => ⟨hp.1.step hs, hp.2.step hp.1 ha hs⟩
    exact (hs.2.returned hret).2
  · obtain ⟨p, hp, hP⟩ := exists_of_execute (show (execute Pool.step {} lateExit).any
      (fun p => decide (p.returned = true ∧ p.running ≠ 0)) = true by decide)
    have hfree : meets Pool.step (fun _ _ => true) {} lateExit = true := by decide
    exact ⟨p, .of_execute (fun _ _ _ => trivial) (.start rfl) hfree hp, of_decide_eq_true hP⟩

/-- A call that a `drain` waits for, and the `connect` after it, which begins when the call has
returned. -/
def drainOne : List PoolEvent :=
  [.enter, .storeDone, .mark, .exit, .swap, .close 0, .receive, .clear, .storeNil]

example : meets Pool.step (fun p a => decide (a = .clear → p.swapping = 0)) {} drainOne = true ∧
    (execute Pool.step {} (drainOne.take 7)).any
      (fun p => p.returned = true ∧ p.running = 0 ∧ p.closed = [0]) = true := by
  decide

end Mqttv5.Guarantees.Draining
