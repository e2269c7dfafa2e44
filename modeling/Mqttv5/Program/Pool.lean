import Mathlib.Data.List.Basic

/-!
# The calls of a publisher pool

`enter`, `exit`, `drain` and `connect` of publish.go:543-604, cut at their atomic operations. The
word `calls` is its bit `poolClosing` and the count below it, which fewer than 2^62 calls never
reach. `connect` and `drain` are called by the spans of a client, one after the other
(lifecycle.go:64-89, 255-292); any number of calls run beside them.
-/

set_option autoImplicit false

namespace Mqttv5.Program

/-- Where the span is. -/
inductive Span
  | idle
  /-- In `connect`, the mark taken off. -/
  | cleared
  /-- In `drain`, its channel stored. -/
  | stored (done : ℕ)
  | waiting (done : ℕ)
  deriving DecidableEq

/-- A pool and the goroutines in it. Of the calls, `running` were admitted, `backing` were counted
and refused, `swapping` have counted themselves off and are to take the channel, and `closers`
have taken one.
SOURCE: publish.go:424-438 -/
structure Pool where
  closing : Bool := false
  count : ℕ := 0
  drained : Option ℕ := none
  running : ℕ := 0
  backing : ℕ := 0
  swapping : ℕ := 0
  closers : List ℕ := []
  closed : List ℕ := []
  nextChan : ℕ := 0
  span : Span := .idle
  /-- A `drain` has returned nil and no `connect` has begun since. -/
  returned : Bool := false
  deriving DecidableEq

inductive PoolEvent
  | enter | exit | backOut | swap | close (done : ℕ)
  | clear | storeNil | storeDone | mark | receive | ctxDone
  deriving DecidableEq

/-- The first half of `exit`: the call that leaves none in a closing pool is to take the channel.
SOURCE: publish.go:580-581 -/
def Pool.leave (p : Pool) : Pool :=
  { p with
    count := p.count - 1
    swapping := if p.closing ∧ p.count = 1 then p.swapping + 1 else p.swapping }

/-- SOURCE: publish.go:547-604 -/
def Pool.step (p : Pool) : PoolEvent → Option Pool
  | .enter => some (if p.closing then { p with count := p.count + 1, backing := p.backing + 1 }
      else { p with count := p.count + 1, running := p.running + 1 })
  | .exit => if 0 < p.running then some { p with running := p.running - 1 }.leave else none
  | .backOut => if 0 < p.backing then some { p with backing := p.backing - 1 }.leave else none
  | .swap => if 0 < p.swapping then
      some { p with swapping := p.swapping - 1, drained := none,
                    closers := p.drained.toList ++ p.closers }
    else none
  | .close c => if c ∈ p.closers then
      some { p with closers := p.closers.erase c, closed := c :: p.closed }
    else none
  | .clear => if p.span = .idle then
      some { p with closing := false, span := .cleared, returned := false }
    else none
  | .storeNil => if p.span = .cleared then some { p with drained := none, span := .idle } else none
  | .storeDone => if p.span = .idle then
      some { p with drained := some p.nextChan, nextChan := p.nextChan + 1,
                    span := .stored p.nextChan }
    else none
  | .mark => match p.span with
    | .stored c => some (if p.count = 0 then
        { p with closing := true, span := .idle, returned := true }
      else { p with closing := true, span := .waiting c })
    | _ => none
  | .receive => match p.span with
    | .waiting c => if c ∈ p.closed then some { p with span := .idle, returned := true } else none
    | _ => none
  | .ctxDone => match p.span with
    | .waiting _ => some { p with span := .idle }
    | _ => none

end Mqttv5.Program
