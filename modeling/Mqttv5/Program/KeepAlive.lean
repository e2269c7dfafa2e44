import Mathlib.Data.Nat.Notation

/-!
# The keep-alive

conn.go: `pingLoop` of one connection among the writer goroutine, the read loop and the clock.
Every load and store of a variable the goroutines share is a step of its own. Times are
nanoseconds.
-/

set_option autoImplicit false

namespace Mqttv5.Program

/-- SOURCE: conn.go:1119-1132 -/
structure KeepAlive where
  now : ℕ
  lastWrite : ℕ
  lastRead : ℕ
  pingSent : Option ℕ
  heard : Bool
  appRan : Bool
  keep : ℕ
  timeout : ℕ

/-- What to do now: send a PINGREQ, end the connection, or wait. -/
inductive KeepAliveDecision
  | send
  | dead (deadline : ℕ)
  | wait (duration : ℕ)
  deriving DecidableEq

/-- What follows when no PINGREQ is outstanding.
SOURCE: conn.go:1159-1168 -/
def KeepAlive.decideQuiet (k : KeepAlive) : KeepAliveDecision :=
  let quiet := if k.lastRead < k.lastWrite then k.lastRead else k.lastWrite
  let due := quiet + k.keep
  if k.now < due then .wait (due - k.now) else .send

/-- SOURCE: conn.go:1150-1170 -/
def KeepAlive.decide (k : KeepAlive) : KeepAliveDecision :=
  match k.pingSent with
  | none => k.decideQuiet
  | some sent =>
    if k.heard then k.decideQuiet
    else
      let deadline := sent + k.timeout
      if k.now < deadline then .wait (deadline - k.now)
      else if k.appRan then .send else .dead deadline

/-- SOURCE: conn.go:1174-1179 -/
def effectivePingTimeout (configured keep : ℕ) : ℕ :=
  if keep ≤ configured then keep / 2 else configured

/-- Where `pingLoop` is: before the load or store it makes next, with what it has loaded.
SOURCE: conn.go:1198-1243 -/
inductive PingPC
  | loadApp
  | loadNow (app : ℕ)
  | loadWrite (app now : ℕ)
  | loadRead (app now lastWrite : ℕ)
  | loadReads (app now lastWrite lastRead : ℕ)
  | enqueue (app now : ℕ)
  | sample (app now : ℕ)
  | waiting (wake : ℕ)
  | dead (deadline : ℕ)
  | returned
  deriving DecidableEq

/-- Where the read loop is: in `ReadPacket`, before its two stores, or in `dispatch`.
SOURCE: conn.go:521-539 -/
inductive ReadPC
  | reading | decoded | stamped | dispatching
  deriving DecidableEq

/-- One connection. The last four fields are what an observer notes: when the last PINGREQ was
queued, how many packets were read and how many times application code was entered or left before
that, and when packets were read since. -/
structure PingState where
  clock : ℕ
  keep : ℕ
  timeout : ℕ
  lastWrite : ℕ
  lastRead : ℕ
  reads : ℕ
  appCalls : ℕ
  dying : Bool
  readPC : ReadPC
  pc : PingPC
  pingSent : Option ℕ
  readsThen : ℕ
  appThen : ℕ
  queuedAt : ℕ
  readBefore : ℕ
  callsBefore : ℕ
  readSince : List ℕ
  deriving DecidableEq

inductive PingEvent
  | tick (d : ℕ)
  | written
  | packet
  | stamp
  | count
  | enter
  | leave
  | dispatched
  | die
  | ping
  deriving DecidableEq

/-- The end of a round of `pingLoop`, with the snapshot complete.
SOURCE: conn.go:1200-1235 -/
def PingState.decide (s : PingState) (app now lastWrite lastRead : ℕ) : PingState :=
  let heard : Bool := s.reads ≠ s.readsThen
  let pingSent := if s.pingSent.isSome ∧ heard then none else s.pingSent
  let k : KeepAlive :=
    { now, lastWrite, lastRead, pingSent, heard,
      appRan := app ≠ s.appThen ∨ app % 2 = 1, keep := s.keep, timeout := s.timeout }
  { s with
    pingSent
    pc := match k.decide with
      | .send => .enqueue app now
      | .dead deadline => .dead deadline
      | .wait d => .waiting (now + d) }

/-- The next step of `pingLoop`. A connection that is dying takes no PINGREQ, and `pingLoop` goes
on as if it had. A timer fires no earlier than the wait after the time the snapshot has.
SOURCE: conn.go:1180-1244 -/
def PingState.pingStep (s : PingState) : Option PingState :=
  match s.pc with
  | .loadApp => some { s with pc := .loadNow s.appCalls }
  | .loadNow app => some { s with pc := .loadWrite app s.clock }
  | .loadWrite app now => some { s with pc := .loadRead app now s.lastWrite }
  | .loadRead app now lastWrite => some { s with pc := .loadReads app now lastWrite s.lastRead }
  | .loadReads app now lastWrite lastRead => some (s.decide app now lastWrite lastRead)
  | .enqueue app now =>
    if s.dying then some { s with pc := .sample app now }
    else some { s with
      pc := .sample app now
      queuedAt := s.clock
      readBefore := s.readBefore + s.readSince.length
      readSince := []
      callsBefore := s.appCalls }
  | .sample app now =>
    some { s with pingSent := some now, readsThen := s.reads, appThen := app, pc := .loadApp }
  | .waiting wake =>
    if s.dying then some { s with pc := .returned }
    else if wake ≤ s.clock then some { s with pc := .loadApp } else none
  | .dead _ => none
  | .returned => none

/-- One step of any of the goroutines; nothing is observed after `pingLoop` has given up. -/
def PingState.step (s : PingState) (e : PingEvent) : Option PingState :=
  match s.pc with
  | .dead _ => none
  | _ => match e with
    | .tick d => some { s with clock := s.clock + d }
    | .written => some { s with lastWrite := s.clock }
    | .packet =>
      if s.readPC = .reading then
        some { s with readPC := .decoded, readSince := s.clock :: s.readSince }
      else none
    | .stamp =>
      if s.readPC = .decoded then some { s with readPC := .stamped, lastRead := s.clock } else none
    | .count =>
      if s.readPC = .stamped then some { s with readPC := .dispatching, reads := s.reads + 1 }
      else none
    | .enter =>
      if s.readPC = .dispatching ∧ s.appCalls % 2 = 0 then
        some { s with appCalls := s.appCalls + 1 }
      else none
    | .leave =>
      if s.readPC = .dispatching ∧ s.appCalls % 2 = 1 then
        some { s with appCalls := s.appCalls + 1 }
      else none
    | .dispatched =>
      if s.readPC = .dispatching ∧ s.appCalls % 2 = 0 then some { s with readPC := .reading }
      else none
    | .die => some { s with dying := true }
    | .ping => s.pingStep

/-- A connection whose goroutines have just started. -/
def PingState.started (clock keep configured appCalls : ℕ) : PingState where
  clock := clock
  keep := keep
  timeout := effectivePingTimeout configured keep
  lastWrite := clock
  lastRead := clock
  reads := 0
  appCalls := appCalls
  dying := false
  readPC := .reading
  pc := .loadApp
  pingSent := none
  readsThen := 0
  appThen := 0
  queuedAt := clock
  readBefore := 0
  callsBefore := appCalls
  readSince := []

end Mqttv5.Program
