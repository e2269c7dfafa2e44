import Mqttv5.Computation.Cursor
import Mqttv5.Program.Identifiers
import Mqttv5.Program.MessageExpiry

/-!
# Outbound flows

`Register`, `Withdraw`, `Adopt` and the handlers of the broker's acknowledgements
(outbound.go), with the locked helpers they share and the write queues of writes.go they
put their store writes in. Each function is the critical section of its source function;
the writes it queues run later, one step at a time (`Program.Writes`).
-/

set_option autoImplicit false

namespace Mqttv5.Program

open Model Mqttv5.Computation

/-- Change the flow at `p`. -/
def setOut (e : Engine) (p : OutPtr) (f : Out → Out) : Engine :=
  { e with outs := Function.update e.outs p (f (e.outs p)) }

/-- Append a write to the queue of the record it writes.
SOURCE: writes.go:64-76 -/
def queueLocked (e : Engine) (key : RecordKey) (owner : FlowPtr) (kind : JobKind) : Engine :=
  { e with
    queues := Function.update e.queues key
      (e.queues key ++ [{ kind := kind, owner := owner, epoch := e.epoch }])
    writesIdle := if e.writes = 0 then { no := e.writesIdle.no + 1, closes := 0 } else e.writesIdle
    writes := e.writes + 1 }

/-- Every write decided for `key` has finished.
SOURCE: writes.go:80 -/
def storedLocked (e : Engine) (key : RecordKey) : Bool := (e.queues key).isEmpty

/-- Drop the writes queued for `key` on behalf of `owner` behind the head.
SOURCE: writes.go:85-97 -/
def cancelLocked (e : Engine) (key : RecordKey) (owner : FlowPtr) : Engine :=
  match e.queues key with
  | [] => e
  | head :: rest =>
    let kept := rest.filter fun j => j.owner ≠ owner
    { e with
      queues := Function.update e.queues key (head :: kept)
      writes := e.writes - (rest.length - kept.length : ℕ) }

/-- SOURCE: engine.go:755-759 -/
def pushCtrlLocked (e : Engine) (t : PacketType) (id : PacketID) (rc : ReasonCode) (gated : Bool)
    (inn : Option InPtr) (src : Option FlowPtr) : Engine :=
  { e with ctrl := e.ctrl ++ [⟨t, id, rc, gated, inn, src⟩] }

/-- `o.next`: the flow behind `o` on the list it is on. -/
def next (e : Engine) (p : OutPtr) : Option OutPtr :=
  if p ∈ e.pub then succIn e.pub p else if p ∈ e.rel then succIn e.rel p else none

/-- SOURCE: outbound.go:477-484, 536-552 -/
def unlinkLocked (e : Engine) (p : OutPtr) : Engine :=
  { e with
    cursor := if e.cursor = some p then next e p else e.cursor
    pub := e.pub.erase p
    rel := e.rel.erase p }

/-- SOURCE: outbound.go:486-504 -/
def record (o : Out) : Record :=
  { key := outKey o.id
    seq := o.pubSeq
    qos := o.qos
    phase := o.phase
    packet := if o.phase = .completed then [] else o.packet
    expiresAt := o.expiresAt
    ref := o.ref
    pubrecSeq := if o.phase = .awaitPubcomp then o.seq else 0
    outcome := if o.phase = .completed then o.outcome else 0 }

/-- SOURCE: outbound.go:508-514 -/
def putOutLocked (e : Engine) (p : OutPtr) : Engine :=
  if e.cfg.store then queueLocked e (outKey (e.outs p).id) (.out p) (.putOut (record (e.outs p)))
  else e

/-- The stored form of a finished flow's outcome.
SOURCE: outbound.go:363-381 -/
def encodeOutcome (o : Out) : Option UInt8 :=
  match o.err with
  | none => some outcomeAccepted
  | some err =>
    if o.reason.isError then some o.reason
    else match err with
      | .sessionLost => some outcomeSessionLost
      | .messageExpired => some outcomeExpired
      | .packetTooLarge => some outcomePacketTooLarge
      | .retainNotSupported => some outcomeRetainNotSupported
      | .qosNotSupported => some outcomeQoSNotSupported
      | .canceled => none
      | .refusal _ _ => none
      | .store _ => none

/-- Store the outcome of finished `o` as a `completed` record.
SOURCE: outbound.go:350-360 -/
def completeLocked (e : Engine) (p : OutPtr) : Engine :=
  if ¬ e.cfg.store ∨ (e.outs p).phase = .completed then e
  else match encodeOutcome (e.outs p) with
    | none => e
    | some outcome =>
      putOutLocked (setOut e p fun o => { o with phase := .completed, outcome := outcome }) p

/-- Queue the write that gives the outcome to Settle and then deletes the record.
SOURCE: outbound.go:418-463 -/
def settleLocked (e : Engine) (p : OutPtr) : Engine :=
  let e := setOut e p fun o => { o with settling := true }
  let o := e.outs p
  queueLocked e (outKey o.id) (.out p) (.settle o.settle o.err o.ref)

/-- SOURCE: outbound.go:312-322 -/
def finishLocked (e : Engine) (p : OutPtr) (err : Option PubErr) : Engine :=
  let o := e.outs p
  let e := { e with out := e.out.del o.id }
  let e := setOut e p fun o => { o with finished := true, err := err, done := o.done + 1 }
  if o.ref ≠ [] then { e with refs := e.refs.del o.ref } else e

/-- Dispose of a finished flow.
SOURCE: outbound.go:331-342 -/
def retireLocked (e : Engine) (p : OutPtr) : Engine :=
  let o := e.outs p
  if o.ref ≠ [] then
    let e := { e with orphans := e.orphans.set o.ref p }
    if o.settle = none then completeLocked e p else settleLocked e p
  else if ¬ e.cfg.store ∧ o.settle = none then releaseLocked e o.id .publish
  else settleLocked e p

/-- SOURCE: outbound.go:465-475 -/
def creditLocked (e : Engine) (p : OutPtr) : Engine :=
  if (e.outs p).counted then
    let e := setOut e p fun o => { o with counted := false }
    { e with quota := e.quota + 1 }
  else e

def maxDuration : ℤ := 9223372036854775807

/-- `t.Sub(now)`: the difference as an `int64` of nanoseconds, the nearest one where it is out of
range. -/
def timeSub (t now : Time) : ℤ :=
  if maxDuration < t - now then maxDuration
  else if t - now < -maxDuration - 1 then -maxDuration - 1
  else t - now

/-- Whole seconds from `now` to `t`, rounded up, as a `uint32`. The sum before the division is an
`int64`, which wraps around for a `t` about 292 years ahead.
SOURCE: engine.go:537-540 -/
def secondsUntil (t now : Time) : ℕ :=
  (Int.tdiv (Int.bmod (timeSub t now + 1000000000 - 1) 18446744073709551616) 1000000000
    % 2 ^ 32).toNat

/-- SOURCE: outbound.go:100-120 -/
def newOut (e : Engine) (m : Message) (now : Time) : Out :=
  { id := m.id
    qos := m.qos
    phase := if m.qos = 2 then .awaitPubrec else .awaitPuback
    seq := e.nextSeq
    pubSeq := e.nextSeq
    packet := m.packet
    expiresAt := m.expiresAt
    expiry := match m.expiresAt with
      | none => 0
      | some t => secondsUntil t now
    ref := m.ref
    settle := m.settle }

/-- The first locked section of `Register`: the new flow, and its first Put queued. A failed
session refuses it and releases the identifier.
SOURCE: outbound.go:92-155 -/
def register (e : Engine) (m : Message) (now : Time) : Engine × Option OutPtr :=
  if e.failure.isSome then (releaseLocked e m.id .publish, none)
  else
    let p := e.nextOut
    let o := newOut e m now
    let e := { e with
      nextOut := p + 1
      outs := Function.update e.outs p o
      nextSeq := e.nextSeq + 1
      out := e.out.set o.id p
      refs := if o.ref ≠ [] then e.refs.set o.ref p else e.refs
      pub := e.pub ++ [p]
      cursor := if e.cursor = none then some p else e.cursor
      putErr := Function.update e.putErr p none }
    let e := if e.cfg.store then queueLocked e (outKey o.id) (.out p) (.putNew (record o)) else e
    (e, some p)

/-- What `Register` returns once its Put has run, with the epoch it started in: an error, the
flow alone, or the flow and the link.
SOURCE: outbound.go:157-172 -/
def registerReturn (e : Engine) (p : OutPtr) (epoch : ℕ) :
    Except StoreError (OutPtr × Option LinkID) :=
  match e.putErr p with
  | some err => .error err
  | none => if e.epoch ≠ epoch then .ok (p, none) else .ok (p, e.link)

/-- End flow `o` with `err`: off its list, finished, retired. The sequence the source repeats
for a withdrawn, an expired and a ruled-out flow.
SOURCE: outbound.go:183-187, engine.go:570-572, 691-693 -/
def endFlow (e : Engine) (p : OutPtr) (err : Option PubErr) : Engine :=
  retireLocked (finishLocked (unlinkLocked e p) p err) p

/-- End flow `o` on the broker's answer: as `endFlow`, and its unit of quota returned.
SOURCE: outbound.go:242-248, 275-280, 304-309 -/
def endAcked (e : Engine) (p : OutPtr) (err : Option PubErr) : Engine :=
  retireLocked (creditLocked (finishLocked (unlinkLocked e p) p err) p) p

/-- SOURCE: outbound.go:174-189 -/
def withdraw (e : Engine) (p : OutPtr) : Engine × Bool :=
  if (e.outs p).finished ∨ (e.outs p).attempted then (e, false)
  else (endFlow e p (some .canceled), true)

/-- SOURCE: outbound.go:191-218 -/
def adopt (e : Engine) (ref : Bytes) (settle : SettleFn) : Engine × Bool :=
  match e.refs.get ref with
  | some p => (setOut e p fun o => { o with settle := some settle }, true)
  | none =>
    match e.orphans.get ref with
    | none => (e, false)
    | some p =>
      let e := setOut e p fun o => { o with settle := some settle }
      if (e.outs p).settling then (setOut e p fun o => { o with adopted := true }, true)
      else (settleLocked e p, true)

/-- Set the reason of the broker's refusal, when there is one. -/
def setReason (e : Engine) (p : OutPtr) (rc : ReasonCode) (refused : Option PubErr) : Engine :=
  match refused with
  | none => e
  | some _ => setOut e p fun o => { o with reason := rc }

/-- SOURCE: outbound.go:224-245 -/
def handlePuback (e : Engine) (id : PacketID) (rc : ReasonCode) (refused : Option PubErr) :
    Engine :=
  if e.failure.isSome then e
  else match e.out.get id with
    | none => e
    | some p =>
      if (e.outs p).qos ≠ 1 ∨ ¬ (e.outs p).attempted then e
      else endAcked (setReason e p rc refused) p refused

/-- SOURCE: outbound.go:253-287 -/
def handlePubrec (e : Engine) (id : PacketID) (rc : ReasonCode) (refused : Option PubErr) :
    Engine :=
  if e.failure.isSome then e
  else match e.out.get id with
    | none => pushCtrlLocked e .PUBREL id .packetIdentifierNotFound false none none
    | some p =>
      if (e.outs p).qos ≠ 2 ∨ ¬ (e.outs p).attempted then e
      else if (e.outs p).phase = .awaitPubcomp then
        pushCtrlLocked e .PUBREL id .success true none (some (.out p))
      else if refused.isSome then endAcked (setReason e p rc refused) p refused
      else
        let e := unlinkLocked e p
        let e := setOut e p fun o => { o with phase := .awaitPubcomp, seq := e.nextSeq }
        let e := { e with nextSeq := e.nextSeq + 1, rel := e.rel ++ [p] }
        let e := pushCtrlLocked e .PUBREL id .success true none (some (.out p))
        putOutLocked e p

/-- SOURCE: outbound.go:292-310 -/
def handlePubcomp (e : Engine) (id : PacketID) : Engine :=
  if e.failure.isSome then e
  else match e.out.get id with
    | none => e
    | some p => if (e.outs p).phase ≠ .awaitPubcomp then e else endAcked e p none

end Mqttv5.Program
