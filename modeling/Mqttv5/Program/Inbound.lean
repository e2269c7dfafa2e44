import Mqttv5.Program.Outbound

/-!
# Inbound flows

`Receive`, `Ack` and `HandlePubrel` (inbound.go): the inbound QoS 1/2 messages in arrival
order, and the acknowledgements they owe the broker.
-/

set_option autoImplicit false

namespace Mqttv5.Program

open Model

/-- Change the inbound flow at `h`. -/
def setIn (e : Engine) (h : InPtr) (f : In → In) : Engine :=
  { e with ins := Function.update e.ins h (f (e.ins h)) }

/-- What `Receive` returns: the message for the application, nothing to do, or
`ErrReceiveMaximumExceeded`. -/
inductive Received
  | deliver (h : InPtr) | ignored | exceeded
  deriving DecidableEq, Repr

/-- The client's limit is reached by the flows registered. -/
def receiveLimited (e : Engine) : Bool :=
  0 < e.cfg.receiveMaximum ∧ e.cfg.receiveMaximum ≤ e.inn.len

/-- SOURCE: inbound.go:37-59 -/
def receive (e : Engine) (id : PacketID) (qos : ℕ) : Engine × Received :=
  if e.failure.isSome then (e, .ignored)
  else match e.inn.get id with
    | some x =>
      if (e.ins x).state = .awaitPubrel ∧ qos = 2 then
        (pushCtrlLocked e .PUBREC id .success true none (some (.inn x)), .ignored)
      else (e, .ignored)
    | none =>
      if receiveLimited e then (e, .exceeded)
      else
        let h := e.nextIn
        ({ e with
            nextIn := h + 1
            ins := Function.update e.ins h { id := id, qos := qos }
            inn := e.inn.set id h
            fifo := e.fifo ++ [h] }, .deliver h)

/-- The record of an inbound flow that waits for its PUBREL.
SOURCE: inbound.go:100-102 -/
def inRecord (id : PacketID) : Record := { key := inKey id, qos := 2, phase := .awaitPubrel }

/-- One round of the loop of `ack`: queue the PUBACK or PUBREC of the head of the arrival order.
SOURCE: inbound.go:89-106 -/
def ackHead (e : Engine) (h : InPtr) : Engine :=
  let id := (e.ins h).id
  if (e.ins h).qos = 1 then pushCtrlLocked e .PUBACK id .success false (some h) (some (.inn h))
  else
    let e := setIn e h fun x => { x with state := .awaitPubrel }
    let e := pushCtrlLocked e .PUBREC id .success true none (some (.inn h))
    if e.cfg.store then queueLocked e (inKey id) (.inn h) (.putIn (inRecord id)) else e

/-- The loop of `ack` over the arrival order, which loses the flows it has acknowledged.
SOURCE: inbound.go:87-114 -/
def ackLoop : List InPtr → Engine → Engine
  | [], e => { e with fifo := [] }
  | h :: rest, e =>
    if (e.ins h).state = .acked then ackLoop rest (ackHead e h) else { e with fifo := h :: rest }

/-- The application is done with `h`. A dead flow, or one acked before, is left alone.
SOURCE: inbound.go:76-121 -/
def ack (e : Engine) (h : InPtr) : Engine :=
  if (e.ins h).dead ∨ (e.ins h).state ≠ .delivered then e
  else
    let e := setIn e h fun x => { x with state := .acked }
    ackLoop e.fifo e

/-- SOURCE: inbound.go:124-149 -/
def handlePubrel (e : Engine) (id : PacketID) : Engine :=
  if e.failure.isSome then e
  else match e.inn.get id with
    | none => pushCtrlLocked e .PUBCOMP id .packetIdentifierNotFound false none none
    | some h =>
      if (e.ins h).state = .released then e
      else if (e.ins h).state ≠ .awaitPubrel then
        pushCtrlLocked e .PUBCOMP id .packetIdentifierNotFound false none none
      else
        let e := setIn e h fun x => { x with state := .released }
        let e := pushCtrlLocked e .PUBCOMP id .success true (some h) (some (.inn h))
        if e.cfg.store then queueLocked e (inKey id) (.inn h) .deleteIn else e

end Mqttv5.Program
