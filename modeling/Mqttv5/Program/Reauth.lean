import Mathlib.Logic.Function.Basic
import Mqttv5.Model.Session

/-!
# Re-authentication

auth.go: the callers of `reauthenticate` and the read loop of one connection, which share the
slot `cs.reauth` and each call's result channel. Every access to the slot or a channel is a step
of its own; what the Authenticator, the writer's queue, contexts and the broker do comes with the
event.
-/

set_option autoImplicit false

namespace Mqttv5.Program

open Model

namespace Reauth

/-- What `reauthenticate` returns instead of nil.
SOURCE: auth.go:236-302 -/
inductive Err
  | inProgress
  | begin (err : ℕ)
  | queue (err : ℕ)
  | verification (err : ℕ)
  | ctx
  | rejected (rc : ReasonCode)
  | notConnected
  | closed
  deriving DecidableEq, Repr

/-- Where a call is: in `Begin`, before the queue, before it gives the slot back, in its select,
or returned.
SOURCE: auth.go:239-290 -/
inductive CallPC
  | beginning
  | queueing
  | releasing (err : Err)
  | waiting
  | returned (res : Option Err)
  deriving DecidableEq, Repr

/-- One call, with its channel of capacity one. An observer notes whether its AUTH 0x19 was
queued, whether an AUTH 0x00 was read after that, and how many results were sent to it. -/
structure Call where
  pc : CallPC := .beginning
  result : Option (Option Err) := none
  queued : Bool := false
  concluded : Bool := false
  delivered : ℕ := 0
  deriving DecidableEq, Repr

/-- An AUTH of the broker. -/
structure Auth where
  reason : ReasonCode
  method : Option String
  deriving DecidableEq, Repr

def reasonContinueAuthentication : ReasonCode := 0x18

/-- Where the read loop is in the handling of an AUTH: not in it, before it loads the slot,
before it continues or ends the exchange of a call, in the verification, before the hook, before
it sends a result.
SOURCE: auth.go:113-136, 319-364 -/
inductive ReaderPC
  | reading
  | read (p : Auth)
  | continuing (call : ℕ)
  | ending (call : ℕ)
  | verifying (call : ℕ)
  | firing (call : ℕ)
  | sending (call : ℕ) (res : Option Err)
  deriving DecidableEq, Repr

/-- A connection. An observer notes the calls the hook ran for, whether the AUTH just read came
while no AUTH 0x19 of a running exchange was queued, and whether one that did was let pass. -/
structure State where
  method : String
  calls : ℕ → Call := fun _ => {}
  next : ℕ := 0
  slot : Option ℕ := none
  reader : ReaderPC := .reading
  dying : Bool := false
  serverDisconnect : Option ReasonCode := none
  protocolError : Bool := false
  hooks : List ℕ := []
  stray : Bool := false
  letPass : Bool := false

inductive Event
  | call
  | begun (n : ℕ) (err : Option ℕ)
  | queue (n : ℕ) (err : Option ℕ)
  | release (n : ℕ)
  | result (n : ℕ)
  | cancel (n : ℕ)
  | down (n : ℕ)
  | close (n : ℕ)
  | read (p : Auth)
  | load
  | continued (err : Option ℕ)
  | endExchange
  | verified (err : Option ℕ)
  | fire
  | send
  | die (serverDisconnect : Option ReasonCode)
  deriving DecidableEq

def setCall (s : State) (n : ℕ) (f : Call → Call) : State :=
  { s with calls := Function.update s.calls n (f (s.calls n)) }

/-- A running exchange whose AUTH 0x19 is queued. -/
def exchanging (s : State) : Bool :=
  match s.slot with
  | none => false
  | some n => (s.calls n).queued

/-- SOURCE: auth.go:293-302 -/
def reauthDownError (s : State) : Err :=
  match s.serverDisconnect with
  | some rc => .rejected rc
  | none => .notConnected

/-- The AUTH breaks the protocol.
SOURCE: auth.go:121-130 -/
def violation (s : State) (p : Auth) : Bool :=
  s.slot = none ∨
  (p.reason ≠ .success ∧ p.reason ≠ reasonContinueAuthentication) ∨
  (p.reason = reasonContinueAuthentication ∧ p.method ≠ some s.method) ∨
  (p.reason = .success ∧ p.method ≠ none ∧ p.method ≠ some s.method)

/-- One step of a caller, of the read loop or of the connection.
SOURCE: auth.go:113-136, 233-302, 319-364 -/
def step (s : State) (e : Event) : Option State :=
  match e with
  | .call =>
    let s' := { s with next := s.next + 1 }
    if s.slot = none then some { setCall s' s.next (fun _ => {}) with slot := some s.next }
    else some (setCall s' s.next fun _ => { pc := .returned (some .inProgress) })
  | .begun n err =>
    if n < s.next ∧ (s.calls n).pc = .beginning then
      some (setCall s n fun c => { c with
        pc := match err with
          | none => .queueing
          | some e => .releasing (.begin e) })
    else none
  | .queue n err =>
    if n < s.next ∧ (s.calls n).pc = .queueing then
      match err with
      | none => some (setCall s n fun c => { c with pc := .waiting, queued := true })
      | some e => some (setCall s n fun c => { c with pc := .releasing (.queue e) })
    else none
  | .release n =>
    match (s.calls n).pc with
    | .releasing err =>
      if n < s.next then
        some { setCall s n (fun c => { c with pc := .returned (some err) }) with
          slot := if s.slot = some n then none else s.slot }
      else none
    | _ => none
  | .result n =>
    match (s.calls n).pc, (s.calls n).result with
    | .waiting, some res => some (setCall s n
      fun c => { c with pc := .returned res, result := none })
    | _, _ => none
  | .cancel n =>
    if (s.calls n).pc = .waiting then
      some (setCall s n fun c => { c with pc := .returned (some .ctx) })
    else none
  | .down n =>
    if (s.calls n).pc = .waiting ∧ s.dying then
      match (s.calls n).result with
      | some res => some (setCall s n fun c => { c with pc := .returned res, result := none })
      | none => some (setCall s n fun c => { c with pc := .returned (some (reauthDownError s)) })
    else none
  | .close n =>
    if (s.calls n).pc = .waiting then
      some (setCall s n fun c => { c with pc := .returned (some .closed) })
    else none
  | .read p =>
    if s.reader = .reading then
      some { s with
        reader := .read p
        stray := !exchanging s
        calls := fun n =>
          if (s.calls n).queued ∧ p.reason = .success then { s.calls n with concluded := true }
          else s.calls n }
    else none
  | .load =>
    match s.reader with
    | .read p =>
      if violation s p then
        some { s with reader := .reading, dying := true, protocolError := true }
      else match s.slot with
        | none => none
        | some n => some { s with
            reader := if p.reason = .success then .ending n else .continuing n
            letPass := s.letPass || s.stray }
    | _ => none
  | .continued err =>
    match s.reader with
    | .continuing _ => some { s with reader := .reading, dying := s.dying || err.isSome }
    | _ => none
  | .endExchange =>
    match s.reader with
    | .ending n => some { s with
        reader := .verifying n
        slot := if s.slot = some n then none else s.slot }
    | _ => none
  | .verified err =>
    match s.reader with
    | .verifying n => some { s with
        reader := match err with
          | none => .firing n
          | some e => .sending n (some (.verification e)) }
    | _ => none
  | .fire =>
    match s.reader with
    | .firing n => some { s with reader := .sending n none, hooks := s.hooks ++ [n] }
    | _ => none
  | .send =>
    match s.reader with
    | .sending n res =>
      -- a full channel blocks the read loop
      if (s.calls n).result = none then
        some { setCall s n (fun c =>
            { c with result := some res, delivered := c.delivered + 1 }) with
          reader := .reading
          dying := s.dying || res.isSome }
      else none
    | _ => none
  | .die sd => some { s with dying := true, serverDisconnect := sd }

end Reauth

end Mqttv5.Program
