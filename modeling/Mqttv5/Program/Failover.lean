import Mathlib.Tactic.Ring

/-!
# The broker list

client.go and lifecycle.go: the pointer into the broker list, and the two functions that walk
the list, `connectFirst` and one attempt of `redial`. The pointer is an atomic `uint32` that New
sets to a random value, and the list is indexed by it as an `int`, whose size depends on the
platform. What the rest of the client and the brokers do during an attempt is a `Round`.
-/

set_option autoImplicit false

namespace Mqttv5.Program

/-- The two sizes of Go's `int`. -/
inductive IntSize
  | int32 | int64
  deriving DecidableEq, Repr

def IntSize.bits : IntSize → ℕ
  | .int32 => 32
  | .int64 => 64

/-- The conversion `int(x)` of a `uint32`. -/
def IntSize.ofUint32 (w : IntSize) (x : UInt32) : ℤ := (x.toNat : ℤ).bmod (2 ^ w.bits)

inductive FailoverOrder
  | rotate | priority
  deriving DecidableEq, Repr

/-- What the walks read and write of a client.
SOURCE: client.go:43-48 -/
structure Brokers where
  order : FailoverOrder
  brokerURLs : List String
  brokerIdx : UInt32
  redirectOnce : Option String := none
  deriving DecidableEq, Repr

/-- The element of the list the pointer is at; `none` is the panic of a division by zero or of
an index out of range.
SOURCE: client.go:298-301 -/
def currentBrokerURL (w : IntSize) (c : Brokers) : Option String :=
  if c.brokerURLs.length = 0 then none
  else
    let i := (w.ofUint32 c.brokerIdx).tmod c.brokerURLs.length
    if i < 0 then none else c.brokerURLs[i.toNat]?

/-- A pending temporary redirect, once, else the current entry of the list.
SOURCE: lifecycle.go:1115-1122 -/
def nextBrokerURL (w : IntSize) (c : Brokers) : Option (Brokers × String × Bool) :=
  match c.redirectOnce with
  | some u => some ({ c with redirectOnce := none }, u, true)
  | none => (currentBrokerURL w c).map fun u => (c, u, false)

/-- A refusal that redirects, with the target its reference resolves to. -/
inductive Redirect
  | once (target : String)
  | moved (target : String)
  deriving DecidableEq, Repr

/-- The target is resolved against the current entry of the list.
SOURCE: lifecycle.go:1125-1161 -/
def redirectFrom (w : IntSize) (c : Brokers) (r : Option Redirect) : Option Brokers :=
  match r with
  | none => some c
  | some r => (currentBrokerURL w c).map fun _ =>
    match r with
    | .once target => { c with redirectOnce := some target }
    | .moved target => { c with brokerURLs := [target] }

/-- How `connectOnce` ends. -/
inductive Answer
  | connected
  | refused (err : ℕ) (redirect : Option Redirect)
  deriving DecidableEq, Repr

/-- What the walk does not decide about one of its attempts: the list a callback sets before it,
whether the callbacks before it were waited for, how the broker answers, whether the span ended
meanwhile, and whether the caller's context is done after it. -/
structure Round where
  setBrokers : Option (List String) := none
  flushed : Bool := true
  answer : Answer
  ended : Bool := false
  ctxDone : Bool := false
  deriving DecidableEq, Repr

/-- Why a walk stopped. -/
inductive PassEnd
  | connected (url : String)
  | interrupted | ended | canceled | exhausted | panicked
  deriving DecidableEq, Repr

/-- A walk so far: the brokers dialled and the errors of those that refused. -/
structure Pass where
  brokers : Brokers
  dialled : List String := []
  errs : List (String × ℕ) := []
  deriving DecidableEq, Repr

/-- The client's pointer after `Add(1)`. -/
def Brokers.advance (c : Brokers) : Brokers := { c with brokerIdx := c.brokerIdx + 1 }

/-- The loop over the attempts, which `connectFirst` and `redial` have in common; only the first
looks at its caller's context.
SOURCE: lifecycle.go:1077-1111, 807-833 -/
def passLoop (w : IntSize) (ctx : Bool) (rounds : ℕ → Round) :
    (left i : ℕ) → (fromList : Bool) → Pass → Pass × PassEnd
  | 0, _, _, p => (p, .exhausted)
  | left + 1, i, fromList, p =>
    let r := rounds i
    let c := match r.setBrokers with
      | none => p.brokers
      | some urls => { p.brokers with brokerURLs := urls }
    if 0 < i ∧ ¬ r.flushed then ({ p with brokers := c }, .interrupted)
    else
      let c := if 0 < i ∧ fromList then c.advance else c
      match nextBrokerURL w c with
      | none => ({ p with brokers := c }, .panicked)
      | some (c, url, redirected) =>
        let p := { p with brokers := c, dialled := p.dialled ++ [url] }
        match r.answer with
        | .connected => (p, .connected url)
        | .refused err redirect =>
          if r.ended then (p, .ended)
          else match redirectFrom w c redirect with
            | none => (p, .panicked)
            | some c =>
              let p := { p with brokers := c, errs := p.errs ++ [(url, err)] }
              if ctx ∧ r.ctxDone then (p, .canceled)
              else passLoop w ctx rounds left (i + 1) (!redirected) p

/-- What `connectFirst` returns: a connection, the error that ended the span, the error of the
only broker there is, or the errors of the brokers tried. -/
inductive ConnectResult
  | connected (url : String)
  | ended
  | failedOnly (err : ℕ)
  | failed (errs : List (String × ℕ))
  | panicked
  deriving DecidableEq, Repr

/-- The first connection of a span.
SOURCE: lifecycle.go:1070-1113 -/
def connectFirst (w : IntSize) (c : Brokers) (rounds : ℕ → Round) : Pass × ConnectResult :=
  let c := if c.order = .priority then { c with brokerIdx := 0 } else c
  let attempts := c.brokerURLs.length
  let r := passLoop w true rounds attempts 0 false { brokers := c }
  (r.1, match r.2 with
    | .connected url => .connected url
    | .ended => .ended
    | .panicked => .panicked
    | .interrupted => .failed r.1.errs
    | .canceled | .exhausted =>
      match attempts, r.1.errs with
      | 1, [(_, err)] => .failedOnly err
      | _, errs => .failed errs)

/-- How one attempt of `redial` ends: with a connection, with the span, or with the errors it
notes before the next attempt. -/
inductive RedialResult
  | connected (url : String)
  | stopped
  | failed (errs : List (String × ℕ))
  | panicked
  deriving DecidableEq, Repr

/-- One attempt of `redial`.
SOURCE: lifecycle.go:798-834 -/
def redialAttempt (w : IntSize) (c : Brokers) (rounds : ℕ → Round) : Pass × RedialResult :=
  let c := if c.order = .priority then { c with brokerIdx := 0 } else c.advance
  let dials := if c.order = .priority then c.brokerURLs.length else 1
  let r := passLoop w false rounds dials 0 false { brokers := c }
  (r.1, match r.2 with
    | .connected url => .connected url
    | .ended | .interrupted => .stopped
    | .panicked => .panicked
    | .canceled | .exhausted => .failed r.1.errs)

end Mqttv5.Program
