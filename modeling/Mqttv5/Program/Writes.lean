import Mqttv5.Program.Connection

/-!
# Running the store writes

`run` of writes.go, cut where other goroutines can come in between. A write at the head of
its queue calls its producer's Settle, if it has one (`callSettle`, `settleReturn`), then the
store (`ranStore`), and then takes the mutex (`finishJob`): its `after`, its removal from
the queue and, when it failed, the end of the session. A second locked section counts it
as done (`reportJob`).
-/

set_option autoImplicit false

namespace Mqttv5.Program

open Model

/-- Replace the write at the head of the queue of `k` by the same write in stage `st`. -/
def setStage (e : Engine) (k : RecordKey) (st : Stage) : Engine :=
  match e.queues k with
  | [] => e
  | j :: rest => { e with queues := Function.update e.queues k ({ j with stage := st } :: rest) }

/-- The flow of a failed first Put leaves the session.
SOURCE: outbound.go:132-151 -/
def dropNew (e : Engine) (p : OutPtr) (err : ℕ) : Engine :=
  let o := e.outs p
  let e := { e with putErr := Function.update e.putErr p (some ⟨"put outbound", err⟩) }
  let e := cancelLocked e (outKey o.id) (.out p)
  let e := unlinkLocked e p
  let e := { e with out := e.out.del o.id }
  let e := if o.ref ≠ [] then
      { e with
        refs := e.refs.del o.ref
        orphans := if e.orphans.get o.ref = some p then e.orphans.del o.ref else e.orphans }
    else e
  let e := setOut e p fun o => { o with finished := true }
  releaseLocked e o.id .publish

/-- The end of a flow whose outcome is settled and whose record is gone.
SOURCE: outbound.go:457-461 -/
def giveUp (e : Engine) (p : OutPtr) : Engine :=
  let o := e.outs p
  let e := if o.ref ≠ [] ∧ e.orphans.get o.ref = some p then
      { e with orphans := e.orphans.del o.ref }
    else e
  releaseLocked e o.id .publish

/-- The `after` of `settleLocked`'s write when the store did not fail: `failed` says the
Settle did.
SOURCE: outbound.go:440-462 -/
def settleAfter (e : Engine) (p : OutPtr) (failed : Bool) : Engine :=
  let e := if failed then completeLocked e p else e
  if (e.outs p).adopted then settleLocked (setOut e p fun o => { o with adopted := false }) p
  else if failed then setOut e p fun o => { o with settle := none }
  else giveUp e p

/-- The `after` of a write: the state it leaves and the error that fails the session.
SOURCE: writes.go:129-136 -/
def afterJob (e : Engine) (j : Job) (res : Option JobErr) : Engine × Option StoreError :=
  match j.kind, j.owner, res with
  | .putNew _, .out p, some (.store err) => (dropNew e p err, none)
  | .putNew _, .out p, some (.settle err) => (dropNew e p err, none)
  | .settle _ _ _, .out p, some (.store err) =>
    (setOut e p fun o => { o with settling := false }, some ⟨j.kind.op, err⟩)
  | .settle _ _ _, .out p, some (.settle _) =>
    (settleAfter (setOut e p fun o => { o with settling := false }) p true, none)
  | .settle _ _ _, .out p, none =>
    (settleAfter (setOut e p fun o => { o with settling := false }) p false, none)
  | _, _, some (.store err) => (e, some ⟨j.kind.op, err⟩)
  | _, _, some (.settle err) => (e, some ⟨j.kind.op, err⟩)
  | _, _, none => (e, none)

/-- A flow that the failure of the session completes.
SOURCE: writes.go:214-221 -/
def failFlow (err : StoreError) (e : Engine) (p : OutPtr) : Engine :=
  let e := setOut e p fun o =>
    { o with finished := true, err := some (.store err), done := o.done + 1 }
  match (e.outs p).settle with
  | none => e
  | some f => { e with dropped := e.dropped ++ [(p, f, .store err)] }

/-- An adopter that still waits for the outcome of an orphan.
SOURCE: writes.go:222-227 -/
def failOrphan (err : StoreError) (e : Engine) (p : OutPtr) : Engine :=
  let o := e.outs p
  match o.settle with
  | none => e
  | some f =>
    if o.adopted ∨ ¬ o.settling then { e with dropped := e.dropped ++ [(p, f, .store err)] } else e

def killIn (e : Engine) (h : InPtr) : Engine := setIn e h fun i => { i with dead := true }

/-- End the session after a store write failed.
SOURCE: writes.go:200-233 -/
def failLocked (e : Engine) (err : StoreError) : Engine :=
  if e.failure.isSome then e
  else
    let e := { e with failure := some err, epoch := e.epoch + 1 }
    let e := clearIn (e.inn.vals.foldl killIn e)
    let (e, flows) := drainFlowsLocked e
    let e := flows.foldl (failFlow err) e
    let e := e.orphans.vals.foldl (failOrphan err) e
    { e with out := ∅, refs := ∅, orphans := ∅, cursor := none }

/-- Take the write at the head of the queue of `k` off it.
SOURCE: writes.go:138-147 -/
def popJob (e : Engine) (k : RecordKey) : Engine :=
  { e with queues := Function.update e.queues k (e.queues k).tail }

/-- The first locked section of `run` for a write whose `do` has returned.
SOURCE: writes.go:128-158 -/
def finishJob (e : Engine) (k : RecordKey) (j : Job) (res : Option JobErr) : Engine :=
  let r := if j.epoch = e.epoch then afterJob e j res else (e, none)
  let e := popJob r.1 k
  match r.2 with
  | none => e
  | some err => failLocked e err

/-- The second locked section of `run`.
SOURCE: writes.go:165-170 -/
def reportJob (e : Engine) : Engine :=
  let writes := e.writes - 1
  { e with
    writes := writes
    writesIdle := if writes = 0 then { e.writesIdle with closes := e.writesIdle.closes + 1 }
      else e.writesIdle }

end Mqttv5.Program
