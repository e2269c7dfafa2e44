import Mqttv5.Program.Writes

/-!
# Restore and Discard

The locked sections of `Restore`, `SetMeta` and `Discard` (engine.go:268-398, 596-646). What
they do with the store around these sections is a step of its own in `Model.Run`.
-/

set_option autoImplicit false

namespace Mqttv5.Program

open Model

/-- The outcome a `completed` record holds, as the error its producer gets: `none` for a value
this version does not know.
SOURCE: outbound.go:383-413 -/
def decodeOutcomeLocked (outcome : UInt8) (qos : ℕ) : Option (Option PubErr) :=
  if outcome = outcomeAccepted then some none
  else if ReasonCode.isError outcome then
    some (some (.refusal (if qos = 2 then .PUBREC else .PUBACK) outcome))
  else if outcome = outcomeSessionLost then some (some .sessionLost)
  else if outcome = outcomeExpired then some (some .messageExpired)
  else if outcome = outcomePacketTooLarge then some (some .packetTooLarge)
  else if outcome = outcomeRetainNotSupported then some (some .retainNotSupported)
  else if outcome = outcomeQoSNotSupported then some (some .qosNotSupported)
  else none

/-- An ended flow whose producer has yet to record the outcome.
SOURCE: engine.go:306-310 -/
def restoredOrphan (r : Record) (err : Option PubErr) : Out :=
  { id := r.key.packetID
    qos := r.qos
    phase := r.phase
    seq := r.seq
    pubSeq := r.seq
    expiresAt := r.expiresAt
    ref := r.ref
    outcome := r.outcome
    reason := if ReasonCode.isError r.outcome then r.outcome else 0
    finished := true
    done := 1
    err := err }

/-- A flow to continue.
SOURCE: engine.go:325-336 -/
def restoredOut (r : Record) : Out :=
  { id := r.key.packetID
    qos := r.qos
    phase := r.phase
    seq := if r.phase = .awaitPubcomp then r.pubrecSeq else r.seq
    pubSeq := r.seq
    packet := r.packet
    expiresAt := r.expiresAt
    ref := r.ref
    attempted := true }

/-- Allocate a flow in the heap. -/
def allocOut (e : Engine) (o : Out) : Engine :=
  { e with nextOut := e.nextOut + 1, outs := Function.update e.outs e.nextOut o }

/-- One record of `Restore`; `rel` collects the flows waiting for their PUBCOMP. A record that
cannot be restored is skipped.
SOURCE: engine.go:297-344 -/
def restoreRecord (st : Engine × List OutPtr) (r : Record) : Engine × List OutPtr :=
  let e := st.1
  if ¬ r.phase.valid r.key.dir ∨ (r.qos ≠ 1 ∧ r.qos ≠ 2) then st
  else match r.key.dir with
    | .outbound =>
      let p := e.nextOut
      if r.phase = .completed then
        match decodeOutcomeLocked r.outcome r.qos with
        | none => st
        | some err =>
          if r.ref = [] then st
          else match claim e.ids r.key.packetID .publish with
            | none => st
            | some ids =>
              let e := allocOut { e with ids := ids } (restoredOrphan r err)
              ({ e with
                  orphans := e.orphans.set r.ref p
                  nextSeq := max e.nextSeq (r.seq + 1) }, st.2)
      else if r.packet = [] then st
      else match claim e.ids r.key.packetID .publish with
        | none => st
        | some ids =>
          let e := allocOut { e with ids := ids } (restoredOut r)
          let e := { e with
            out := e.out.set r.key.packetID p
            refs := if r.ref ≠ [] then e.refs.set r.ref p else e.refs
            nextSeq := max e.nextSeq (max (r.seq + 1) (r.pubrecSeq + 1)) }
          if r.phase = .awaitPubcomp then (e, st.2 ++ [p])
          else ({ e with pub := e.pub ++ [p] }, st.2)
    | .inbound =>
      let h := e.nextIn
      ({ e with
          nextIn := h + 1
          ins := Function.update e.ins h
            { id := r.key.packetID, qos := 2, state := .awaitPubrel }
          inn := e.inn.set r.key.packetID h }, st.2)

/-- The locked section of `Restore`: `none` is the error over a live session.
SOURCE: engine.go:287-351 -/
def restoreLocked (e : Engine) (m : Meta) (recs : List Record) : Option Engine :=
  if 0 < e.out.len ∨ 0 < e.inn.len then none
  else
    let e := { e with
      failure := none
      ids := newIDTable e.ids.max
      orphans := ∅
      metaData := m }
    let st := recs.foldl restoreRecord (e, [])
    let rel := st.2.insertionSort fun a b => (st.1.outs a).seq ≤ (st.1.outs b).seq
    some { st.1 with rel := st.1.rel ++ rel }

/-- The error `SetMeta` fails the session with.
SOURCE: engine.go:390-397 -/
def setMetaError (err : ℕ) : StoreError := ⟨"set meta", err⟩

/-- One outbound flow `Discard` completes, and the Settle it will call.
SOURCE: engine.go:622-628 -/
def discardFlow (st : Engine × List (OutPtr × SettleFn)) (p : OutPtr) :
    Engine × List (OutPtr × SettleFn) :=
  let e := finishLocked st.1 p (some .sessionLost)
  let e := releaseLocked e (e.outs p).id .publish
  (e, st.2 ++ ((e.outs p).settle.map fun f => (p, f)).toList)

/-- One orphan `Discard` drops.
SOURCE: engine.go:629-635 -/
def discardOrphan (st : Engine × List (OutPtr × SettleFn)) (x : Bytes × OutPtr) :
    Engine × List (OutPtr × SettleFn) :=
  let e := releaseLocked st.1 (st.1.outs x.2).id .publish
  let e := { e with orphans := e.orphans.del x.1 }
  (e, st.2 ++ ((e.outs x.2).settle.map fun f => (x.2, f)).toList)

/-- The locked section of `Discard`, with the Settles it calls once the mutex is released.
SOURCE: engine.go:612-638 -/
def discardLocked (e : Engine) : Engine × List (OutPtr × SettleFn) :=
  let e := clearIn (e.inn.vals.foldl killIn e)
  let (e, flows) := drainFlowsLocked e
  let st := flows.foldl discardFlow (e, [])
  let st := st.1.orphans.toList.foldl discardOrphan st
  ({ st.1 with cursor := none, metaData := {} }, st.2)

end Mqttv5.Program
