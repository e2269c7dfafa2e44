import Mqttv5.Analysis.RestoreAgain

/-!
# A store failure is a clean crash

What follows the failure of a store write, up to the `Restore` that ends it: the session does
nothing but run the writes that were queued, its flows have ended with the failure, and what
`Restore` makes of it is what it makes of a new engine.
-/

set_option autoImplicit false

namespace Mqttv5.Guarantees

open Mqttv5.Computation Model Program Interface Analysis

/-- A message is registered and stored; then the write of a new client identifier fails. -/
def failedMeta : List Event :=
  [.reserve, .take .publish, .register { id := 1, qos := 1, packet := [0x32, 0] } 0,
    .doStore (outKey 1) none false, .finish (outKey 1), .report,
    .setMeta { clientID := "a" }, .setMetaStore (some 7) false]

/-- **The store writes stay in order.** In every run the engine counts the writes that are queued or
not reported, so a drained one has none; a write is for the record of its queue and of the session
it was queued in; no PUBLISH leaves before its first Put. The writes of an outbound record belong
to one flow, which holds the identifier; until the session fails only the first of them is past
the queue, and a settle-and-delete is the last.
SOURCE: writes.go:60-183, outbound.go:418-466 -/
theorem write_queues_kept {cfg : Config} {max : ℕ} (hmax : 0 < max) {s : Sys}
    (h : Reach Sys.step (AtRest False) (· = Sys.init cfg max) s) :
    Counted s.eng s.reporting ∧ (s.eng.writes = 0 → ∀ k, s.eng.queues k = []) ∧ JobInv s.eng ∧
      ∀ id, s.eng.queues (outKey id) ≠ [] → ∃ p, (s.eng.outs p).id = id ∧
        s.eng.ids.owner id = .publish ∧ (∀ j ∈ s.eng.queues (outKey id), j.owner = .out p) ∧
        (s.eng.failure = none → SlotOf s.eng.cfg.store s.eng.epoch p (s.eng.outs p)
          (s.eng.queues (outKey id))) := by
  have hcore := (Session.run hmax (fun _ _ ha => ha) h).core
  obtain ⟨own, hown⟩ := hcore.owners
  refine ⟨hcore.counted, fun hw => (hcore.counted.idle hw).1, hcore.jobs, fun id hne => ?_⟩
  cases hid : own id with
  | none => exact absurd (hown.empty id hid) hne
  | some p => exact ⟨p, (hown.ptr id p hid).2, hown.owner id p hid, hown.jobs id p hid,
      hown.slot id p hid⟩

/-- A message whose first Put is queued. -/
theorem write_queues_kept_one : ∃ s p, execute Sys.step (Sys.init { store := true } 3)
    (failedMeta.take 3) = some s ∧ s.eng.queues (outKey 1) ≠ [] ∧ (s.eng.outs p).id = 1 := by
  obtain ⟨s, hs, hP⟩ := exists_of_execute (show (execute Sys.step (Sys.init { store := true } 3)
    (failedMeta.take 3)).any (fun s => decide (s.eng.queues (outKey 1) ≠ [])) = true by decide)
  obtain ⟨p, hp, -⟩ := (write_queues_kept (by decide)
    (reach_of_execute (.start rfl) (by decide) hs)).2.2.2 1 (of_decide_eq_true hP)
  exact ⟨s, p, hs, of_decide_eq_true hP, hp⟩

end Mqttv5.Guarantees
