import Mqttv5.Analysis.Credit

/-!
# The client's Receive Maximum

Against a broker that keeps to its send quota, `Receive` finds the client's Receive Maximum
exceeded only over what earlier connections left: the broker starts a resumed connection with
all of its quota, while the flows that still wait for their PUBREL stay registered, and a PUBREL
sent again for an exchange the client has forgotten earns the broker a quota it never spent.
-/

set_option autoImplicit false

namespace Mqttv5.Guarantees

open Mqttv5.Computation Model Program Analysis

/-- **Receive Maximum.** While no exchange of an earlier connection is left when a session is
resumed, with either side, no PUBLISH of a broker that keeps to its quota exceeds the client's
Receive Maximum.
SOURCE: inbound.go:30-60, engine.go:425-485, conn.go:648-662 -/
theorem receive_maximum_kept {cfg : Config} {max : ℕ} (hmax : 0 < max) {w : Wire}
    (h : Reach Wire.step Unencumbered (· = Wire.init cfg max) w) {id : PacketID} {qos : ℕ}
    {rest : List BrokerPacket} (hdown : w.down = .publish id qos :: rest) :
    (receive w.sys.eng id qos).2 ≠ .exceeded := by
  have hw := Within.run hmax h
  have hbound : w.sys.eng.gen ≠ 0 := fun hz => by
    have hnil := hw.quiet hz
    rw [hdown] at hnil
    cases hnil
  unfold receive
  split
  · simp
  · rename_i hf
    have hsum := hw.sum hbound (by simpa using hf)
    rw [hdown, List.countP_cons_of_pos (by rfl)] at hsum
    split
    · split <;> simp
    · split
      · -- At the limit the account would be above the maximum by the PUBLISH that arrives.
        rename_i hlimited
        simp only [receiveLimited, Bool.decide_and, Bool.and_eq_true, decide_eq_true_eq]
          at hlimited
        obtain ⟨hpos, hle⟩ := hlimited
        rw [Wire.maximum, if_neg (Nat.ne_of_gt hpos)] at hsum
        omega
      · simp

/-- Moves without a resumed session, a `Restore` or a `Discard`, whose PUBRELs find their flow. -/
def plainMove (w : Wire) : Move → Bool
  | .client (.connected ci _) => !ci.sessionPresent
  | .client .restore | .client .discardLocked => false
  | .arrive =>
    match w.down with
    | .pubrel id :: _ =>
      (w.sys.eng.inn.get id).any fun h =>
        (w.sys.eng.ins h).state = .awaitPubrel ∨ (w.sys.eng.ins h).state = .released
    | _ => true
  | _ => true

/-- INTERNAL: They leave no exchange to a later connection. -/
theorem unencumbered_of_plainMove {w : Wire} {m : Move} (h : plainMove w m = true) :
    Unencumbered w m := by
  cases m with
  | client a =>
    cases a with
    | connected ci now =>
      intro hpresent
      simp [plainMove, hpresent] at h
    | restore | discardLocked => simp [plainMove] at h
    | _ => trivial
  | arrive =>
    intro id rest _ hdown
    simp only [plainMove, hdown] at h
    cases hget : w.sys.eng.inn.get id with
    | none =>
      rw [hget] at h
      cases h
    | some x =>
      rw [hget] at h
      exact ⟨x, rfl, by simpa using h⟩
  | _ => trivial

/-- A QoS 2 message is received, acked and its PUBREC answered by a PUBREL, which arrives; a
second message follows once the PUBCOMP of the first has reached the broker. -/
def exchangeOne : List Move :=
  [.client (.connected { sessionPresent := false, receiveMaximum := 0, link := 1 } 0),
    .sendPublish 1 2, .arrive, .client (.ack 0), .client (.collectControl 1), .hear,
    .sendPubrel 1, .arrive, .client (.collectControl 1), .hear, .sendPublish 2 1]

/-- With a Receive Maximum of 1, the second message of `exchangeOne` is within it. -/
theorem receive_maximum_kept_one :
    ∃ w, execute Wire.step (Wire.init { receiveMaximum := 1 } 3) exchangeOne = some w ∧
      w.down = [.publish 2 1] ∧ (receive w.sys.eng 2 1).2 ≠ .exceeded := by
  obtain ⟨w, hw, hdown⟩ := exists_of_execute
    (show (execute Wire.step (Wire.init { receiveMaximum := 1 } 3) exchangeOne).any
      (fun w => decide (w.down = [.publish 2 1])) = true by decide)
  have hdown : w.down = [.publish 2 1] := by simpa using hdown
  have hreach : Reach Wire.step Unencumbered (· = Wire.init { receiveMaximum := 1 } 3) w :=
    Reach.of_execute (fun _ _ h => unencumbered_of_plainMove h) (.start rfl)
      (show meets Wire.step plainMove _ exchangeOne = true by decide) hw
  exact ⟨w, hw, hdown, receive_maximum_kept (by decide) hreach hdown⟩

/-- The connection is lost before the PUBREL of a QoS 2 message arrives. The session is resumed,
and the broker, whose quota starts again at the client's Receive Maximum, sends the PUBREL again
and then its next message. -/
def resumedExchange : List Move :=
  [.client (.connected { sessionPresent := false, receiveMaximum := 0, link := 1 } 0),
    .sendPublish 1 2, .arrive, .client (.ack 0), .client (.collectControl 1), .hear,
    .sendPubrel 1, .client (.disconnected 1),
    .client (.connected { sessionPresent := true, receiveMaximum := 0, link := 2 } 0),
    .sendPubrel 1, .sendPublish 2 1, .arrive]

/-- The flow of the first message is still registered when the second one arrives, and `Receive`
blames the broker for it. -/
theorem receive_maximum_blamed :
    ∃ w, execute Wire.step (Wire.init { receiveMaximum := 1 } 65535) resumedExchange = some w ∧
      w.down = [.publish 2 1] ∧ (receive w.sys.eng 2 1).2 = .exceeded := by
  obtain ⟨w, hw, hend⟩ := exists_of_execute
    (show (execute Wire.step (Wire.init { receiveMaximum := 1 } 65535) resumedExchange).any
      (fun w => decide (w.down = [.publish 2 1] ∧ (receive w.sys.eng 2 1).2 = .exceeded)) = true
      by decide)
  have hend := of_decide_eq_true hend
  exact ⟨w, hw, hend.1, hend.2⟩

end Mqttv5.Guarantees
