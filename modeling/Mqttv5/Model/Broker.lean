import Mqttv5.Model.Run

/-!
# The engine and a broker's send quota

`Wire` is the engine among its callers together with what a broker keeps for its flow control,
and the packets of the current connection that are on their way. The broker sends a PUBLISH
with QoS 1 or 2 only while its send quota is above 0; it starts every connection with the
client's Receive Maximum, and gets one back for each PUBACK, PUBCOMP or PUBREC with an error
that reaches it, up to where it started. Which messages it sends, with which identifiers, and
when it sends a PUBREL, is up to the move. Both directions are in order, and what is in flight
when a connection ends is lost.
-/

set_option autoImplicit false

namespace Mqttv5.Model

open Program

/-- A packet on its way to the client: a PUBLISH with QoS 1 or 2, or a PUBREL. -/
inductive BrokerPacket
  | publish (id : PacketID) (qos : ℕ)
  | pubrel (id : PacketID)
  deriving DecidableEq

structure Wire where
  sys : Sys
  quota : ℕ := 0
  down : List BrokerPacket := []
  up : List CtrlFrame := []

/-- A move of the client (all but the arrival of a packet of `down`), or of the broker. -/
inductive Move
  | client (a : Event)
  | sendPublish (id : PacketID) (qos : ℕ)
  | sendPubrel (id : PacketID)
  | arrive
  | hear
  deriving DecidableEq

namespace Wire

/-- The Receive Maximum a broker reads from the client's CONNECT: 65,535 when it has none. -/
def maximum (cfg : Config) : ℕ := if cfg.receiveMaximum = 0 then 65535 else cfg.receiveMaximum

/-- The control frames among frames. -/
def controls (fs : List Frame) : List CtrlFrame :=
  fs.filterMap fun
    | .control c => some c
    | .publish _ _ _ => none

/-- The frames a move hands to the writer. -/
def handedOut (s : Sys) : Event → List Frame
  | .collect gen upTo now => (collect s.eng gen upTo now).2
  | .collectControl gen => (collectControl s.eng gen).2
  | _ => []

/-- The acknowledgements that give the broker's quota back. -/
def returnsQuota (c : CtrlFrame) : Bool :=
  c.typ = .PUBACK ∨ c.typ = .PUBCOMP ∨ c.typ = .PUBREC ∧ c.rc.isError

def isPublish : BrokerPacket → Bool
  | .publish _ _ => true
  | .pubrel _ => false

/-- The moves of the client that are arrivals. -/
def isArrival : Event → Bool
  | .receive _ _ | .pubrel _ => true
  | _ => false

/-- What a move of the client to `t` does to the connection. -/
def after (w : Wire) (t : Sys) : Event → Wire
  | .connected _ _ =>
    if w.sys.eng.failure.isSome then { w with sys := t }
    else { sys := t, quota := maximum t.eng.cfg }
  | .disconnected l =>
    if w.sys.eng.link = some l then { sys := t } else { w with sys := t }
  | .restart => { sys := t }
  | a => { w with sys := t, up := w.up ++ controls (handedOut w.sys a) }

/-- A client before its first step, with no connection. -/
def init (cfg : Config) (max : ℕ) : Wire := { sys := Sys.init cfg max }

def step (w : Wire) : Move → Option Wire
  | .client a => if isArrival a then none else (w.sys.step a).map fun t => w.after t a
  | .sendPublish id qos =>
    if w.sys.eng.gen = 0 ∨ w.quota = 0 ∨ qos ≠ 1 ∧ qos ≠ 2 then none
    else some { w with quota := w.quota - 1, down := w.down ++ [.publish id qos] }
  | .sendPubrel id =>
    if w.sys.eng.gen = 0 then none else some { w with down := w.down ++ [.pubrel id] }
  | .arrive =>
    match w.down with
    | [] => none
    | .publish id qos :: rest =>
      (w.sys.step (.receive id qos)).map fun t => { w with sys := t, down := rest }
    | .pubrel id :: rest =>
      (w.sys.step (.pubrel id)).map fun t => { w with sys := t, down := rest }
  | .hear =>
    match w.up with
    | [] => none
    | c :: rest => some { w with
        up := rest
        quota := if returnsQuota c then min (w.quota + 1) (maximum w.sys.eng.cfg) else w.quota }

end Wire

end Mqttv5.Model
