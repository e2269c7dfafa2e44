import Mqttv5.Program.Wire.Codec

/-!
# The read loop of a connection

conn.go, `readLoop`: what it calls, in order.
-/

set_option autoImplicit false

namespace Mqttv5.Program

open Model (Bytes)
open Model.Wire
open Program.Wire

/-- What the connection still has to deliver, one element for each `Read`. -/
abbrev Source := List {c : Bytes // c ≠ []}

/-- The decoder with another source behind its buffer. -/
def behind (d : Decoder) (src : Source) : Decoder := { d with br := { d.br with src := src } }

/-- A call of `readLoop`; one of `ReadPacket` with the decoder it finds. -/
inductive LoopCall
  | sendReady
  | readPacket (d : Decoder)
  | protocolViolation (err : Err)
  | handleConnError (err : Err)
  | dispatch (pkt : Packet)

/-- An error means that the broker broke the protocol.
SOURCE: conn.go:598-610 -/
def decodeViolation (err : Err) : Bool := err.isPacketError || err.is .packetTooLarge

/-- The calls of the first rounds, one for each source. A round finds the connection with the
source it has by then: more may have arrived, and another goroutine may have closed it.
SOURCE: conn.go:520-539 -/
def readLoop : List Source → Decoder → List LoopCall
  | [], _ => []
  | src :: sources, d =>
    let d := behind d src
    (if !d.ready then [.sendReady] else []) ++ .readPacket d ::
      match readPacket d with
      | (.error err, _) =>
        [if decodeViolation err then .protocolViolation err else .handleConnError err]
      | (.ok pkt, d) => .dispatch pkt :: readLoop sources d

end Mqttv5.Program
