import Mathlib.Data.List.Sort
import Mathlib.Tactic.Ring
import Mqttv5.Computation.FiniteMap

/-!
# Session records and their store

The persisted form of a session (session/store.go): one record for each QoS 1/2 flow that
is not complete, under the direction and packet identifier of the flow, and the meta of
the session. `MemoryStore` is the reference implementation of the store; every store is
assumed to keep what it is given and to load outbound records in `Seq` order.
-/

set_option autoImplicit false

namespace Mqttv5.Model

open Mqttv5.Computation

/-- A packet identifier (a `uint16`; 0 is never handed out). -/
abbrev PacketID := ℕ

abbrev Bytes := List UInt8

/-- Nanoseconds; the zero `time.Time` is the absent one. -/
abbrev Time := ℤ

/-- The packet types the session state machine handles.
SOURCE: wire/codec.go:39-55 -/
inductive PacketType
  | PUBLISH | PUBACK | PUBREC | PUBREL | PUBCOMP
  deriving DecidableEq, Repr

abbrev ReasonCode := UInt8

namespace ReasonCode

def success : ReasonCode := 0x00

def packetIdentifierNotFound : ReasonCode := 0x92

/-- SOURCE: wire/codec.go:458-459 -/
def isError (r : ReasonCode) : Bool := 0x80 ≤ r

end ReasonCode

/-- Which side sent the PUBLISH a record tracks.
SOURCE: session/store.go:51-59 -/
inductive Direction
  | outbound | inbound
  deriving DecidableEq, Repr

/-- The step a QoS 1/2 flow has reached.
SOURCE: session/store.go:61-84 -/
inductive Phase
  | awaitPuback | awaitPubrec | awaitPubcomp | awaitPubrel | completed
  deriving DecidableEq, Repr

/-- SOURCE: session/store.go:106-115 -/
def Phase.valid (p : Phase) : Direction → Bool
  | .outbound => p = .awaitPuback ∨ p = .awaitPubrec ∨ p = .awaitPubcomp ∨ p = .completed
  | .inbound => p = .awaitPubrel

/-- The outcomes of a `completed` record other than a refusal.
SOURCE: session/store.go:86-104 -/
def outcomeAccepted : UInt8 := 0x00

def outcomeSessionLost : UInt8 := 0x01

def outcomeExpired : UInt8 := 0x02

def outcomePacketTooLarge : UInt8 := 0x03

def outcomeRetainNotSupported : UInt8 := 0x04

def outcomeQoSNotSupported : UInt8 := 0x05

/-- SOURCE: session/store.go:117-122 -/
structure RecordKey where
  dir : Direction
  packetID : PacketID
  deriving DecidableEq, Repr

/-- One QoS 1/2 flow that has not completed.
SOURCE: session/store.go:125-164 -/
structure Record where
  key : RecordKey
  seq : ℕ := 0
  pubrecSeq : ℕ := 0
  outcome : UInt8 := 0
  qos : ℕ
  phase : Phase
  packet : Bytes := []
  expiresAt : Option Time := none
  ref : Bytes := []
  deriving DecidableEq, Repr

/-- SOURCE: session/store.go:185-194 -/
structure Meta where
  clientID : String := ""
  sessionExpiry : ℕ := 0
  deriving DecidableEq, Repr

/-- A session store: the meta and the records by key.
SOURCE: session/store.go:229-234 -/
structure MemoryStore where
  metaData : Meta := {}
  records : FiniteMap RecordKey Record := ∅

namespace MemoryStore

/-- SOURCE: session/store.go:267-280 -/
def put (s : MemoryStore) (r : Record) : MemoryStore :=
  { s with records := s.records.set r.key r }

/-- SOURCE: session/store.go:283-291 -/
def delete (s : MemoryStore) (k : RecordKey) : MemoryStore :=
  { s with records := s.records.del k }

/-- SOURCE: session/store.go:294-302 -/
def setMeta (s : MemoryStore) (m : Meta) : MemoryStore := { s with metaData := m }

/-- SOURCE: session/store.go:305-314 -/
def reset (_ : MemoryStore) : MemoryStore := {}

/-- The order `Load` returns records in: outbound before inbound, outbound by `Seq`,
inbound by packet identifier.
SOURCE: session/store.go:260-268 -/
def loadsBefore (a b : Record) : Prop :=
  match a.key.dir, b.key.dir with
  | .outbound, .inbound => True
  | .inbound, .outbound => False
  | .outbound, .outbound => a.seq ≤ b.seq
  | .inbound, .inbound => a.key.packetID ≤ b.key.packetID

instance : DecidableRel loadsBefore := fun a b => by
  unfold loadsBefore
  cases a.key.dir <;> cases b.key.dir <;> infer_instance

/-- SOURCE: session/store.go:242-264 -/
def load (s : MemoryStore) : Meta × List Record :=
  (s.metaData, s.records.vals.insertionSort loadsBefore)

end MemoryStore

end Mqttv5.Model
