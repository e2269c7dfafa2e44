import Mathlib.Logic.Function.Basic
import Mqttv5.Model.Session

/-!
# The state of the session engine

The fields of `Engine` (internal/inflight/engine.go) and of the objects it points to.
Pointers are addresses in two heaps, `outs` and `ins`; `nextOut` and `nextIn` are the
addresses not yet allocated. A flow list is the list of its members in order, a map with
an iteration a `FiniteMap`, the per-record write queues a function. A store write is a
`Job`; the closures it carries in the source are here the data they close over
(`JobKind`), and how far its goroutine has got is its `Stage`.

Four fields have no counterpart of their own in the source. `stuck` records that
`releaseLocked` waits on an empty channel with the mutex held. `putErr` is the variable
`Register` shares with its write. `dropped` holds the calls a goroutine of `afterFailure`
has still to make. `CtrlFrame.src` is a ghost: the flow a frame was queued for.
-/

set_option autoImplicit false

namespace Mqttv5.Model

open Mqttv5.Computation

/-- The address of an `Out`. -/
abbrev OutPtr := ℕ

/-- The address of an `In`. -/
abbrev InPtr := ℕ

/-- The identity of a `Settle` function. -/
abbrev SettleFn := ℕ

/-- The identity of a `Link`. -/
abbrev LinkID := ℕ

/-- SOURCE: writes.go:15-18 -/
structure StoreError where
  op : String
  err : ℕ
  deriving DecidableEq, Repr

/-- The errors a publish completes with.
SOURCE: engine.go:54-73, outbound.go:402-430 -/
inductive PubErr
  | sessionLost | messageExpired | packetTooLarge | retainNotSupported | qosNotSupported
  | canceled
  | refusal (t : PacketType) (rc : ReasonCode)
  | store (e : StoreError)
  deriving DecidableEq, Repr

/-- One outbound QoS 1/2 flow. `done` counts how often the channel was closed.
SOURCE: outbound.go:15-45 -/
structure Out where
  id : PacketID := 0
  qos : ℕ := 0
  phase : Phase := .awaitPuback
  seq : ℕ := 0
  pubSeq : ℕ := 0
  packet : Bytes := []
  expiresAt : Option Time := none
  expiry : ℕ := 0
  attempted : Bool := false
  counted : Bool := false
  finished : Bool := false
  settling : Bool := false
  adopted : Bool := false
  reason : ReasonCode := 0
  outcome : UInt8 := 0
  ref : Bytes := []
  settle : Option SettleFn := none
  done : ℕ := 0
  err : Option PubErr := none
  deriving DecidableEq, Repr

/-- SOURCE: inbound.go:10-17 -/
inductive InState
  | delivered | acked | awaitPubrel | released
  deriving DecidableEq, Repr

/-- One inbound QoS 1/2 PUBLISH.
SOURCE: inbound.go:19-28 -/
structure In where
  id : PacketID := 0
  qos : ℕ := 0
  state : InState := .delivered
  dead : Bool := false
  deriving DecidableEq, Repr

/-- The flow a write, or a control frame, is for. -/
inductive FlowPtr
  | out (p : OutPtr) | inn (h : InPtr)
  deriving DecidableEq, Repr

/-- An acknowledgement or PUBREL waiting to be written.
SOURCE: engine.go:204-219 -/
structure CtrlFrame where
  typ : PacketType
  id : PacketID
  rc : ReasonCode
  gated : Bool
  inn : Option InPtr
  src : Option FlowPtr
  deriving DecidableEq, Repr

/-- What a store write does, with the values its closures captured: the first Put of a
flow, a later Put, the settle-and-delete of a finished flow, and the two inbound writes. -/
inductive JobKind
  | putNew (r : Record)
  | putOut (r : Record)
  | settle (settle : Option SettleFn) (outcome : Option PubErr) (ref : Bytes)
  | putIn (r : Record)
  | deleteIn
  deriving DecidableEq, Repr

/-- The error a write's `do` returns: the store's, or a Settle's. -/
inductive JobErr
  | store (err : ℕ)
  | settle (err : ℕ)
  deriving DecidableEq, Repr

/-- How far a write has got: waiting or about to run, in its producer's Settle, past it,
or returned from `do`. -/
inductive Stage
  | queued | settling | settled | ran (res : Option JobErr)
  deriving DecidableEq, Repr

/-- SOURCE: writes.go:35-51 -/
structure Job where
  kind : JobKind
  owner : FlowPtr
  epoch : ℕ
  stage : Stage := .queued
  deriving DecidableEq, Repr

/-- SOURCE: outbound.go:130, 418, 510 and inbound.go:99, 142 -/
def JobKind.op : JobKind → String
  | .putNew _ => "put outbound"
  | .putOut _ => "put outbound"
  | .settle _ _ _ => "delete outbound"
  | .putIn _ => "put inbound"
  | .deleteIn => "delete inbound"

def outKey (id : PacketID) : RecordKey := ⟨.outbound, id⟩

def inKey (id : PacketID) : RecordKey := ⟨.inbound, id⟩

/-- What a packet identifier is allocated to.
SOURCE: engine.go:814-825 -/
inductive Owner
  | none | publish | subscribe | unsubscribe
  deriving DecidableEq, Repr

/-- Packet identifiers 1..max and their owners; `inUse` is the number of tokens in the
channel.
SOURCE: engine.go:839-844 -/
structure IDTable where
  owner : PacketID → Owner := fun _ => .none
  next : ℕ := 1
  max : ℕ
  inUse : ℕ := 0

/-- SOURCE: engine.go:43-52 -/
inductive SessionLossPolicy
  | republish | fail
  deriving DecidableEq, Repr

/-- The configuration the engine reads; `store` says whether there is one.
SOURCE: engine.go:85-119 -/
structure Config where
  store : Bool := false
  receiveMaximum : ℕ := 0
  sessionLoss : SessionLossPolicy := .republish
  deriving DecidableEq, Repr

/-- SOURCE: engine.go:139-148 -/
structure Limits where
  maximumQoS : ℕ
  retainAvailable : Bool
  maximumPacketSize : ℕ
  downgrade : Bool
  deriving DecidableEq, Repr

/-- SOURCE: engine.go:121-137 -/
structure ConnInfo where
  sessionPresent : Bool
  receiveMaximum : ℕ
  limits : Option Limits := none
  link : LinkID
  holdRepublished : Bool := false
  deriving DecidableEq, Repr

/-- SOURCE: outbound.go:61-82 -/
structure Message where
  id : PacketID
  qos : ℕ
  packet : Bytes
  expiresAt : Option Time := none
  ref : Bytes := []
  settle : Option SettleFn := none
  deriving DecidableEq, Repr

/-- The idle channel: which one it is and how often it was closed. -/
structure IdleChan where
  no : ℕ := 0
  closes : ℕ := 1
  deriving DecidableEq, Repr

/-- SOURCE: engine.go:150-202 -/
structure Engine where
  cfg : Config
  ids : IDTable
  outs : OutPtr → Out := fun _ => {}
  nextOut : ℕ := 0
  out : FiniteMap PacketID OutPtr := ∅
  pub : List OutPtr := []
  rel : List OutPtr := []
  nextSeq : ℕ := 1
  cursor : Option OutPtr := none
  released : ℕ := 0
  quota : ℤ := 65535
  quotaMax : ℤ := 65535
  ins : InPtr → In := fun _ => {}
  nextIn : ℕ := 0
  inn : FiniteMap PacketID InPtr := ∅
  fifo : List InPtr := []
  ctrl : List CtrlFrame := []
  link : Option LinkID := none
  gen : ℕ := 0
  lastGen : ℕ := 0
  metaData : Meta := {}
  refs : FiniteMap Bytes OutPtr := ∅
  orphans : FiniteMap Bytes OutPtr := ∅
  queues : RecordKey → List Job := fun _ => []
  writes : ℤ := 0
  writesIdle : IdleChan := {}
  epoch : ℕ := 0
  failure : Option StoreError := none
  stuck : Bool := false
  putErr : OutPtr → Option StoreError := fun _ => none
  dropped : List (OutPtr × SettleFn × PubErr) := []

/-- An identifier table with every identifier free.
SOURCE: engine.go:846-848 -/
def newIDTable (max : ℕ) : IDTable := { max := max }

/-- An engine with no state, for identifiers 1..max (65,535 outside tests).
SOURCE: engine.go:232-266 -/
def new (cfg : Config) (max : ℕ) : Engine := { cfg := cfg, ids := newIDTable max }

end Mqttv5.Model
