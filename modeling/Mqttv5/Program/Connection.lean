import Mqttv5.Program.Inbound

/-!
# Connections

`Connected` with the resumption and the loss of a session, the broker's limits,
`Disconnected`, and `Collect`, which hands the connection's writer its packets
(engine.go:415-753).
-/

set_option autoImplicit false

namespace Mqttv5.Program

open Model

/-- Keep the inbound acknowledgements owed and regenerate the PUBRELs in PUBREC order.
SOURCE: engine.go:469-485 -/
def resumeLocked (e : Engine) : Engine :=
  { e with
    ctrl := e.ctrl.filter (fun f => f.typ ≠ .PUBREL) ++
      e.rel.map fun p => ⟨.PUBREL, (e.outs p).id, .success, true, none, some (.out p)⟩ }

/-- One inbound flow of a lost session.
SOURCE: engine.go:491-499 -/
def loseIn (e : Engine) (x : PacketID × InPtr) : Engine :=
  let e := setIn e x.2 fun i => { i with dead := true }
  if (e.ins x.2).state = .awaitPubrel ∧ e.cfg.store then
    queueLocked e (inKey x.1) (.inn x.2) .deleteIn
  else e

/-- Drop all inbound state.
SOURCE: engine.go:500-504, writes.go:215-222, engine.go:613-620 -/
def clearIn (e : Engine) : Engine := { e with inn := ∅, fifo := [], ctrl := [] }

/-- SOURCE: outbound.go:516-518 -/
def sortByPubSeq (e : Engine) (flows : List OutPtr) : List OutPtr :=
  flows.insertionSort fun a b => (e.outs a).pubSeq ≤ (e.outs b).pubSeq

/-- SOURCE: engine.go:579-594 -/
def drainFlowsLocked (e : Engine) : Engine × List OutPtr :=
  ({ e with pub := [], rel := [] }, sortByPubSeq e (e.pub ++ e.rel))

/-- The flow's time has run out at `now`. -/
def expired (o : Out) (now : Time) : Bool :=
  match o.expiresAt with
  | none => false
  | some t => t ≤ now

/-- Why a lost session ends the flow, if it does.
SOURCE: engine.go:509-515 -/
def lossReason (e : Engine) (o : Out) (now : Time) : Option PubErr :=
  if e.cfg.sessionLoss = .fail then some .sessionLost
  else if expired o now then some .messageExpired
  else none

/-- The flow as a lost session sends it again.
SOURCE: engine.go:521-530 -/
def asNew (o : Out) (now : Time) : Out :=
  let o := { o with
    phase := if o.qos = 2 then .awaitPubrec else .awaitPuback
    seq := o.pubSeq
    attempted := false }
  match o.expiresAt with
  | none => o
  | some t => { o with
      expiry := secondsUntil t now
      packet := withMessageExpiry o.packet (secondsUntil t now) }

/-- One outbound flow of a lost session.
SOURCE: engine.go:508-533 -/
def loseFlow (now : Time) (e : Engine) (p : OutPtr) : Engine :=
  match lossReason e (e.outs p) now with
  | some reason => retireLocked (finishLocked e p (some reason)) p
  | none =>
    let e := setOut e p fun o => asNew o now
    let e := { e with pub := e.pub ++ [p] }
    putOutLocked e p

/-- SOURCE: engine.go:487-535 -/
def sessionLostLocked (e : Engine) (now : Time) : Engine :=
  let e := clearIn (e.inn.toList.foldl loseIn e)
  let (e, flows) := drainFlowsLocked e
  flows.foldl (loseFlow now) e

/-- Why the connection's limits rule a PUBLISH out, if they do.
SOURCE: engine.go:554-568 -/
def limitReason (l : Limits) (o : Out) : Option PubErr :=
  if 0 < l.maximumPacketSize ∧ l.maximumPacketSize < o.packet.length % 2 ^ 32 then
    some .packetTooLarge
  else if o.packet.headD 0 &&& 0x01 ≠ 0 ∧ ¬ l.retainAvailable then some .retainNotSupported
  else if l.maximumQoS < o.qos ∧ ¬ (l.downgrade ∧ l.maximumQoS = 1) then some .qosNotSupported
  else none

/-- The flow sent as QoS 1.
SOURCE: engine.go:561-564 -/
def downgraded (o : Out) : Out :=
  { o with
    packet := match o.packet with
      | [] => []
      | b :: rest => ((b &&& 0xF9) ||| 0x02) :: rest
    qos := 1
    phase := .awaitPuback }

/-- One flow of `enforceLimitsLocked`.
SOURCE: engine.go:548-575 -/
def enforceLimit (l : Limits) (fresh : Bool) (e : Engine) (p : OutPtr) : Engine :=
  if ¬ fresh ∧ (e.outs p).attempted then e
  else match limitReason l (e.outs p) with
    | some reason => endFlow e p (some reason)
    | none =>
      if l.maximumQoS < (e.outs p).qos then putOutLocked (setOut e p downgraded) p else e

/-- SOURCE: engine.go:542-577 -/
def enforceLimitsLocked (e : Engine) (l : Limits) (fresh : Bool) : Engine :=
  e.pub.foldl (enforceLimit l fresh) e

/-- A flow of an earlier connection holds no unit of this one's quota. -/
def clearCounted (e : Engine) (p : OutPtr) : Engine :=
    setOut e p fun o => { o with counted := false }

/-- The quota and the binding of a new connection.
SOURCE: engine.go:433-443 -/
def bindLocked (e : Engine) (ci : ConnInfo) : Engine :=
  let quotaMax : ℤ := if ci.receiveMaximum = 0 then 65535 else ci.receiveMaximum
  e.out.vals.foldl clearCounted
    { e with
      lastGen := e.lastGen + 1
      gen := e.lastGen + 1
      link := some ci.link
      quotaMax := quotaMax
      quota := quotaMax }

/-- The cursor and the release mark of a new connection.
SOURCE: engine.go:453-460 -/
def rewindLocked (e : Engine) (ci : ConnInfo) : Engine :=
  { e with
    cursor := e.pub.head?
    released := if ¬ ci.sessionPresent ∧ ci.holdRepublished ∧ e.pub ≠ [] then 0 else e.nextSeq - 1 }

/-- The connection's limits, when it has any.
SOURCE: engine.go:450-452 -/
def limitLocked (e : Engine) (ci : ConnInfo) : Engine :=
  match ci.limits with
  | none => e
  | some l => enforceLimitsLocked e l !ci.sessionPresent

/-- Bind the engine to a connection that has completed its CONNACK. A failed session refuses.
SOURCE: engine.go:425-467 -/
def connected (e : Engine) (ci : ConnInfo) (now : Time) : Engine :=
  if e.failure.isSome then e
  else
    let e := bindLocked e ci
    let e := if ci.sessionPresent then resumeLocked e else sessionLostLocked e now
    rewindLocked (limitLocked e ci) ci

/-- SOURCE: engine.go:648-657 -/
def disconnected (e : Engine) (l : LinkID) : Engine :=
  if e.link = some l then { e with link := none, gen := 0 } else e

/-- What `Collect` hands to the writer: a control frame, or a PUBLISH with its DUP flag. -/
inductive Frame
  | control (c : CtrlFrame)
  | publish (p : OutPtr) (packet : Bytes) (dup : Bool)
  deriving DecidableEq, Repr

/-- SOURCE: engine.go:732-735 -/
def servesLocked (e : Engine) (gen : ℕ) : Bool := gen ≠ 0 ∧ gen = e.gen ∧ e.failure = none

/-- SOURCE: engine.go:221-230 -/
def readyLocked (e : Engine) (c : CtrlFrame) : Bool :=
  if ¬ c.gated then true
  else if c.typ = .PUBREL then storedLocked e (outKey c.id)
  else storedLocked e (inKey c.id)

/-- A PUBACK or PUBCOMP that is written ends its inbound flow.
SOURCE: engine.go:742-744 -/
def writeCtrl (e : Engine) (c : CtrlFrame) : Engine :=
  if (c.typ = .PUBACK ∨ c.typ = .PUBCOMP) ∧ c.inn.isSome ∧ e.inn.get c.id = c.inn then
    { e with inn := e.inn.del c.id }
  else e

/-- The loop of `collectControlLocked` over the control queue.
SOURCE: engine.go:737-753 -/
def collectControlLoop : List CtrlFrame → Engine → Engine × List Frame
  | [], e => ({ e with ctrl := [] }, [])
  | c :: rest, e =>
    if readyLocked e c then
      let r := collectControlLoop rest (writeCtrl e c)
      (r.1, .control c :: r.2)
    else ({ e with ctrl := c :: rest }, [])

/-- SOURCE: engine.go:737-753 -/
def collectControlLocked (e : Engine) : Engine × List Frame := collectControlLoop e.ctrl e

def maxPublishesPerCollect : ℕ := 64

/-- Hand out the PUBLISH of the flow at the cursor.
SOURCE: engine.go:706-714 -/
def handOut (e : Engine) (p : OutPtr) : Engine :=
  let nxt := next e p
  let e := setOut e p fun o => { o with attempted := true, counted := true }
  { e with quota := e.quota - 1, cursor := nxt }

/-- The packet with its interval brought down to the time left, when that is less than it
says.
SOURCE: engine.go:696-698 -/
def shorten (e : Engine) (p : OutPtr) (left : ℕ) : Engine :=
  setOut e p fun o => { o with expiry := left, packet := withMessageExpiry o.packet left }

/-- The time left of a message about to be sent for the first time, when its packet says more.
SOURCE: engine.go:686-696 -/
def timeLeft (o : Out) (now : Time) : Option ℕ :=
  match o.expiresAt with
  | none => none
  | some t => if ¬ o.attempted ∧ secondsUntil t now < o.expiry then some
    (secondsUntil t now) else none

/-- The PUBLISH loop of `Collect`. Every round that goes on takes the cursor one flow
further, so the length of the list is enough fuel.
SOURCE: engine.go:680-715 -/
def collectLoop (now : Time) : (fuel sent : ℕ) → Engine → Engine × List Frame
  | 0, _, e => (e, [])
  | fuel + 1, sent, e =>
    match e.cursor with
    | none => (e, [])
    | some p =>
      let o := e.outs p
      if maxPublishesPerCollect ≤ sent then (e, [])
      else if e.released < o.seq ∨ ¬ storedLocked e (outKey o.id) ∨ e.quota = 0 then (e, [])
      else if ¬ o.attempted ∧ expired o now then
        collectLoop now fuel sent (endFlow e p (some .messageExpired))
      else
        let send (e : Engine) :=
          let r := collectLoop now fuel (sent + 1) (handOut e p)
          (r.1, .publish p (e.outs p).packet o.attempted :: r.2)
        match timeLeft o now with
        | none => send e
        | some left =>
          -- With a store the PUBLISH waits for the record of the packet as sent.
          if e.cfg.store then (putOutLocked (shorten e p left) p, [])
          else send (shorten e p left)

/-- SOURCE: engine.go:659-719 -/
def collect (e : Engine) (gen upTo : ℕ) (now : Time) : Engine × List Frame :=
  if ¬ servesLocked e gen then (e, [])
  else
    let e := { e with released := max e.released upTo }
    let c := collectControlLocked e
    let r := collectLoop now c.1.pub.length 0 c.1
    (r.1, c.2 ++ r.2)

/-- SOURCE: engine.go:721-730 -/
def collectControl (e : Engine) (gen : ℕ) : Engine × List Frame :=
  if ¬ servesLocked e gen then (e, []) else collectControlLocked e

end Mqttv5.Program
