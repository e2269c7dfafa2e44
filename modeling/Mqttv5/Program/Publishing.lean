import Mathlib.Data.List.Basic
import Mathlib.Logic.Function.Basic

/-!
# Publish and the writer of a connection

A client with the connections it has had, the Publish calls running on it, and the writer
goroutine of each connection (publish.go, conn.go). An event is one atomic move of one of them; a
write to a connection happens under its write lock, and its outcome is in the event. A call stands
for its message: `written` are the calls of whose packets a byte was written.

The engine is only known by the calls it has flows for, of which it hands out any when asked.
Errors of the connection and of the session (the store's among them), and those that end a span,
are only known by whether `errors.Is` finds ErrNotConnected or ErrWriteQueueFull in them. SUBSCRIBE
and the like (`fn`), and the marks that let the writer send QoS 1 and 2 packets, stand in the queue
without their content.
-/

set_option autoImplicit false

namespace Mqttv5.Program.Publishing

/-- What a Publish returns, other than nil. -/
inductive PublishError
  | notConnected
  | writeQueueFull
  /-- What ended the span of the client. SOURCE: client.go:262-270 -/
  | closed (wraps : Bool)
  /-- The error of the caller's context. -/
  | context
  /-- A check of the options or of the packet's size failed. -/
  | invalid
  /-- What the connection's Write returned. -/
  | write (wraps : Bool)
  /-- What the session refused or completed the message with. -/
  | session (wraps : Bool)
  deriving DecidableEq, Repr

/-- SOURCE: publish.go:363-367 -/
def notSent : Option PublishError → Bool
  | some .notConnected => true
  | some .writeQueueFull => true
  | some (.closed wraps) => wraps
  | some (.write wraps) => wraps
  | some (.session wraps) => wraps
  | _ => false

/-- How the session completes a message: as sent, with an error of its own, or with its store's. -/
inductive Completion
  | sent
  | refused
  | store (wraps : Bool)
  deriving DecidableEq, Repr

/-- What the Publish returns. -/
def Completion.err : Completion → Option PublishError
  | .sent => none
  | .refused => some (.session false)
  | .store wraps => some (.session wraps)

/-- A request in the write queue.
SOURCE: conn.go:851-856 -/
inductive Req
  | pkt (call : ℕ)
  | fn
  | mark
  deriving DecidableEq, Repr

/-- The call whose packet a request carries. -/
def Req.calls : Req → List ℕ
  | .pkt k => [k]
  | _ => []

/-- Where the writer goroutine is.
SOURCE: conn.go:956-1023, 1059-1086 -/
inductive Writer
  /-- In its select. -/
  | waiting
  /-- In `processWrite`, with packets in the batch; `next` is a mark or fn taken after them. -/
  | batching (taken : List ℕ) (next : Bool)
  /-- About to write a mark or a fn. -/
  | single
  /-- Out of the loop. -/
  | leaving
  /-- Has marked the connection dying, and waits for those who are sending. -/
  | closing
  | draining
  | done
  deriving DecidableEq, Repr

/-- The writer holds the write lock. -/
def Writer.locks : Writer → Bool
  | .batching _ _ => true
  | .single => true
  | _ => false

/-- A connection: its queue, who holds `admit` for reading, the tail of an interrupted write, and
the calls whose packets were written on it. -/
structure Conn where
  queue : List Req := []
  senders : List ℕ := []
  closed : Bool := false
  rest : List ℕ := []
  writer : Writer := .waiting
  written : List ℕ := []
  deriving DecidableEq, Repr

/-- What does not bear on the queue: the connection is down, has re-issued its subscriptions, and
belongs to a span of the client. -/
structure Life where
  dying : Bool := false
  resumed : Bool := false
  span : ℕ := 0
  deriving DecidableEq, Repr

/-- Where a Publish call is.
SOURCE: publish.go:46-82, 190-267, 286-301 -/
inductive Stage
  | idle
  /-- In `publishConnection`. -/
  | connecting
  /-- Has the connection, and has not handed it the packet. -/
  | ready (conn : ℕ)
  /-- In `send`, holding `admit`. -/
  | sending (conn : ℕ)
  /-- In `awaitWrite`. -/
  | awaiting (conn : ℕ)
  /-- In `awaitWrite`, waiting for the writer to be gone. -/
  | outliving (conn : ℕ)
  /-- Waiting for the flow it has registered. -/
  | registered
  | returned (err : Option PublishError)
  deriving DecidableEq, Repr

/-- The configuration of a client: PublishMode is PublishWaitForFlush, WriteOverflowPolicy is not
WriteDropNewest, the capacity of the write queue and that of a batch. -/
structure Config where
  waitForFlush : Bool
  block : Bool
  capacity : ℕ
  batchMax : ℕ
  deriving DecidableEq, Repr

/-- A client. `causes` are the errors that ended its spans, by whether one of the two is in them;
`answers` are the channels on which the writer answers. -/
structure Client where
  cfg : Config
  conns : ℕ → Conn := fun _ => {}
  lives : ℕ → Life := fun _ => {}
  count : ℕ := 0
  cur : Option ℕ := none
  span : ℕ := 0
  ended : ℕ → Bool := fun _ => false
  causes : ℕ → Bool := fun _ => false
  flows : List ℕ := []
  calls : ℕ → Stage := fun _ => .idle
  answers : ℕ → Option (Option PublishError) := fun _ => none

/-- How a write of queued packets or of the engine's packets ends. -/
inductive Outcome
  | ok
  /-- `part` are the calls of whose packets something was written. -/
  | failed (part : List ℕ) (wraps : Bool)
  deriving DecidableEq, Repr

/-- How a write on the caller's goroutine ends.
SOURCE: conn.go:394-427 -/
inductive Direct
  | ok
  | failed (started wraps : Bool)
  /-- The context ended before the first byte. -/
  | cancelled
  /-- The context ended during the write: the tail is handed to the writer. -/
  | interrupted
  deriving DecidableEq, Repr

inductive Event
  /-- A connection comes up; has re-issued its subscriptions; goes down; is no longer current. -/
  | connect
  | resume (n : ℕ)
  | down (n : ℕ)
  | clear
  /-- The span of the client ends, and another begins. -/
  | finishSpan (wraps : Bool)
  | startSpan
  | call (k : ℕ)
  | found (k : ℕ)
  | noConnection (k : ℕ)
  | cancel (k : ℕ)
  | refuse (k : ℕ)
  | aliasLost (k : ℕ)
  | direct (k : ℕ) (how : Direct)
  | admitted (k : ℕ)
  | push (k : ℕ)
  | sendFails (k : ℕ)
  | full (k : ℕ)
  | answered (k : ℕ)
  | sawDown (k : ℕ)
  | cut (k span : ℕ)
  | resolve (k : ℕ)
  | register (k : ℕ)
  /-- With `kept` the store has the record although its Put failed. -/
  | registerFails (k : ℕ) (err : PublishError) (kept : Bool)
  | finish (k : ℕ) (how : Completion)
  | forget (k : ℕ)
  | other (n : ℕ) (r : Req)
  | ordered (n : ℕ) (sent : List ℕ) (how : Direct)
  | take (n : ℕ)
  | flush (n : ℕ) (out : Outcome)
  | writeRest (n : ℕ) (taken : Bool) (out : Outcome)
  | engine (n : ℕ) (sent : List ℕ) (out : Outcome)
  | leave (n : ℕ)
  | signal (n : ℕ)
  | close (n : ℕ)
  | drain (n : ℕ)
  deriving DecidableEq, Repr

namespace Client

def setCall (c : Client) (k : ℕ) (s : Stage) : Client :=
  { c with calls := Function.update c.calls k s }

def setConn (c : Client) (n : ℕ) (x : Conn) : Client :=
  { c with conns := Function.update c.conns n x }

def setLife (c : Client) (n : ℕ) (x : Life) : Client :=
  { c with lives := Function.update c.lives n x }

/-- SOURCE: conn.go:494-501 -/
def signalDown (c : Client) (n : ℕ) : Client := c.setLife n { c.lives n with dying := true }

/-- The writer answers those of some calls that wait.
SOURCE: conn.go:934-940, 1045-1053, 1074-1080 -/
def answer (c : Client) (ks : List ℕ) (err : Option PublishError) : Client :=
  { c with answers := fun k => if c.cfg.waitForFlush ∧ k ∈ ks then some err else c.answers k }

/-- The connection's span has ended. -/
def spanEnded (c : Client) (n : ℕ) : Bool := c.ended (c.lives n).span

/-- SOURCE: client.go:262-270 -/
def closedErr (c : Client) (span : ℕ) : PublishError := .closed (c.causes span)

/-- `send` returns: `admit` is released.
SOURCE: conn.go:225-238 -/
def release (c : Client) (k n : ℕ) (s : Stage) : Client :=
  (c.setConn n { c.conns n with senders := (c.conns n).senders.erase k }).setCall k s

/-- The events of connections and of the client's span. -/
def stepLife (c : Client) : Event → Option Client
  | .connect => if c.cur = none then
      some { c.setLife c.count { span := c.span } with cur := some c.count, count := c.count + 1 }
    else none
  | .resume n => some (c.setLife n { c.lives n with resumed := true })
  | .down n => some (c.signalDown n)
  | .clear => some { c with cur := none }
  | .finishSpan wraps => if c.ended c.span then none else
      some { c with
        ended := Function.update c.ended c.span true
        causes := Function.update c.causes c.span wraps }
  | .startSpan => if c.ended c.span then some { c with span := c.span + 1 } else none
  | _ => none

/-- The moves of a Publish call up to its packet's place in the write order. From `ready` a call
goes on as its QoS says, which is not kept: both ways are open to every call.
SOURCE: publish.go:46-121, 190-267, conn.go:203-263, 281-298 -/
def stepCall (c : Client) : Event → Option Client
  | .call k => if c.calls k = .idle then some (c.setCall k .connecting) else none
  | .found k => match c.calls k, c.cur with
    | .connecting, some n => if (c.lives n).resumed then some (c.setCall k (.ready n)) else none
    | _, _ => none
  | .noConnection k => if c.calls k = .connecting ∧ (c.cur = none ∨ c.ended c.span = true ∨
        c.cur.any (fun n => (c.lives n).dying || c.spanEnded n) = true) then
      some (c.setCall k (.returned (some .notConnected))) else none
  | .cancel k => match c.calls k with
    | .connecting => some (c.setCall k (.returned (some .context)))
    | .ready _ => some (c.setCall k (.returned (some .context)))
    | .sending n => if c.cfg.block then some (c.release k n (.returned (some .context))) else none
    | .awaiting _ => some (c.setCall k (.returned (some .context)))
    -- Withdraw, if it removes the flow, is `forget`.
    | .registered => some (c.setCall k (.returned (some .context)))
    | _ => none
  | .refuse k => match c.calls k with
    | .ready _ => some (c.setCall k (.returned (some .invalid)))
    | _ => none
  | .aliasLost k => match c.calls k with
    | .ready n => if (c.lives n).dying then some (c.setCall k (.returned (some .notConnected)))
      else none
    | _ => none
  | .direct k how => match c.calls k with
    | .ready n =>
      if c.cfg.waitForFlush ∧ (c.conns n).writer.locks = false ∧ (c.conns n).rest = [] ∧
          (c.lives n).dying = false then
        match how with
        | .ok => some ((c.setConn n { c.conns n with written := k ::
          (c.conns n).written }).setCall k
            (.returned none))
        | .failed started wraps => some (((c.setConn n { c.conns n with
            written := if started then k :: (c.conns n).written else
              (c.conns n).written }).signalDown
              n).setCall k (.returned (some (.write wraps))))
        | .cancelled => some (c.setCall k (.returned (some .context)))
        | .interrupted => some ((c.setConn n { c.conns n with
            written := k :: (c.conns n).written, rest := [k] }).setCall k
              (.returned (some .context)))
      else none
    | _ => none
  | .admitted k => match c.calls k with
    | .ready n => if (c.conns n).closed then some (c.setCall k (.returned (some .notConnected)))
      else some ((c.setConn n { c.conns n with senders := k :: (c.conns n).senders }).setCall k
        (.sending n))
    | _ => none
  | .push k => match c.calls k with
    | .sending n => if (c.conns n).queue.length < c.cfg.capacity then
        some ((c.setConn n { c.conns n with
          queue := (c.conns n).queue ++ [.pkt k]
          senders := (c.conns n).senders.erase k }).setCall k
            (if c.cfg.waitForFlush then .awaiting n else .returned none))
      else none
    | _ => none
  | .sendFails k => match c.calls k with
    | .sending n =>
      if (c.lives n).dying then some (c.release k n (.returned (some .notConnected)))
      else if c.spanEnded n then some (c.release k n
        (.returned (some (c.closedErr (c.lives n).span))))
      else none
    | _ => none
  | .full k => match c.calls k with
    | .sending n => if c.cfg.block = false ∧ c.cfg.capacity ≤ (c.conns n).queue.length ∧
          (c.lives n).dying = false ∧ c.spanEnded n = false then
        some (c.release k n (.returned (some .writeQueueFull)))
      else none
    | _ => none
  | _ => none

/-- The waits of a Publish call, and the session's part in it.
SOURCE: publish.go:286-356, conn.go:1096-1116 -/
def stepWait (c : Client) : Event → Option Client
  | .answered k => match c.calls k, c.answers k with
    | .awaiting _, some err => some (c.setCall k (.returned err))
    | _, _ => none
  | .sawDown k => match c.calls k with
    | .awaiting n => if (c.lives n).dying then some (c.setCall k (.outliving n)) else none
    | _ => none
  | .cut k span => match c.calls k with
    | .awaiting n => if (c.lives n).span = span ∧ c.ended span = true then
        some (c.setCall k (.returned (some (c.closedErr span)))) else none
    -- The span is the one the call read when it registered, which another may have followed.
    | .registered => if c.ended span then
        some (c.setCall k (.returned (some (c.closedErr span)))) else none
    | _ => none
  | .resolve k => match c.calls k with
    | .outliving n => if (c.conns n).writer = .done then
        some (c.setCall k (.returned ((c.answers k).getD (some .notConnected)))) else none
    | _ => none
  | .register k => match c.calls k with
    | .ready _ => some ({ c with flows := k :: c.flows }.setCall k .registered)
    | _ => none
  | .registerFails k err kept => match c.calls k with
    -- A record that was kept is a flow once the session is restored.
    | .ready _ => some ({ c with flows := if kept then k :: c.flows else c.flows }.setCall k
        (.returned (some err)))
    | _ => none
  | .finish k how => match c.calls k with
    | .registered => some (c.setCall k (.returned how.err))
    | _ => none
  | .forget k => some { c with flows := c.flows.erase k }
  | _ => none

/-- The engine's packets written on a caller's goroutine, and requests of other kinds.
SOURCE: conn.go:182-197, 303-320 -/
def stepOther (c : Client) : Event → Option Client
  | .other n r => if (c.conns n).closed = false ∧ r.calls = [] then
      some (c.setConn n { c.conns n with queue := (c.conns n).queue ++ [r] }) else none
  | .ordered n sent how =>
    if (∀ k ∈ sent, k ∈ c.flows) ∧ (c.conns n).writer.locks = false ∧ (c.conns n).rest = [] ∧
        (c.lives n).dying = false then
      let x := { c.conns n with written := sent ++ (c.conns n).written }
      match how with
      | .ok => some (c.setConn n x)
      | .failed _ _ => some ((c.setConn n x).signalDown n)
      | .cancelled => none
      | .interrupted => some (c.setConn n { x with rest := sent })
    else none
  | _ => none

/-- The moves of a connection's writer.
SOURCE: conn.go:464-475, 907-1086 -/
def stepWriter (c : Client) : Event → Option Client
  | .take n => match (c.conns n).writer, (c.conns n).queue with
    | .waiting, r :: queue => if (c.conns n).rest = [] then
        some (c.setConn n { c.conns n with
          queue
          writer := match r with
            | .pkt k => .batching [k] false
            | _ => .single })
      else none
    | .batching taken false, r :: queue => if taken.length < c.cfg.batchMax then
        some (c.setConn n { c.conns n with
          queue
          writer := match r with
            | .pkt k => .batching (taken ++ [k]) false
            | _ => .batching taken true })
      else none
    | _, _ => none
  | .flush n out => match (c.conns n).writer with
    | .batching taken next => match out with
      | .ok => some ((c.setConn n { c.conns n with
          written := taken ++ (c.conns n).written
          writer := if next then .single else .waiting }).answer taken none)
      | .failed part wraps => if ∀ k ∈ part, k ∈ taken then
          some ((c.setConn n { c.conns n with
            written := part ++ (c.conns n).written
            writer := .leaving }).answer taken (some (.write wraps)))
        else none
    | _ => none
  | .writeRest n taken out => if (c.conns n).writer = .waiting ∧ (c.conns n).rest ≠ [] then
      let x := { c.conns n with rest := [], written := (c.conns n).rest ++ (c.conns n).written }
      match out with
      | .ok => some (c.setConn n x)
      -- The request taken with it fails.
      | .failed _ wraps => match taken, (c.conns n).queue with
        | true, r :: queue => some ((c.setConn n { x with queue, writer := .leaving }).answer
            r.calls (some (.write wraps)))
        | _, _ => some (c.setConn n { x with writer := .leaving })
    else none
  | .engine n sent out =>
    if (∀ k ∈ sent, k ∈ c.flows) ∧
        ((c.conns n).writer = .single ∨ (c.conns n).writer = .waiting ∧ (c.conns n).rest = []) then
      some (c.setConn n { c.conns n with
        written := sent ++ (c.conns n).written
        writer := if out = .ok then .waiting else .leaving })
    else none
  | .leave n => if (c.conns n).writer = .waiting ∧ ((c.lives n).dying = true ∨ c.spanEnded n = true)
      then some (c.setConn n { c.conns n with writer := .leaving }) else none
  | .signal n => if (c.conns n).writer = .leaving then
      some ((c.setConn n { c.conns n with writer := .closing }).signalDown n) else none
  | .close n => if (c.conns n).writer = .closing ∧ (c.conns n).senders = [] then
      some (c.setConn n { c.conns n with closed := true, rest := [], writer := .draining })
    else none
  | .drain n => if (c.conns n).writer = .draining then
      match (c.conns n).queue with
      | r :: queue => some ((c.setConn n { c.conns n with queue }).answer r.calls
          (some .notConnected))
      | [] => some (c.setConn n { c.conns n with writer := .done })
    else none
  | _ => none

/-- One move. -/
def step (c : Client) (ev : Event) : Option Client :=
  (c.stepLife ev).or ((c.stepCall ev).or ((c.stepWait ev).or
    ((c.stepOther ev).or (c.stepWriter ev))))

end Client

/-! ### One client after another -/

/-- The numbers below `n` from `start` on, as both loops count.
SOURCE: publish.go:617-621, client_group.go:446-449 -/
def rotation (start : UInt64) (n : ℕ) : List ℕ :=
  (List.range n).map fun i => (start + .ofNat i).toNat % n

/-- A client, by the number of its own connection's client, and the members of its publisher pool,
if it has one. -/
structure Pooled where
  members : List ℕ
  main : ℕ
  deriving DecidableEq, Repr

/-- The clients a Publish tries: the members of the pool, then the main connection.
SOURCE: publish.go:50-57, 606-631 -/
def Pooled.targets (p : Pooled) (start : UInt64) : List ℕ :=
  (rotation start p.members.length).filterMap (p.members[·]?) ++ [p.main]

/-- The clients a ClientGroup tries, each with its pool.
SOURCE: client_group.go:443-461 -/
def groupTargets (g : List Pooled) (start : UInt64) (starts : ℕ → UInt64) : List ℕ :=
  (rotation start g.length).flatMap fun i =>
    (g[i]?.map fun p => p.targets (starts i)).getD []

/-- A Publish of a group: the clients it tries, and the number of the attempt it is at. Attempt `a`
is call `a` of its client; other Publish calls on the clients have numbers from
`targets.length` on. -/
structure Group where
  clients : ℕ → Client
  targets : List ℕ
  attempt : ℕ := 0

inductive GroupEvent
  /-- A move of a client, its connections and its other callers. -/
  | client (i : ℕ) (ev : Event)
  /-- Publish is called on the next client. -/
  | attempt
  /-- It has returned an error that `notSent` accepts. -/
  | moveOn
  /-- A group could not make the options for a client. SOURCE: client_group.go:451-458 -/
  | skip
  deriving DecidableEq, Repr

/-- The event is a call with the number of an attempt. -/
def Group.reserved (s : Group) : Event → Bool
  | .call k => k < s.targets.length
  | _ => false

/-- A client of the group makes a move. -/
def Group.stepClient (s : Group) (i : ℕ) (ev : Event) : Option Group :=
  ((s.clients i).step ev).map fun c => { s with clients := Function.update s.clients i c }

/-- SOURCE: publish.go:606-631, client_group.go:443-461 -/
def Group.step (s : Group) : GroupEvent → Option Group
  | .client i ev => if s.reserved ev then none else s.stepClient i ev
  | .attempt => s.targets[s.attempt]?.bind fun i => s.stepClient i (.call s.attempt)
  | .moveOn => s.targets[s.attempt]?.bind fun i => match (s.clients i).calls s.attempt with
    | .returned err => if notSent err then some { s with attempt := s.attempt + 1 } else none
    | _ => none
  | .skip => s.targets[s.attempt]?.bind fun i =>
      if (s.clients i).calls s.attempt = .idle then some { s with attempt := s.attempt + 1 }
      else none

end Mqttv5.Program.Publishing
