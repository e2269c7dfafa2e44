import Mqttv5.Program.FileDB
import Mqttv5.Program.Wire.Codec

/-!
# The file queue

queue/file/queue.go over its three buckets: entries under their Seqs, the last Seq and the count
in the meta bucket, and the values found corrupt in quarantine. A function given to `Update` is
one atomic change of the buckets. Contexts do not end, and the database itself does not fail.
-/

set_option autoImplicit false

namespace Mqttv5.Program.FileQueue

open Mqttv5.Computation
open Model (Bytes Time)
open Model.Wire
open Program.Wire (Decoder marshalPublish readPacket Publish.opts)

/-! ### Messages -/

/-- SOURCE: types.go:104-122 -/
structure PublishOptions where
  topic : Bytes
  payload : Bytes
  qos : UInt8
  retain : Bool
  payloadFormatIndicator : Option UInt8
  messageExpiryInterval : Option UInt32
  contentType : Bytes
  responseTopic : Bytes
  correlationData : Option Bytes
  topicAlias : UInt16
  userProperties : List UserProperty
  deriving DecidableEq, Repr

/-- SOURCE: types.go:127-135; the packet identifier is set by the caller. -/
def PublishOptions.wire (o : PublishOptions) (packetID : UInt16) : PublishOpts where
  topic := o.topic
  payload := o.payload
  qos := o.qos
  retain := o.retain
  dup := false
  packetID := packetID
  payloadFormatIndicator := o.payloadFormatIndicator
  messageExpiryInterval := o.messageExpiryInterval
  contentType := o.contentType
  responseTopic := o.responseTopic
  correlationData := o.correlationData
  topicAlias := o.topicAlias
  userProperties := o.userProperties

/-- SOURCE: types.go:139-146 -/
def publishOptionsOf (w : PublishOpts) : PublishOptions where
  topic := w.topic
  payload := w.payload
  qos := w.qos
  retain := w.retain
  payloadFormatIndicator := w.payloadFormatIndicator
  messageExpiryInterval := w.messageExpiryInterval
  contentType := w.contentType
  responseTopic := w.responseTopic
  correlationData := w.correlationData
  topicAlias := w.topicAlias
  userProperties := w.userProperties

/-- `MarshalPublish` writes into a new buffer, whose bytes are zero until they are written.
SOURCE: types.go:151-155 -/
def encodePublish (o : PublishOptions) (id : UInt16) : Except Failure Bytes :=
  (marshalPublish (o.wire id)).map fun cells => cells.map (·.getD 0)

/-- A decoder over the bytes of a frame, which a `bytes.Reader` returns in one read.
SOURCE: types.go:161, wire/codec.go:159-161 -/
def frameDecoder (frame : Bytes) : Decoder where
  br := ⟨512, [], if h : frame = [] then [] else [⟨frame, h⟩], by decide⟩
  maxPacket := 0
  lenient := false

/-- `Type` of a packet. -/
def packetType : Packet → PacketType
  | .connect _ => .CONNECT
  | .connack _ => .CONNACK
  | .publish _ => .PUBLISH
  | .pubResp p => p.pktType
  | .subscribe _ => .SUBSCRIBE
  | .suback _ => .SUBACK
  | .unsubscribe _ => .UNSUBSCRIBE
  | .unsuback _ => .UNSUBACK
  | .pingreq => .PINGREQ
  | .pingresp => .PINGRESP
  | .disconnect _ => .DISCONNECT
  | .auth _ => .AUTH

/-- SOURCE: types.go:160-172 -/
def decodePublish (frame : Bytes) : Except Err (PublishOptions × UInt16) :=
  match (readPacket (frameDecoder frame)).1 with
  | .error err => .error err
  | .ok (.publish p) => .ok (publishOptionsOf (Publish.opts p), (Publish.opts p).packetID)
  | .ok p => .error (.text "mqttv5: frame holds %s, not PUBLISH" [.packetType (packetType p)])

/-! ### The encoding of an entry -/

/-- An entry; a time is an instant in nanoseconds.
SOURCE: queue_publisher.go:584-606 -/
structure QueueEntry where
  seq : UInt64 := 0
  id : Bytes
  publish : PublishOptions
  enqueuedAt : Option Time := none
  expiresAt : Option Time := none
  deriving DecidableEq, Repr

/-- Why an entry cannot be stored. -/
inductive EncodeError
  | id (len : ℕ)
  | publish (err : Failure)
  deriving DecidableEq, Repr

/-- Why a stored entry cannot be read. -/
inductive EntryError
  | key (k : Bytes)
  | value (err : CorruptValue)
  | publish (err : Err)
  deriving DecidableEq, Repr

/-- SOURCE: queue/file/queue.go:407 -/
def entryVersion : UInt8 := 1

/-- SOURCE: queue/file/queue.go:409-412, 422-428 -/
def flags (enqueued expires : Bool) : UInt8 :=
  (if enqueued then 1 else 0) ||| (if expires then 2 else 0)

/-- SOURCE: queue/file/queue.go:431-436 -/
def timeBytes : Option Time → Bytes
  | some t => bigEndian 8 (unixNano t)
  | none => []

/-- SOURCE: queue/file/queue.go:414-440 -/
def encodeEntry (e : QueueEntry) : Except EncodeError Bytes :=
  if 255 < e.id.length then .error (.id e.id.length)
  else match encodePublish e.publish 1 with
    | .error err => .error (.publish err)
    | .ok frame => .ok (sealValue ([entryVersion, flags e.enqueuedAt.isSome e.expiresAt.isSome] ++
        (timeBytes e.enqueuedAt ++ (timeBytes e.expiresAt ++
          ((.ofNat e.id.length :: e.id) ++ frame)))))

/-- The identifier, behind its length.
SOURCE: queue/file/queue.go:469-472 -/
def idField : Bytes → Except CorruptValue (Bytes × Bytes)
  | [] => .error (.truncated "id")
  | n :: rest =>
    if rest.length < n.toNat then .error (.truncated "id")
    else .ok (rest.take n.toNat, rest.drop n.toNat)

/-- What precedes the PUBLISH packet in the body of a value.
SOURCE: queue/file/queue.go:446-472 -/
def decodeHeader (v : Bytes) :
    Except CorruptValue (Option Time × Option Time × Bytes × Bytes) := do
  let body ← unsealValue v
  if body.length < 3 ∨ body.getD 0 0 ≠ entryVersion then
    throw (.layout body.head? body.length)
  let fl := body.getD 1 0
  let (enqueued, rest) ← optionalField (fl &&& 1 ≠ 0) 8 "time" (body.drop 2)
  let (expires, rest) ← optionalField (fl &&& 2 ≠ 0) 8 "time" rest
  let (id, rest) ← idField rest
  return (enqueued.map fun b => ofUnixNano (ofBigEndian b),
    expires.map fun b => ofUnixNano (ofBigEndian b), id, rest)

/-- SOURCE: queue/file/queue.go:442-476 -/
def decodeEntry (k v : Bytes) : Except EntryError QueueEntry :=
  if k.length ≠ 8 then .error (.key k)
  else match decodeHeader v with
    | .error err => .error (.value err)
    | .ok (enqueuedAt, expiresAt, id, rest) => match decodePublish rest with
      | .error err => .error (.publish err)
      | .ok (publish, _) =>
        .ok { seq := .ofNat (ofBigEndian k), id, publish, enqueuedAt, expiresAt }

/-! ### The queue -/

/-- SOURCE: options.go:1174-1185 -/
inductive DropPolicy
  | dropNewest
  | dropOldest
  deriving DecidableEq, Repr

/-- SOURCE: queue_publisher.go:615-626 -/
structure QueueLimit where
  max : ℤ := 0
  policy : DropPolicy := .dropNewest
  keep : UInt64 := 0
  deriving DecidableEq, Repr

/-- SOURCE: queue/file/queue.go:330-334 -/
structure CorruptEntry where
  seq : UInt64
  err : EntryError
  value : Bytes
  deriving DecidableEq, Repr

/-- The buckets of the database, and what the open queue keeps in memory.
SOURCE: queue/file/queue.go:122-131 -/
structure Queue where
  metaData : Bucket := ∅
  entries : Bucket := ∅
  quarantine : Bucket := ∅
  count : ℤ := 0
  closed : Bool := false
  corrupt : List (UInt64 × EntryError) := []

/-- What an operation of the queue fails with; bbolt refuses a value that is too large. -/
inductive QueueError
  | closed
  | encode (err : EncodeError)
  | full
  | valueTooLarge
  deriving DecidableEq, Repr

/-- The largest value bbolt stores. -/
def maxValueSize : ℕ := 2 ^ 31 - 2

/-- SOURCE: queue/file/queue.go:114-115 -/
def keyNext : Bytes := [0x6E, 0x65, 0x78, 0x74]

def keyCount : Bytes := [0x63, 0x6F, 0x75, 0x6E, 0x74]

/-- SOURCE: queue/file/queue.go:381 -/
def seqKey (seq : UInt64) : Bytes := bigEndian 8 seq.toNat

/-- SOURCE: queue/file/queue.go:383-388 -/
def getUint (b : Bucket) (k : Bytes) : UInt64 :=
  match FiniteMap.get b k with
  | some v => if v.length = 8 then .ofNat (ofBigEndian v) else 0
  | none => 0

/-- SOURCE: queue/file/queue.go:390-392 -/
def putUint (b : Bucket) (k : Bytes) (v : UInt64) : Bucket :=
  FiniteMap.set b k (bigEndian 8 v.toNat)

/-- What a cursor visits from `Seek` on. -/
def seek (b : Bucket) (k : Bytes) : List (Bytes × Bytes) := b.entries.filter fun x => k ≤ x.1

/-- What is wrong with a stored pair, if anything is. -/
def corruptOf (x : Bytes × Bytes) : Option CorruptEntry :=
  match decodeEntry x.1 x.2 with
  | .error err => some ⟨.ofNat (ofBigEndian x.1), err, x.2⟩
  | .ok _ => none

/-- The entry of a stored pair, if it can be read. -/
def entryOf (x : Bytes × Bytes) : Option QueueEntry := (decodeEntry x.1 x.2).toOption

namespace Queue

/-- The end of the transaction of an Enqueue: the value is put under the next Seq. `removed` are
the pairs evicted before.
SOURCE: queue/file/queue.go:207-219, 222-231 -/
def insert (q : Queue) (v : Bytes) (removed : List (Bytes × Bytes)) :
    Except QueueError (Queue × UInt64 × List QueueEntry) :=
  let bad := removed.filterMap corruptOf
  let seq := getUint q.metaData keyNext + 1
  let count := getUint q.metaData keyCount - .ofNat removed.length
  if maxValueSize < v.length then .error .valueTooLarge
  else .ok
    ({ q with
        entries := FiniteMap.set q.entries (seqKey seq) v
        metaData := putUint (putUint q.metaData keyNext seq) keyCount (count + 1)
        count := q.count - removed.length + 1
        corrupt := q.corrupt ++ bad.map fun b => (b.seq, b.err) },
      seq, removed.filterMap entryOf)

/-- The removal of the victims: the corrupt ones are put in quarantine.
SOURCE: queue/file/queue.go:195-206 -/
def evict (q : Queue) (victims : List (Bytes × Bytes)) : Queue :=
  { q with
    quarantine := (victims.filterMap corruptOf).foldl
      (fun b x => FiniteMap.set b (seqKey x.seq) x.value) q.quarantine
    entries := (victims.map Prod.fst).foldl (fun b k => FiniteMap.del b k) q.entries }

/-- The transaction of an Enqueue.
SOURCE: queue/file/queue.go:177-220 -/
def enqueueTx (q : Queue) (v : Bytes) (limit : QueueLimit) :
    Except QueueError (Queue × UInt64 × List QueueEntry) :=
  let maxCount := limit.max.toNat
  let count := (getUint q.metaData keyCount).toNat
  if 0 < maxCount ∧ maxCount ≤ count then
    if limit.policy ≠ .dropOldest then .error .full
    else
      let need := count - maxCount + 1
      let victims := (seek q.entries (seqKey (limit.keep + 1))).take need
      if victims.length < need then .error .full
      else (q.evict victims).insert v victims
  else q.insert v []

/-- SOURCE: queue/file/queue.go:168-242 -/
def enqueue (q : Queue) (e : QueueEntry) (limit : QueueLimit) :
    Except QueueError (Queue × UInt64 × List QueueEntry) :=
  if q.closed then .error .closed
  else match encodeEntry e with
    | .error err => .error (.encode err)
    | .ok v => q.enqueueTx v limit

/-- The pairs a Peek visits: the entries it returns, and what it finds corrupt on the way.
SOURCE: queue/file/queue.go:246-256 -/
def scan : ℕ → List (Bytes × Bytes) → List QueueEntry × List CorruptEntry
  | 0, _ => ([], [])
  | _, [] => ([], [])
  | n + 1, x :: rest => match decodeEntry x.1 x.2 with
    | .error err =>
      let (out, bad) := scan (n + 1) rest
      (out, ⟨.ofNat (ofBigEndian x.1), err, x.2⟩ :: bad)
    | .ok e =>
      let (out, bad) := scan n rest
      (e :: out, bad)

/-- One corrupt entry is moved, unless it has gone since it was found.
SOURCE: queue/file/queue.go:342-354 -/
def move (s : Bucket × Bucket × ℕ) (b : CorruptEntry) : Bucket × Bucket × ℕ :=
  let (entries, quarantine, moved) := s
  if FiniteMap.get entries (seqKey b.seq) = none then s
  else (FiniteMap.del entries (seqKey b.seq), FiniteMap.set quarantine (seqKey b.seq) b.value,
    moved + 1)

/-- SOURCE: queue/file/queue.go:336-363 -/
def quarantineAll (q : Queue) (bad : List CorruptEntry) : Queue :=
  let (entries, quarantine, moved) := bad.foldl move (q.entries, q.quarantine, 0)
  { q with
    entries, quarantine
    metaData := putUint q.metaData keyCount (getUint q.metaData keyCount - .ofNat moved)
    count := q.count - moved
    corrupt := q.corrupt ++ bad.map fun b => (b.seq, b.err) }

/-- SOURCE: queue/file/queue.go:245-277 -/
def peek (q : Queue) (after : UInt64) (n : ℤ) : Except QueueError (Queue × List QueueEntry) :=
  if q.closed then .error .closed
  else
    let (out, bad) := scan n.toNat (seek q.entries (seqKey (after + 1)))
    .ok (if bad = [] then q else q.quarantineAll bad, out)

/-- SOURCE: queue/file/queue.go:280-306 -/
def ack (q : Queue) (seq : UInt64) : Except QueueError Queue :=
  if q.closed then .error .closed
  else if FiniteMap.get q.entries (seqKey seq) = none then .ok q
  else .ok
    { q with
      entries := FiniteMap.del q.entries (seqKey seq)
      metaData := putUint q.metaData keyCount (max (getUint q.metaData keyCount) 1 - 1)
      count := q.count - 1 }

/-- SOURCE: queue/file/queue.go:309-314 -/
def len (q : Queue) : Except QueueError ℤ := if q.closed then .error .closed else .ok q.count

/-- SOURCE: queue/file/queue.go:318-321 -/
def close (q : Queue) : Queue := { q with closed := true }

/-- `Open`, on the database the queue has left.
SOURCE: queue/file/queue.go:133-153 -/
def reopen (q : Queue) : Queue :=
  { metaData := q.metaData, entries := q.entries, quarantine := q.quarantine
    count := (getUint q.metaData keyCount).toNat }

/-- A stored value is damaged. -/
def damage (q : Queue) (seq : UInt64) (v : Bytes) : Queue :=
  if FiniteMap.get q.entries (seqKey seq) = none then q
  else { q with entries := FiniteMap.set q.entries (seqKey seq) v }

end Queue

end Mqttv5.Program.FileQueue
