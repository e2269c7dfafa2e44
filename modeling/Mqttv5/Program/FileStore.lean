import Mqttv5.Program.FileDB

/-!
# The two session stores

The file store (store/file/store.go) and the memory store (session/store.go) over the records
as the Go types have them: a direction and a phase are bytes of any value, a reference may be nil
or empty, and a client identifier is a byte string. The session model's own `MemoryStore` holds
the records the engine writes, whose directions and phases are the defined ones.
-/

set_option autoImplicit false

namespace Mqttv5.Program.FileStore

open Mqttv5.Computation Model

/-- SOURCE: session/store.go:117-122 -/
structure Key where
  dir : UInt8
  packetID : UInt16
  deriving DecidableEq, Repr

/-- SOURCE: session/store.go:51-59 -/
def outbound : UInt8 := 1

def inbound : UInt8 := 2

/-- A record; a time is an instant in nanoseconds, and a nil packet is the empty one.
SOURCE: session/store.go:124-166 -/
structure Rec where
  key : Key
  seq : UInt64 := 0
  pubrecSeq : UInt64 := 0
  outcome : UInt8 := 0
  qos : UInt8
  phase : UInt8
  packet : Bytes := []
  expiresAt : Option Time := none
  ref : Option Bytes := none
  deriving DecidableEq, Repr

/-- SOURCE: session/store.go:185-194 -/
structure Meta where
  clientID : Bytes := []
  sessionExpiry : UInt32 := 0
  deriving DecidableEq, Repr

/-- SOURCE: session/store.go:106-115 -/
def phaseValid (phase dir : UInt8) : Bool :=
  if dir = outbound then phase = 1 ∨ phase = 2 ∨ phase = 3 ∨ phase = 5
  else if dir = inbound then phase = 4
  else false

/-- SOURCE: session/store.go:168-184 -/
inductive Invalid
  | phase (phase dir : UInt8)
  | ref (len : ℕ)
  deriving DecidableEq, Repr

/-- SOURCE: session/store.go:174-182 -/
def validate (r : Rec) : Option Invalid :=
  if ¬ phaseValid r.phase r.key.dir then some (.phase r.phase r.key.dir)
  else if 255 < (r.ref.getD []).length then some (.ref (r.ref.getD []).length)
  else none

/-- The order of the records `Load` returns.
SOURCE: session/store.go:260-268, store/file/store.go:189-197 -/
def loadsBefore (a b : Rec) : Prop :=
  a.key.dir < b.key.dir ∨ a.key.dir = b.key.dir ∧
    if a.key.dir = outbound then a.seq ≤ b.seq else a.key.packetID ≤ b.key.packetID

instance : DecidableRel loadsBefore := fun a b => by
  unfold loadsBefore
  infer_instance

/-! ### The memory store -/

/-- SOURCE: session/store.go:236-241 -/
structure Memory where
  metaData : Meta := {}
  records : FiniteMap Key Rec := ∅

namespace Memory

/-- SOURCE: session/store.go:267-280 -/
def put (s : Memory) (r : Rec) : Except Invalid Memory :=
  match validate r with
  | some err => .error err
  | none => .ok { s with records := s.records.set r.key r }

/-- SOURCE: session/store.go:283-291 -/
def delete (s : Memory) (k : Key) : Memory := { s with records := s.records.del k }

/-- SOURCE: session/store.go:294-302 -/
def setMeta (s : Memory) (m : Meta) : Memory := { s with metaData := m }

/-- SOURCE: session/store.go:305-314 -/
def reset (_ : Memory) : Memory := {}

/-- SOURCE: session/store.go:242-264 -/
def load (s : Memory) : Meta × List Rec := (s.metaData, s.records.vals.insertionSort loadsBefore)

end Memory

/-! ### The encoding of a record -/

/-- SOURCE: store/file/store.go:270 -/
def recordVersion : UInt8 := 1

/-- SOURCE: store/file/store.go:275-280, 284-295 -/
def flags (expires ref pubrecSeq outcome : Bool) : UInt8 :=
  (if expires then 1 else 0) ||| (if ref then 2 else 0) ||| (if pubrecSeq then 4 else 0) |||
    (if outcome then 8 else 0)

/-- The fields a flag stands for, each empty when its flag is not set.
SOURCE: store/file/store.go:298-309 -/
def pubrecSeqBytes (r : Rec) : Bytes :=
  if r.pubrecSeq ≠ 0 then bigEndian 8 r.pubrecSeq.toNat else []

def outcomeBytes (r : Rec) : Bytes := if r.outcome ≠ 0 then [r.outcome] else []

def expiresBytes (r : Rec) : Bytes :=
  match r.expiresAt with
  | some t => bigEndian 8 (unixNano t)
  | none => []

def refBytes (r : Rec) : Bytes :=
  match r.ref with
  | some ref => .ofNat ref.length :: ref
  | none => []

/-- SOURCE: store/file/store.go:279-310 -/
def encodeRecord (r : Rec) : Bytes :=
  sealValue ([recordVersion, r.qos, r.phase,
      flags r.expiresAt.isSome r.ref.isSome (r.pubrecSeq ≠ 0) (r.outcome ≠ 0)] ++
    (bigEndian 8 r.seq.toNat ++
      (pubrecSeqBytes r ++ (outcomeBytes r ++ (expiresBytes r ++ (refBytes r ++ r.packet))))))

/-- The reference, behind its length.
SOURCE: store/file/store.go:346-352 -/
def refField (present : Bool) (rest : Bytes) : Except CorruptValue (Option Bytes × Bytes) :=
  if ¬ present then .ok (none, rest)
  else match rest with
    | [] => .error (.truncated "ref")
    | n :: rest =>
      if rest.length < n.toNat then .error (.truncated "ref")
      else .ok (some (rest.take n.toNat), rest.drop n.toNat)

/-- SOURCE: store/file/store.go:312-354. The key is that of the bucket. -/
def decodeRecord (key : Key) (v : Bytes) : Except CorruptValue Rec := do
  let body ← unsealValue v
  if body.length < 12 ∨ body.getD 0 0 ≠ recordVersion then
    throw (.layout body.head? body.length)
  let fl := body.getD 3 0
  let (pubrecSeq, rest) ← optionalField (fl &&& 4 ≠ 0) 8 "pubrec seq" (body.drop 12)
  let (outcome, rest) ← optionalField (fl &&& 8 ≠ 0) 1 "outcome" rest
  let (expires, rest) ← optionalField (fl &&& 1 ≠ 0) 8 "expiry" rest
  let (ref, rest) ← refField (fl &&& 2 ≠ 0) rest
  return {
    key := key
    qos := body.getD 1 0
    phase := body.getD 2 0
    seq := .ofNat (ofBigEndian ((body.drop 4).take 8))
    pubrecSeq := .ofNat (ofBigEndian (pubrecSeq.getD []))
    outcome := (outcome.getD []).headD 0
    expiresAt := expires.map fun b => ofUnixNano (ofBigEndian b)
    ref := ref
    packet := rest }

/-- SOURCE: store/file/store.go:358-364 -/
def encodeMeta (m : Meta) : Bytes :=
  sealValue ([recordVersion] ++ (bigEndian 4 m.sessionExpiry.toNat ++ m.clientID))

/-- SOURCE: store/file/store.go:366-375 -/
def decodeMeta (v : Bytes) : Except CorruptValue Meta := do
  let body ← unsealValue v
  if body.length < 5 ∨ body.getD 0 0 ≠ recordVersion then
    throw (.layout body.head? body.length)
  return {
    sessionExpiry := .ofNat (ofBigEndian ((body.drop 1).take 4))
    clientID := body.drop 5 }

/-! ### The file store -/

/-- What `Load` reports as corrupt.
SOURCE: store/file/store.go:162-182 -/
inductive Corrupt
  | metaData (err : CorruptValue)
  | key (k : Bytes)
  | record (key : Key) (err : CorruptValue)
  deriving DecidableEq, Repr

/-- The buckets of the database, and what the last `Load` skipped. The meta bucket has one key.
SOURCE: store/file/store.go:114-119 -/
structure Store where
  metaBucket : Option Bytes := none
  out : Bucket := ∅
  inn : Bucket := ∅
  corrupt : List Corrupt := []

/-- SOURCE: store/file/store.go:254 -/
def idKey (id : UInt16) : Bytes := bigEndian 2 id.toNat

namespace Store

/-- The bucket of a direction: anything but inbound is outbound.
SOURCE: store/file/store.go:247-252 -/
def bucketFor (s : Store) (dir : UInt8) : Bucket := if dir = inbound then s.inn else s.out

/-- A transaction on the bucket of a direction. -/
def update (s : Store) (dir : UInt8) (f : Bucket → Bucket) : Store :=
  if dir = inbound then { s with inn := f s.inn } else { s with out := f s.out }

/-- SOURCE: store/file/store.go:208-215 -/
def put (s : Store) (r : Rec) : Except Invalid Store :=
  match validate r with
  | some err => .error err
  | none => .ok (s.update r.key.dir fun b => b.set (idKey r.key.packetID) (encodeRecord r))

/-- SOURCE: store/file/store.go:218-221 -/
def delete (s : Store) (k : Key) : Store := s.update k.dir fun b => b.del (idKey k.packetID)

/-- SOURCE: store/file/store.go:224-227 -/
def setMeta (s : Store) (m : Meta) : Store := { s with metaBucket := some (encodeMeta m) }

/-- SOURCE: store/file/store.go:230-242 -/
def reset (s : Store) : Store := { s with metaBucket := none, out := ∅, inn := ∅ }

/-- One pair of a bucket: a record, or what is wrong with it.
SOURCE: store/file/store.go:168-181 -/
def loadPair (dir : UInt8) (x : Bytes × Bytes) : Except Corrupt Rec :=
  if x.1.length ≠ 2 then .error (.key x.1)
  else
    let key : Key := ⟨dir, .ofNat (ofBigEndian x.1)⟩
    match decodeRecord key x.2 with
    | .error err => .error (.record key err)
    | .ok r => .ok r

/-- The pairs of both buckets, outbound first.
SOURCE: store/file/store.go:166-186 -/
def pairs (s : Store) : List (Except Corrupt Rec) :=
  (s.out.entries.map (loadPair outbound)) ++ (s.inn.entries.map (loadPair inbound))

/-- SOURCE: store/file/store.go:158-165 -/
def loadMeta (s : Store) : Except CorruptValue Meta :=
  match s.metaBucket with
  | none => .ok {}
  | some v => decodeMeta v

/-- What is wrong with a pair, if anything is. -/
def corruptOf : Except Corrupt Rec → Option Corrupt
  | .error c => some c
  | .ok _ => none

/-- The records, what is corrupt, and the meta unless it is.
SOURCE: store/file/store.go:149-205 -/
def load (s : Store) : Store × Meta × List Rec :=
  let corruptMeta := match s.loadMeta with
    | .error err => [Corrupt.metaData err]
    | .ok _ => []
  let corrupt := s.pairs.filterMap corruptOf
  let recs := s.pairs.filterMap Except.toOption
  ({ s with corrupt := corruptMeta ++ corrupt },
    s.loadMeta.toOption.getD {}, recs.insertionSort loadsBefore)

/-- `Close` and `Open`: the database is as it was.
SOURCE: store/file/store.go:123-135, 242-243 -/
def reopen (s : Store) : Store := { s with corrupt := [] }

end Store

end Mqttv5.Program.FileStore
