import Mathlib.Data.Nat.Notation

/-!
# The group commit

internal/filedb/filedb.go: the `committer` that `Update` hands its writes to under
`SyncGroupCommit`. A database state is a value of `σ`, and a write transaction is a function of
it: bbolt's transactions are atomic and one at a time, and the functions read nothing else. The
events carry what the disk does (the error of a commit) and which goroutine moves.
-/

set_option autoImplicit false

namespace Mqttv5.Program

variable {σ ε : Type}

/-- The function of a write transaction: the state it makes, or the error it returns. -/
abbrev TxFn (σ ε : Type) := σ → Except ε σ

/-- SOURCE: filedb.go:196-199 -/
structure CommitOp (σ ε : Type) where
  no : ℕ
  fn : TxFn σ ε

/-- bbolt's `Update`: the function in a transaction of its own, rolled back when it returns an
error or when the commit fails. -/
def boltUpdate (fn : TxFn σ ε) (commit : Option ε) (db : σ) : σ × Option ε :=
  match fn db with
  | .error e => (db, some e)
  | .ok db' =>
    match commit with
    | none => (db', none)
    | some e => (db, some e)

/-- The function of the shared transaction, which stops at the first error.
SOURCE: filedb.go:229-236 -/
def runAll : List (CommitOp σ ε) → TxFn σ ε
  | [], db => .ok db
  | op :: rest, db =>
    match op.fn db with
    | .error e => .error e
    | .ok db' => runAll rest db'

/-- Where the committer is: there is none, one is about to be started, at the head of its loop,
before the shared transaction, answering the writes of a transaction that was committed, before
a write's own transaction, or before the answer to it. -/
inductive CommitterPC (σ ε : Type)
  | none
  | starting
  | loop
  | took (batch : List (CommitOp σ ε))
  | answering (rest : List (CommitOp σ ε))
  | alone (rest : List (CommitOp σ ε))
  | sending (op : CommitOp σ ε) (res : Option ε) (rest : List (CommitOp σ ε))

/-- The committer and its database. `queued`, `answers` and `failures` are what an observer notes:
every write in the order it was queued, the answers sent, with the numbers of the writes, and the
commits of writes' own transactions that the disk failed.
SOURCE: filedb.go:187-199 -/
structure Committer (σ ε : Type) where
  db : σ
  pending : List (CommitOp σ ε) := []
  running : Bool := false
  pc : CommitterPC σ ε := .none
  queued : List (CommitOp σ ε) := []
  answers : List (ℕ × Option ε) := []
  failures : List (ℕ × ε) := []

inductive CommitEvent (σ ε : Type)
  | update (fn : TxFn σ ε)
  | start
  | take
  | shared (commit : Option ε)
  | answer
  | alone (commit : Option ε)
  | send

/-- What follows the answer to a write of a batch: the next of them, or the next round. -/
def CommitterPC.after (pc : List (CommitOp σ ε) → CommitterPC σ ε) :
    List (CommitOp σ ε) → CommitterPC σ ε
  | [] => .loop
  | op :: rest => pc (op :: rest)

/-- One move: a writer's locked section of `do`, or a move of the committer.
SOURCE: filedb.go:160-169, 201-249 -/
def Committer.step (c : Committer σ ε) (e : CommitEvent σ ε) : Option (Committer σ ε) :=
  match e, c.pc with
  | .update fn, pc =>
    let op : CommitOp σ ε := ⟨c.queued.length, fn⟩
    some { c with
      pending := c.pending ++ [op]
      running := true
      pc := if c.running then pc else .starting
      queued := c.queued ++ [op] }
  | .start, .starting => some { c with pc := .loop }
  | .take, .loop =>
    match c.pending with
    | [] => some { c with running := false, pc := .none }
    | batch => some { c with pending := [], pc := .took batch }
  | .shared commit, .took batch =>
    let r := boltUpdate (runAll batch) commit c.db
    match r.2 with
    | none => some { c with db := r.1, pc := .answering batch }
    | some _ => some { c with db := r.1, pc := .alone batch }
  | .answer, .answering (op :: rest) =>
    some { c with
      answers := c.answers ++ [(op.no, none)]
      pc := .after .answering rest }
  | .alone commit, .alone (op :: rest) =>
    let r := boltUpdate op.fn commit c.db
    some { c with
      db := r.1
      pc := .sending op r.2 rest
      failures := c.failures ++ (commit.map fun e => (op.no, e)).toList }
  | .send, .sending op res rest =>
    some { c with
      answers := c.answers ++ [(op.no, res)]
      pc := .after .alone rest }
  | _, _ => none

end Mqttv5.Program
