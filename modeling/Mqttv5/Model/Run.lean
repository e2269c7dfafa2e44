import Mqttv5.Computation.Transition
import Mqttv5.Program.Recovery

/-!
# The engine among its callers

`Sys` is an engine together with the store it writes, the callers that hold packet
identifiers and reservations, and the calls that are between two of their locked sections.
`step` is one atomic move of one goroutine: an operation of the engine, a piece of a store
write, a piece of `SetMeta`, `Restore` or `Discard`, or the death of the process. The event
carries every choice the rest of the world makes (the clock, the result of a Settle or of
the store).

`sent`, `outstanding`, `regen`, `calls` and `ran` only record what happened: the frames
handed out on the current connection, the PUBLISHes among them whose flow has not had its
last acknowledgement since, the flows waiting for PUBCOMP when the connection resumed the
session, the Settle calls made, and the store writes whose `do` has returned.
-/

set_option autoImplicit false

namespace Mqttv5.Model

open Program

/-- Where a call of `Discard` is: drained, the store reset, or calling Settles. -/
inductive DiscardStage
  | drained | wiped | calling (settles : List (OutPtr × SettleFn))
  deriving DecidableEq

/-- A call of `SetMeta` past its first locked section; the result once the store answered. -/
structure SetMetaCall where
  metaData : Meta
  res : Option (Option ℕ) := none
  deriving DecidableEq

structure Sys where
  eng : Engine
  store : MemoryStore := {}
  reserved : ℕ := 0
  held : List (PacketID × Owner) := []
  reporting : ℕ := 0
  setting : Option SetMetaCall := none
  loaded : Option (Meta × List Record) := none
  discarding : Option DiscardStage := none
  sent : List Frame := []
  outstanding : List OutPtr := []
  regen : List OutPtr := []
  calls : List (OutPtr × SettleFn) := []
  ran : List (RecordKey × Job) := []

/-- A move of one goroutine. -/
inductive Event
  | reserve
  | take (o : Owner)
  | releaseID (id : PacketID) (o : Owner)
  | register (m : Message) (now : Time)
  | withdraw (p : OutPtr)
  | adopt (ref : Bytes) (f : SettleFn)
  | puback (id : PacketID) (rc : ReasonCode) (refused : Option PubErr)
  | pubrec (id : PacketID) (rc : ReasonCode) (refused : Option PubErr)
  | pubcomp (id : PacketID)
  | receive (id : PacketID) (qos : ℕ)
  | ack (h : InPtr)
  | pubrel (id : PacketID)
  | connected (ci : ConnInfo) (now : Time)
  | disconnected (l : LinkID)
  | collect (gen upTo : ℕ) (now : Time)
  | collectControl (gen : ℕ)
  | callSettle (k : RecordKey)
  | settleReturn (k : RecordKey) (err : Option ℕ)
  | doStore (k : RecordKey) (err : Option ℕ) (applied : Bool)
  | finish (k : RecordKey)
  | report
  | callDropped
  | setMeta (m : Meta)
  | setMetaStore (err : Option ℕ) (applied : Bool)
  | setMetaReturn
  | load
  | restore
  | discard
  | discardReset (err : Option ℕ)
  | discardLocked
  | discardCall
  | restart
  deriving DecidableEq

namespace Sys

/-- The PUBLISHes among frames. -/
def publishes (fs : List Frame) : List OutPtr :=
  fs.filterMap fun
    | .control _ => none
    | .publish p _ _ => some p

/-- The change a store write makes to the store. -/
def storeEffect (k : RecordKey) (kind : JobKind) (st : MemoryStore) : MemoryStore :=
  match kind with
  | .putNew r => st.put r
  | .putOut r => st.put r
  | .settle _ _ _ => st.delete k
  | .putIn r => st.put r
  | .deleteIn => st.delete k

/-- The write's `do` may call the store now: its Settle, if it has one, is behind it. -/
def atStore (j : Job) : Bool :=
  match j.kind, j.stage with
  | .settle (some _) _ _, st => st = .settled
  | _, st => st = .queued

/-- Record a batch handed to the writer. -/
def handed (s : Sys) (r : Engine × List Frame) : Sys :=
  { s with
    eng := r.1
    sent := s.sent ++ r.2
    outstanding := s.outstanding ++ publishes r.2 }

/-- Record an acknowledgement for `id`: when its flow left the session the acknowledgement was
the flow's last one. -/
def answered (s : Sys) (id : PacketID) (e : Engine) : Sys :=
  { s with
    eng := e
    outstanding := match s.eng.out.get id, e.out.get id with
      | some p, none => s.outstanding.erase p
      | _, _ => s.outstanding }

/-- A new process over the store. -/
def fresh (cfg : Config) (max : ℕ) (store : MemoryStore) : Option Sys :=
  (restoreLocked (new cfg max) store.load.1 store.load.2).map fun e => { eng := e, store := store }

/-- A system before its first step: no session, and an empty store. -/
def init (cfg : Config) (max : ℕ) : Sys := { eng := new cfg max }

/-- One move. `none` means that it is not possible now.
SOURCE: engine.go, outbound.go, inbound.go, writes.go -/
def step (s : Sys) (a : Event) : Option Sys :=
  if s.eng.stuck then none
  else match a with
  | .reserve => (reserve s.eng).map fun e => { s with eng := e, reserved := s.reserved + 1 }
  | .take o =>
    if s.reserved = 0 ∨ o = .none then none
    else (allocateID s.eng o).map fun r =>
      { s with eng := r.2, reserved := s.reserved - 1, held := s.held ++ [(r.1, o)] }
  | .releaseID id o =>
    if (id, o) ∈ s.held then
      some { s with eng := releaseLocked s.eng id o, held := s.held.erase (id, o) }
    else none
  | .register m now =>
    if (m.id, Owner.publish) ∈ s.held then
      some { s with eng := (register s.eng m now).1, held := s.held.erase (m.id, .publish) }
    else none
  | .withdraw p => if p < s.eng.nextOut then some { s with eng := (withdraw s.eng p).1 } else none
  | .adopt ref f => some { s with eng := (adopt s.eng ref f).1 }
  | .puback id rc refused => some (s.answered id (handlePuback s.eng id rc refused))
  | .pubrec id rc refused => some (s.answered id (handlePubrec s.eng id rc refused))
  | .pubcomp id => some (s.answered id (handlePubcomp s.eng id))
  | .receive id qos => some { s with eng := (receive s.eng id qos).1 }
  | .ack h => if h < s.eng.nextIn then some { s with eng := ack s.eng h } else none
  | .pubrel id => some { s with eng := handlePubrel s.eng id }
  | .connected ci now =>
    if s.eng.failure.isSome then some s
    else some { s with
      eng := connected s.eng ci now
      sent := []
      outstanding := []
      regen := if ci.sessionPresent then s.eng.rel else [] }
  | .disconnected l => some { s with eng := disconnected s.eng l }
  | .collect gen upTo now => some (s.handed (collect s.eng gen upTo now))
  | .collectControl gen => some (s.handed (collectControl s.eng gen))
  | .callSettle k =>
    match s.eng.queues k with
    | ⟨.settle (some f) _ _, .out p, _, .queued⟩ :: _ =>
      some { s with eng := setStage s.eng k .settling, calls := s.calls ++ [(p, f)] }
    | _ => none
  | .settleReturn k err =>
    match s.eng.queues k with
    | ⟨.settle f o ref, q, ep, .settling⟩ :: _ =>
      match err with
      | some c =>
        if ref ≠ [] then
          some { s with
            eng := setStage s.eng k (.ran (some (.settle c)))
            ran := s.ran ++ [(k, ⟨.settle f o ref, q, ep, .ran (some (.settle c))⟩)] }
        else some { s with eng := setStage s.eng k .settled }
      | none => some { s with eng := setStage s.eng k .settled }
    | _ => none
  | .doStore k err applied =>
    match s.eng.queues k with
    | j :: _ =>
      if ¬ atStore j then none
      else if ¬ s.eng.cfg.store then
        some { s with
          eng := setStage s.eng k (.ran none)
          ran := s.ran ++ [(k, { j with stage := .ran none })] }
      else
        some { s with
          eng := setStage s.eng k (.ran (err.map .store))
          store := if err = none ∨ applied then storeEffect k j.kind s.store else s.store
          ran := s.ran ++ [(k, { j with stage := .ran (err.map .store) })] }
    | [] => none
  | .finish k =>
    match s.eng.queues k with
    | j :: _ =>
      match j.stage with
      | .ran res => some { s with
          eng := finishJob s.eng k j res
          reporting := s.reporting + 1 }
      | _ => none
    | [] => none
  | .report =>
    if s.reporting = 0 then none
    else some { s with eng := reportJob s.eng, reporting := s.reporting - 1 }
  | .callDropped =>
    match s.eng.dropped with
    | (p, f, _) :: rest => some { s with
        eng := { s.eng with dropped := rest }
        calls := s.calls ++ [(p, f)] }
    | [] => none
  | .setMeta m =>
    if s.setting.isSome ∨ s.loaded.isSome then none
    else if s.eng.failure.isSome ∨ s.eng.metaData = m then some s
    else if s.eng.cfg.store then some { s with setting := some { metaData := m } }
    else some { s with eng := { s.eng with metaData := m } }
  | .setMetaStore err applied =>
    match s.setting with
    | some ⟨m, none⟩ => some { s with
        store := if err = none ∨ applied then s.store.setMeta m else s.store
        setting := some ⟨m, some err⟩ }
    | _ => none
  | .setMetaReturn =>
    match s.setting with
    | some ⟨m, some none⟩ => some { s with
        eng := { s.eng with metaData := m }
        setting := none }
    | some ⟨_, some (some err)⟩ => some { s with
        eng := failLocked s.eng (setMetaError err)
        setting := none }
    | _ => none
  | .load =>
    if s.eng.writes = 0 ∧ s.setting = none ∧ s.loaded = none then
      some { s with loaded := some (if s.eng.cfg.store then s.store.load else ({}, [])) }
    else none
  | .restore =>
    match s.loaded with
    | some (m, recs) =>
      match restoreLocked s.eng m recs with
      | some e => some { s with eng := e, loaded := none }
      | none => some { s with loaded := none }
    | none => none
  | .discard =>
    if s.eng.writes = 0 ∧ s.discarding = none then some { s with discarding := some .drained }
    else none
  | .discardReset err =>
    if s.discarding = some .drained then
      if ¬ s.eng.cfg.store then some { s with discarding := some .wiped }
      else match err with
        | none => some { s with store := s.store.reset, discarding := some .wiped }
        | some _ => some { s with discarding := none }
    else none
  | .discardLocked =>
    if s.discarding = some .wiped then
      some { s with
        eng := (discardLocked s.eng).1
        discarding := some (.calling (discardLocked s.eng).2) }
    else none
  | .discardCall =>
    match s.discarding with
    | some (.calling (x :: rest)) => some { s with
        discarding := some (.calling rest)
        calls := s.calls ++ [x] }
    | some (.calling []) => some { s with discarding := none }
    | _ => none
  | .restart => fresh s.eng.cfg s.eng.ids.max s.store

end Sys

end Mqttv5.Model
