import Mqttv5.Model.Run

/-!
# The steps of a session, one by one

`Stepped` lists what a step of a session can be, with what is known when it is taken; an argument
about every step is an argument by cases on it.
-/

set_option autoImplicit false

namespace Mqttv5.Analysis

open Model Program

inductive Stepped (s : Sys) : Event → Sys → Prop
  | reserve (hfree : s.eng.ids.inUse < s.eng.ids.max) : Stepped s .reserve { s with
      eng := { s.eng with ids := { s.eng.ids with inUse := s.eng.ids.inUse + 1 } }
      reserved := s.reserved + 1 }
  | take (o : Owner) (r : PacketID × IDTable) (hres : s.reserved ≠ 0) (ho : o ≠ .none)
      (hr : take s.eng.ids o = some r) : Stepped s (.take o) { s with
        eng := { s.eng with ids := r.2 }
        reserved := s.reserved - 1
        held := s.held ++ [(r.1, o)] }
  | releaseID (id : PacketID) (o : Owner) (hheld : (id, o) ∈ s.held) :
      Stepped s (.releaseID id o)
        { s with eng := releaseLocked s.eng id o, held := s.held.erase (id, o) }
  | register (m : Message) (now : Time) (hheld : (m.id, Owner.publish) ∈ s.held) :
      Stepped s (.register m now)
        { s with eng := (register s.eng m now).1, held := s.held.erase (m.id, .publish) }
  | withdraw (p : OutPtr) (hp : p < s.eng.nextOut) :
      Stepped s (.withdraw p) { s with eng := (withdraw s.eng p).1 }
  | adopt (ref : Bytes) (f : SettleFn) :
      Stepped s (.adopt ref f) { s with eng := (adopt s.eng ref f).1 }
  | puback (id : PacketID) (rc : ReasonCode) (refused : Option PubErr) :
      Stepped s (.puback id rc refused) (s.answered id (handlePuback s.eng id rc refused))
  | pubrec (id : PacketID) (rc : ReasonCode) (refused : Option PubErr) :
      Stepped s (.pubrec id rc refused) (s.answered id (handlePubrec s.eng id rc refused))
  | pubcomp (id : PacketID) :
      Stepped s (.pubcomp id) (s.answered id (handlePubcomp s.eng id))
  | receive (id : PacketID) (qos : ℕ) :
      Stepped s (.receive id qos) { s with eng := (receive s.eng id qos).1 }
  | ack (i : InPtr) (hi : i < s.eng.nextIn) : Stepped s (.ack i) { s with eng := ack s.eng i }
  | pubrel (id : PacketID) : Stepped s (.pubrel id) { s with eng := handlePubrel s.eng id }
  | connectedFailed (ci : ConnInfo) (now : Time) (hf : s.eng.failure.isSome = true) :
      Stepped s (.connected ci now) s
  | connected (ci : ConnInfo) (now : Time) (hf : ¬ s.eng.failure.isSome = true) :
      Stepped s (.connected ci now) { s with
        eng := connected s.eng ci now
        sent := []
        outstanding := []
        regen := if ci.sessionPresent then s.eng.rel else [] }
  | disconnected (l : LinkID) :
      Stepped s (.disconnected l) { s with eng := disconnected s.eng l }
  | collect (gen : ℕ) (upTo : ℕ) (now : Time) :
      Stepped s (.collect gen upTo now) (s.handed (collect s.eng gen upTo now))
  | collectControl (gen : ℕ) :
      Stepped s (.collectControl gen) (s.handed (collectControl s.eng gen))
  | callSettle (k : RecordKey) (f : SettleFn) (o : Option PubErr) (ref : Bytes) (p : OutPtr)
      (ep : ℕ) (rest : List Job)
      (hq : s.eng.queues k = ⟨.settle (some f) o ref, .out p, ep, .queued⟩ :: rest) :
      Stepped s (.callSettle k)
        { s with eng := setStage s.eng k .settling, calls := s.calls ++ [(p, f)] }
  | settleFailed (k : RecordKey) (c : ℕ) (f : Option SettleFn) (o : Option PubErr) (ref : Bytes)
      (q : FlowPtr) (ep : ℕ) (rest : List Job)
      (hq : s.eng.queues k = ⟨.settle f o ref, q, ep, .settling⟩ :: rest) (href : ref ≠ []) :
      Stepped s (.settleReturn k (some c)) { s with
        eng := setStage s.eng k (.ran (some (.settle c)))
        ran := s.ran ++ [(k, ⟨.settle f o ref, q, ep, .ran (some (.settle c))⟩)] }
  | settled (k : RecordKey) (err : Option ℕ) (f : Option SettleFn) (o : Option PubErr)
      (ref : Bytes) (q : FlowPtr) (ep : ℕ) (rest : List Job)
      (hq : s.eng.queues k = ⟨.settle f o ref, q, ep, .settling⟩ :: rest)
      (herr : err = none ∨ ref = []) :
      Stepped s (.settleReturn k err) { s with eng := setStage s.eng k .settled }
  | ranAlone (k : RecordKey) (err : Option ℕ) (applied : Bool) (j : Job) (rest : List Job)
      (hq : s.eng.queues k = j :: rest) (hat : Sys.atStore j = true)
      (hstore : s.eng.cfg.store = false) :
      Stepped s (.doStore k err applied) { s with
        eng := setStage s.eng k (.ran none)
        ran := s.ran ++ [(k, { j with stage := .ran none })] }
  | ranStore (k : RecordKey) (err : Option ℕ) (applied : Bool) (j : Job) (rest : List Job)
      (hq : s.eng.queues k = j :: rest) (hat : Sys.atStore j = true)
      (hstore : s.eng.cfg.store = true) :
      Stepped s (.doStore k err applied) { s with
        eng := setStage s.eng k (.ran (err.map .store))
        store := if err = none ∨ applied then Sys.storeEffect k j.kind s.store else s.store
        ran := s.ran ++ [(k, { j with stage := .ran (err.map .store) })] }
  | finish (k : RecordKey) (j : Job) (rest : List Job) (res : Option JobErr)
      (hq : s.eng.queues k = j :: rest) (hstage : j.stage = .ran res) :
      Stepped s (.finish k)
        { s with eng := finishJob s.eng k j res, reporting := s.reporting + 1 }
  | report (hrep : s.reporting ≠ 0) :
      Stepped s .report { s with eng := reportJob s.eng, reporting := s.reporting - 1 }
  | callDropped (p : OutPtr) (f : SettleFn) (o : PubErr)
      (rest : List (OutPtr × SettleFn × PubErr)) (hd : s.eng.dropped = (p, f, o) :: rest) :
      Stepped s .callDropped
        { s with eng := { s.eng with dropped := rest }, calls := s.calls ++ [(p, f)] }
  | setMetaSame (m : Meta) (hsame : s.eng.failure.isSome = true ∨ s.eng.metaData = m) :
      Stepped s (.setMeta m) s
  | setMetaStarts (m : Meta) (hnew : ¬ (s.eng.failure.isSome = true ∨ s.eng.metaData = m)) :
      Stepped s (.setMeta m) { s with setting := some { metaData := m } }
  | setMetaAlone (m : Meta) (hnew : ¬ (s.eng.failure.isSome = true ∨ s.eng.metaData = m)) :
      Stepped s (.setMeta m) { s with eng := { s.eng with metaData := m } }
  | setMetaStore (err : Option ℕ) (applied : Bool) (m : Meta) (hset : s.setting = some ⟨m, none⟩) :
      Stepped s (.setMetaStore err applied) { s with
        store := if err = none ∨ applied then s.store.setMeta m else s.store
        setting := some ⟨m, some err⟩ }
  | setMetaDone (m : Meta) (hset : s.setting = some ⟨m, some none⟩) :
      Stepped s .setMetaReturn { s with eng := { s.eng with metaData := m }, setting := none }
  | setMetaFailed (m : Meta) (err : ℕ) (hset : s.setting = some ⟨m, some (some err)⟩) :
      Stepped s .setMetaReturn
        { s with eng := failLocked s.eng (setMetaError err), setting := none }
  | load (hidle : s.eng.writes = 0 ∧ s.setting = none ∧ s.loaded = none) :
      Stepped s .load
        { s with loaded := some (if s.eng.cfg.store then s.store.load else ({}, [])) }
  | restored (m : Meta) (recs : List Record) (e : Engine) (hl : s.loaded = some (m, recs))
      (he : restoreLocked s.eng m recs = some e) :
      Stepped s .restore { s with eng := e, loaded := none }
  | notRestored : Stepped s .restore { s with loaded := none }
  | discard (hidle : s.eng.writes = 0 ∧ s.discarding = none) :
      Stepped s .discard { s with discarding := some .drained }
  | resetAlone (err : Option ℕ) (hdis : s.discarding = some .drained)
      (hstore : ¬ s.eng.cfg.store = true) :
      Stepped s (.discardReset err) { s with discarding := some .wiped }
  | reset (hdis : s.discarding = some .drained) (hstore : s.eng.cfg.store = true) :
      Stepped s (.discardReset none)
        { s with store := s.store.reset, discarding := some .wiped }
  | resetFailed (c : ℕ) (hdis : s.discarding = some .drained) (hstore : s.eng.cfg.store = true) :
      Stepped s (.discardReset (some c)) { s with discarding := none }
  | discardLocked (hdis : s.discarding = some .wiped) :
      Stepped s .discardLocked { s with
        eng := (discardLocked s.eng).1
        discarding := some (.calling (discardLocked s.eng).2) }
  | discardCall (x : OutPtr × SettleFn) (rest : List (OutPtr × SettleFn))
      (hdis : s.discarding = some (.calling (x :: rest))) :
      Stepped s .discardCall
        { s with discarding := some (.calling rest), calls := s.calls ++ [x] }
  | discardDone (hdis : s.discarding = some (.calling [])) :
      Stepped s .discardCall { s with discarding := none }
  | restart (t : Sys) (ht : Sys.fresh s.eng.cfg s.eng.ids.max s.store = some t) :
      Stepped s .restart t

/-- INTERNAL: **Every step is one of these**, and an engine that is stuck takes none. -/
theorem stepped {s t : Sys} {a : Event} (hstep : s.step a = some t) :
    s.eng.stuck = false ∧ Stepped s a t := by
  unfold Sys.step at hstep
  split at hstep
  · cases hstep
  rename_i hstuck
  refine ⟨by simpa using hstuck, ?_⟩
  cases a with
  | reserve =>
    obtain ⟨e, he, rfl⟩ := Option.map_eq_some_iff.mp hstep
    unfold Program.reserve at he
    obtain ⟨hfree, ⟨⟩⟩ := Option.ite_none_right_eq_some.mp he
    exact .reserve hfree
  | take o =>
    simp only at hstep
    split at hstep
    · cases hstep
    · rename_i hcond
      obtain ⟨_, halloc, rfl⟩ := Option.map_eq_some_iff.mp hstep
      obtain ⟨r, hr, rfl⟩ := Option.map_eq_some_iff.mp halloc
      exact .take o r (fun hz => hcond (.inl hz)) (fun ho => hcond (.inr ho)) hr
  | settleReturn k err =>
    simp only at hstep
    split at hstep
    · rename_i f o ref q ep rest hq
      split at hstep
      · rename_i c
        split at hstep <;> rename_i href <;> cases hstep
        · exact .settleFailed k c f o ref q ep rest hq href
        · exact .settled k _ f o ref q ep rest hq (.inr (by simpa using href))
      · cases hstep
        exact .settled k _ f o ref q ep rest hq (.inl rfl)
    · cases hstep
  | doStore k err applied =>
    simp only at hstep
    split at hstep
    · rename_i j rest hq
      split at hstep
      · cases hstep
      · rename_i hat
        split at hstep <;> rename_i hstore <;> cases hstep
        · exact .ranAlone k err applied j rest hq (by simpa using hat) (by simpa using hstore)
        · exact .ranStore k err applied j rest hq (by simpa using hat) (by simpa using hstore)
    · cases hstep
  | finish k =>
    simp only at hstep
    split at hstep
    · rename_i j rest hq
      split at hstep <;> cases hstep
      exact .finish k j rest _ hq ‹_›
    · cases hstep
  | restart => exact .restart t hstep
  | restore =>
    simp only at hstep
    split at hstep
    · rename_i m recs hl
      split at hstep
      · rename_i e he
        cases hstep
        exact .restored m recs e hl he
      · cases hstep
        exact .notRestored
    · cases hstep
  | discardReset err =>
    simp only at hstep
    split at hstep
    · rename_i hdis
      split at hstep
      · rename_i hstore
        cases hstep
        exact .resetAlone err hdis hstore
      · rename_i hstore
        have hstore := not_not.mp hstore
        split at hstep <;> cases hstep
        · exact .reset hdis hstore
        · exact .resetFailed _ hdis hstore
    · cases hstep
  | setMeta m =>
    simp only at hstep
    split at hstep
    · cases hstep
    · split at hstep
      · rename_i hsame
        cases hstep
        exact .setMetaSame m hsame
      · rename_i hnew
        split at hstep <;> cases hstep
        · exact .setMetaStarts m hnew
        · exact .setMetaAlone m hnew
  | report =>
    obtain ⟨hrep, ⟨⟩⟩ := Option.ite_none_left_eq_some.mp hstep
    exact .report hrep
  | releaseID | register | withdraw | ack | connected | callSettle | callDropped | setMetaStore
    | setMetaReturn | load | discard | discardLocked | discardCall =>
    -- One test, and each outcome of it that is a step has its own constructor.
    simp only at hstep
    split at hstep <;> cases hstep <;> constructor <;> assumption
  | _ =>
    cases hstep
    constructor

end Mqttv5.Analysis
