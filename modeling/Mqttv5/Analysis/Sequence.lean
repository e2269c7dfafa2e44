import Mqttv5.Analysis.Recovery

/-!
# The sequence numbers

Send order and PUBREC order are counted on one sequence, and each number on it is used once:
`who n` says what number `n` was taken for, the send of a flow under an identifier or the PUBREC
of the flow that was sent under an earlier number. The flows of the session,
the records its writes carry and the records in the store all have their numbers from there,
which is why the store always loads what `Restore` can rebuild (`Known.loadable`).
-/

set_option autoImplicit false

namespace Mqttv5.Analysis

open Mqttv5.Computation Model Program Interface List FiniteMap
open Function (update_of_ne update_self)

variable {k : RecordKey} {a : Event}

variable {e e' : Engine}

/-! ### What a step does

Most steps are operations on flows that exist and keep every `FlowRule`; the others change the
identifier table, add a flow, hand an outcome to a producer, or take a store write further. -/

/-- `e'` comes from `e` by operations on the flows of `e`. -/
def Evolves (e e' : Engine) : Prop := ∀ I : Engine → Prop, FlowRule I → I e → I e'

/-- `e'` comes from `e` by operations on the flows of `e` that apply no PUBREC. -/
def Persists (e e' : Engine) : Prop := ∀ I : Engine → Prop, PubRule I → I e → I e'

/-- The events that are operations on the flows of the session. -/
def onFlows : Event → Bool
  | .withdraw _ | .puback _ _ _ | .pubrec _ _ _ | .pubcomp _ | .receive _ _ | .ack _ | .pubrel _
  | .connected _ _ | .disconnected _ | .collect _ _ _ | .collectControl _ => true
  | _ => false

/-- The steps but those that replace the session. -/
inductive Change (s : Sys) : Event → Sys → Prop
  | flows {a : Event} {t : Sys} (heng : Persists s.eng t.eng) (hrest : t = { s with
      eng := t.eng
      sent := t.sent
      outstanding := t.outstanding
      regen := t.regen }) : Change s a t
  | pubrec {id : PacketID} {rc : ReasonCode} {refused : Option PubErr} :
      Change s (.pubrec id rc refused) (s.answered id (handlePubrec s.eng id rc refused))
  | table {a : Event} {ids : IDTable} {stuck : Bool} {held : List (PacketID × Owner)}
      {reserved : ℕ} (hmax : ids.max = s.eng.ids.max) : Change s a { s with
        eng := { s.eng with ids := ids, stuck := stuck }
        held := held
        reserved := reserved }
  | register {m : Message} {now : Time} (hheld : (m.id, Owner.publish) ∈ s.held) :
      Change s (.register m now) { s with
        eng := (register s.eng m now).1
        held := s.held.erase (m.id, .publish) }
  | adopt {ref : Bytes} {f : SettleFn} :
      Change s (.adopt ref f) { s with eng := (adopt s.eng ref f).1 }
  | callSettle {k : RecordKey} {f : SettleFn} {o : Option PubErr} {ref : Bytes} {p : OutPtr}
      {ep : ℕ} {rest : List Job}
      (hq : s.eng.queues k = ⟨.settle (some f) o ref, .out p, ep, .queued⟩ :: rest) :
      Change s (.callSettle k) { s with
        eng := setStage s.eng k .settling
        calls := s.calls ++ [(p, f)] }
  | settleReturn {k : RecordKey} {err : Option ℕ} {f : Option SettleFn} {o : Option PubErr}
      {ref : Bytes} {q : FlowPtr} {ep : ℕ} {rest : List Job} {st : Stage}
      {ran : List (RecordKey × Job)}
      (hq : s.eng.queues k = ⟨.settle f o ref, q, ep, .settling⟩ :: rest)
      (hst : st = .settled ∧ (err = none ∨ ref = []) ∧ ran = s.ran ∨
        ∃ c, err = some c ∧ ref ≠ [] ∧ st = .ran (some (.settle c)) ∧
          ran = s.ran ++ [(k, ⟨.settle f o ref, q, ep, st⟩)]) :
      Change s (.settleReturn k err) { s with eng := setStage s.eng k st, ran := ran }
  | doStore {k : RecordKey} {err : Option ℕ} {applied : Bool} {j : Job} {rest : List Job}
      {st : Stage} {store : MemoryStore} (hq : s.eng.queues k = j :: rest)
      (hat : Sys.atStore j = true)
      (hst : s.eng.cfg.store = false ∧ st = .ran none ∧ store = s.store ∨
        s.eng.cfg.store = true ∧ st = .ran (err.map .store) ∧
          store = if err = none ∨ applied then Sys.storeEffect k j.kind s.store else s.store) :
      Change s (.doStore k err applied) { s with
        eng := setStage s.eng k st
        store := store
        ran := s.ran ++ [(k, { j with stage := st })] }
  | finish {k : RecordKey} {j : Job} {rest : List Job} {res : Option JobErr}
      (hq : s.eng.queues k = j :: rest) (hstage : j.stage = .ran res) :
      Change s (.finish k) { s with
        eng := finishJob s.eng k j res
        reporting := s.reporting + 1 }
  | aside {a : Event} {t : Sys} (heng : t.eng = { s.eng with
      metaData := t.eng.metaData
      dropped := t.eng.dropped
      writes := t.eng.writes
      writesIdle := t.eng.writesIdle })
      (hstore : t.store.records = s.store.records ∨ t.store.records = ∅)
      (hrest : t.loaded = s.loaded ∧ t.held = s.held ∧ t.reserved = s.reserved ∧ t.ran = s.ran) :
      Change s a t
  | failed {err : ℕ} : Change s .setMetaReturn { s with
      eng := failLocked s.eng (setMetaError err)
      setting := none }
  | load : Change s .load { s with
      loaded := some (if s.eng.cfg.store then s.store.load else ({}, [])) }

/-- INTERNAL: Nothing happens to a session that stays as it is. -/
theorem Persists.refl (e : Engine) : Persists e e := fun _ _ h => h

/-- INTERNAL: A step that leaves the flows alone applies no PUBREC. -/
theorem Persists.of_quiet (h : Quiet e e') : Persists e e' :=
  fun _ R hI => R.quiet e e' hI h

/-- INTERNAL: What applies no PUBREC is an operation on the flows. -/
theorem Persists.evolves (h : Persists e e') : Evolves e e' := fun I R hI => h I R.pubRule hI

/-- INTERNAL: An operation on the flows changes the engine and what the connection counts. -/
theorem rest_of_onFlows {s t : Sys} (ha : onFlows a = true) (hstep : s.step a = some t) :
    t = { s with
      eng := t.eng
      sent := t.sent
      outstanding := t.outstanding
      regen := t.regen } := by
  cases (stepped hstep).2 with
  | withdraw | puback | pubrec | pubcomp | receive | ack | pubrel | connectedFailed | connected
  | disconnected | collect | collectControl => rfl
  | _ => cases ha

namespace Core

variable {on : Prop} {s t : Sys}

/-- The withdrawal of a flow of a failed session has no effect. -/
theorem persists_withdraw (h : Core on s) {p : OutPtr} (hp : p < s.eng.nextOut) :
    Persists s.eng (Program.withdraw s.eng p).1 := by
  by_cases hf : s.eng.failure = none
  · intro I R hI
    exact R.withdraw hI h.ordered hf hp
  · rw [h.withdraw_failed hf hp]
    exact Persists.refl _

/-- INTERNAL: **Only a PUBREC is applied as one.** -/
theorem persists (h : Core on s) (ha : onFlows a = true)
    (hno : ∀ id rc refused, a ≠ .pubrec id rc refused) (hstep : s.step a = some t) :
    Persists s.eng t.eng := by
  cases (stepped hstep).2 with
  | withdraw p hp => exact h.persists_withdraw hp
  | puback id rc refused => exact fun I R hI => R.handlePuback hI h.ordered id rc refused
  | pubrec id rc refused => exact absurd rfl (hno id rc refused)
  | pubcomp id => exact fun I R hI => R.handlePubcomp hI h.ordered id
  | receive id qos => exact .of_quiet (.of_inward (Answers.receive s.eng id qos).toInward)
  | ack i => exact .of_quiet (.of_inward (Answers.ack s.eng i).toInward)
  | pubrel id => exact .of_quiet (.of_inward (Answers.handlePubrel s.eng id).toInward)
  | connectedFailed => exact .refl _
  | connected ci now => exact fun I R hI => R.connected hI h.ordered ci now
  | disconnected l => exact .of_quiet (Quiet.disconnected s.eng l)
  | collect gen upTo now => exact fun I R hI => R.collect hI gen upTo now h.send.steady
  | collectControl gen => exact .of_quiet (.of_inward (Inward.collectControl s.eng gen))
  | _ => cases ha

/-- INTERNAL: **The operations on flows.** -/
theorem evolves (h : Core on s) (ha : onFlows a = true) (hstep : s.step a = some t) :
    Evolves s.eng t.eng ∧ t = { s with
      eng := t.eng
      sent := t.sent
      outstanding := t.outstanding
      regen := t.regen } := by
  refine ⟨?_, rest_of_onFlows ha hstep⟩
  by_cases hrec : ∃ id rc refused, a = .pubrec id rc refused
  · obtain ⟨id, rc, refused, rfl⟩ := hrec
    cases (stepped hstep).2
    exact fun I R hI => R.handlePubrec hI h.ordered id rc refused
  · exact (h.persists ha (by simpa using hrec) hstep).evolves

/-- INTERNAL: **The kinds of step.** -/
theorem change (h : Core on s) (ha : Plain a) (hstep : s.step a = some t) :
    Change s a t := by
  by_cases hrec : ∃ id rc refused, a = .pubrec id rc refused
  · obtain ⟨id, rc, refused, rfl⟩ := hrec
    cases (stepped hstep).2
    exact .pubrec
  by_cases hon : onFlows a = true
  · exact .flows (h.persists hon (by simpa using hrec) hstep) (rest_of_onFlows hon hstep)
  cases (stepped hstep).2 with
  | reserve => exact .table rfl
  | take o r hres ho hr =>
    obtain ⟨own, hown⟩ := h.owners
    exact .table (balanced_take hown.table ho (Nat.pos_of_ne_zero hres) hr).2.2.2.2
  | releaseID id o =>
    have hmax := congrArg Statics.max (Acts.releaseLocked s.eng id o).statics
    obtain ⟨ids, stuck, heq⟩ := releaseLocked_eq s.eng id o
    rw [heq] at hmax ⊢
    exact .table hmax
  | register m now hheld => exact .register hheld
  | adopt => exact .adopt
  | callSettle k f o ref p ep rest hq => exact .callSettle hq
  | settleFailed k c f o ref q ep rest hq href =>
    exact .settleReturn hq (.inr ⟨c, rfl, href, rfl, rfl⟩)
  | settled k err f o ref q ep rest hq herr => exact .settleReturn hq (.inl ⟨rfl, herr, rfl⟩)
  | ranAlone k err applied j rest hq hat hstore =>
    exact .doStore hq hat (.inl ⟨hstore, rfl, rfl⟩)
  | ranStore k err applied j rest hq hat hstore =>
    exact .doStore hq hat (.inr ⟨hstore, rfl, rfl⟩)
  | finish k j rest res hq hstage => exact .finish hq hstage
  | setMetaStore =>
    refine .aside rfl (.inl ?_) ⟨rfl, rfl, rfl, rfl⟩
    simp only
    split
    · rfl
    · rfl
  | setMetaFailed => exact .failed
  | load => exact .load
  | restored | notRestored => exact absurd rfl ha.1
  | reset => exact .aside rfl (.inr rfl) ⟨rfl, rfl, rfl, rfl⟩
  | discardLocked => exact absurd rfl ha.2.1
  | restart => exact absurd rfl ha.2.2
  | report | callDropped | setMetaSame | setMetaStarts | setMetaAlone | setMetaDone | discard
  | resetAlone | resetFailed | discardCall | discardDone =>
    exact .aside rfl (.inl rfl) ⟨rfl, rfl, rfl, rfl⟩
  | _ => exact absurd rfl hon

end Core

/-! ### The numbers -/

/-- What a number of the sequence was taken for: with `sent = none` the first send of a flow under
the identifier, else the PUBREC of the flow that was first sent under number `sent`. -/
structure Mark where
  id : PacketID
  sent : Option ℕ

/-- The numbers of a record that a new process would continue are its flow's. -/
def Places (who : ℕ → Option Mark) (k : RecordKey) (r : Record) : Prop :=
  Continues r → who r.seq = some ⟨k.packetID, none⟩ ∧
    (r.phase = .awaitPubcomp → who r.pubrecSeq = some ⟨k.packetID, some r.seq⟩)

/-- More numbers are taken. -/
def Grows (who who' : ℕ → Option Mark) : Prop := ∀ n m, who n = some m → who' n = some m

/-- INTERNAL: No number is taken. -/
theorem Grows.refl (who : ℕ → Option Mark) : Grows who who := fun _ _ h => h

/-- INTERNAL: The records keep the numbers they have. -/
theorem Places.grow {who who' : ℕ → Option Mark} {r : Record}
    (h : Places who k r) (hg : Grows who who') : Places who' k r := fun hc =>
  ⟨hg _ _ (h hc).1, fun hp => hg _ _ ((h hc).2 hp)⟩

/-- A completed record is not continued. -/
theorem not_continues_of_completed {r : Record} (h : r.phase = .completed) : ¬ Continues r :=
  fun hc => hc.phase h

/-- The flows of the session and the records on their way to the store have the numbers that were
taken for them. -/
structure Traced (e : Engine) (who : ℕ → Option Mark) : Prop where
  bound : ∀ n m, who n = some m → n < e.nextSeq ∧ 1 ≤ m.id ∧ m.id ≤ e.ids.max
  flow : ∀ id p, e.out.get id = some p → who (e.outs p).pubSeq = some ⟨id, none⟩ ∧
    ((e.outs p).phase = .awaitPubcomp → who (e.outs p).seq = some ⟨id, some (e.outs p).pubSeq⟩)
  jobs : ∀ k, ∀ j ∈ e.queues k, ∀ r, putOf j.kind = some r → Places who k r

namespace Traced

variable {e e' d : Engine} {who who' : ℕ → Option Mark} {m : Mark} {id : PacketID} {p : OutPtr}

/-- A step that starts no flow, moves none and writes no record to continue. -/
theorem shrink (h : Traced e who) (hnext : e.nextSeq ≤ e'.nextSeq) (hmax : e'.ids.max = e.ids.max)
    (hflow : ∀ i q, e'.out.get i = some q → e.out.get i = some q ∧
      (e'.outs q).pubSeq = (e.outs q).pubSeq ∧ (e'.outs q).seq = (e.outs q).seq ∧
      ((e'.outs q).phase = .awaitPubcomp → (e.outs q).phase = .awaitPubcomp))
    (hjobs : ∀ k, ∀ j ∈ e'.queues k, ∀ r, putOf j.kind = some r →
      (∃ i ∈ e.queues k, putOf i.kind = some r) ∨ ¬ Continues r) : Traced e' who := by
  refine ⟨?_, ?_, ?_⟩
  · intro n id hn
    obtain ⟨hlt, hid⟩ := h.bound n id hn
    rw [hmax]
    exact ⟨hlt.trans_le hnext, hid⟩
  · intro i q hq
    obtain ⟨hold, hpub, hseq, hphase⟩ := hflow i q hq
    rw [hpub, hseq]
    exact ⟨(h.flow i q hold).1, fun hp => (h.flow i q hold).2 (hphase hp)⟩
  · intro k j hj r hr
    rcases hjobs k j hj r hr with ⟨i, hi, hir⟩ | hnot
    · exact h.jobs k i hi r hir
    · exact fun hc => absurd hc hnot

/-- The next number of the sequence is taken for `m`. -/
theorem mark (h : Traced e who) (hid : 1 ≤ m.id ∧ m.id ≤ e.ids.max) {n : ℕ} (hn : e.nextSeq < n) :
    Traced { e with nextSeq := n } (Function.update who e.nextSeq (some m)) ∧
    Grows who (Function.update who e.nextSeq (some m)) := by
  have hgrow : Grows who (Function.update who e.nextSeq (some m)) := by
    intro i m' hi
    have hne : i ≠ e.nextSeq := (h.bound i m' hi).1.ne
    rw [update_of_ne hne]
    exact hi
  refine ⟨⟨?_, ?_, ?_⟩, hgrow⟩
  · intro i m' hi
    show i < n ∧ _
    by_cases hie : i = e.nextSeq
    · rw [hie, update_self] at hi
      cases hi
      exact ⟨hie ▸ hn, hid⟩
    · rw [update_of_ne hie] at hi
      obtain ⟨hlt, hrange⟩ := h.bound i m' hi
      exact ⟨Nat.lt_trans hlt hn, hrange⟩
  · intro i q hq
    obtain ⟨hpub, hseq⟩ := h.flow i q hq
    exact ⟨hgrow _ _ hpub, fun hp => hgrow _ _ (hseq hp)⟩
  · intro k j hj r hr
    exact (h.jobs k j hj r hr).grow hgrow

/-- A Put of the record of the flow at `p`. -/
theorem putOut (h : Traced e who) (hget : e.out.get (e.outs p).id = some p) :
    Traced (putOutLocked e p) who := by
  unfold putOutLocked
  split
  · refine ⟨h.bound, h.flow, ?_⟩
    intro k j hj r hr
    by_cases hk : k = outKey (e.outs p).id
    · rw [hk, queueLocked_self] at hj
      rcases mem_append.mp hj with hj | hj
      · rw [hk]
        exact h.jobs _ j hj r hr
      · cases mem_singleton.mp hj
        cases hr
        obtain ⟨hpub, hseq⟩ := h.flow _ p hget
        intro _
        rw [hk]
        refine ⟨hpub, ?_⟩
        intro hphase
        have hphase : (e.outs p).phase = .awaitPubcomp := hphase
        show who (if (e.outs p).phase = .awaitPubcomp then (e.outs p).seq else 0) = _
        rw [if_pos hphase]
        exact hseq hphase
    · simp only [queueLocked, update_of_ne hk] at hj
      exact h.jobs k j hj r hr
  · exact h

end Traced

/-- A failed session has no flows; its writes go on. -/
theorem Traced.fail {e : Engine} {who : ℕ → Option Mark} (h : Traced e who)
    (err : StoreError) : Traced (failLocked e err) who := by
  by_cases hf : e.failure = none
  · have heq := failLocked_eq e err hf
    rw [heq]
    refine ⟨h.bound, ?_, h.jobs⟩
    intro i q hq
    rw [get_empty] at hq
    cases hq
  · rw [failLocked_of_failed e err hf]
    exact h

/-- The send queue sees the places of a live flow. -/
theorem flow_same {o o' : Out} (h : flowOf o' = flowOf o) (hlive : o.finished = false) :
    o'.pubSeq = o.pubSeq ∧ o'.seq = o.seq ∧
    (o'.phase = .awaitPubcomp → o.phase = .awaitPubcomp) := by
  refine ⟨congrArg Flow.pubSeq h, congrArg Flow.seq h, ?_⟩
  intro hp
  have hfin : o'.finished = o.finished := congrArg Flow.finished h
  have hwait : (flowOf o').waiting = (flowOf o).waiting := by rw [h]
  simp only [flowOf, hfin, hlive, hp] at hwait
  simpa using hwait.symm

/-- Adding writes that put no record to continue. -/
theorem jobs_of_adds {ok : RecordKey → Job → Prop} (ha : Adds ok e e')
    (hok : ∀ k j r, ok k j → putOf j.kind = some r → ¬ Continues r) :
    ∀ k, ∀ j ∈ e'.queues k, ∀ r, putOf j.kind = some r →
      (∃ i ∈ e.queues k, putOf i.kind = some r) ∨ ¬ Continues r := by
  intro k j hj r hr
  rcases ha.mem_cases hj with hj | hj
  · exact .inl ⟨j, hj, hr⟩
  · exact .inr (hok k j r hj hr)

theorem jobs_of_closing {n : ℕ} (ha : Adds (Closing n) e e') :
    ∀ k, ∀ j ∈ e'.queues k, ∀ r, putOf j.kind = some r →
      (∃ i ∈ e.queues k, putOf i.kind = some r) ∨ ¬ Continues r :=
  jobs_of_adds ha fun _ _ r hj hr => not_continues_of_completed (hj.2 r hr)

theorem jobs_of_sub (hs : SubJobs e e') :
    ∀ k, ∀ j ∈ e'.queues k, ∀ r, putOf j.kind = some r →
      (∃ i ∈ e.queues k, putOf i.kind = some r) ∨ ¬ Continues r := by
  intro k j hj r hr
  obtain ⟨i, hi, hkind, -, -⟩ := hs k j hj
  exact .inl ⟨i, hi, by rw [hkind]; exact hr⟩

/-- A write that gets on is seen in its queue only. -/
theorem setStage_eq (e : Engine) (k : RecordKey) (st : Stage) :
    ∃ queues, setStage e k st = { e with queues := queues } := by
  unfold setStage
  split
  · exact ⟨e.queues, rfl⟩
  · exact ⟨_, rfl⟩

namespace Traced

variable {e e' d : Engine} {who : ℕ → Option Mark} {id : PacketID} {p : OutPtr}

/-- INTERNAL: The flow whose record is to be written is the one at its identifier. -/
theorem get_rewritten (hl : LiveFlow e p id) (hd : Rewritten e d p id) :
    d.out.get (d.outs p).id = some p := by
  rw [hd.touches.id_eq.trans hl.id_eq, hd.out]
  exact hl.get

section

variable (h : Traced e who)
include h

/-- INTERNAL: A number was taken for one identifier. -/
theorem eq_of_get (hl : LiveFlow e p id) {i : PacketID} {q : OutPtr} (hq : e.out.get i = some q)
    (hqp : q = p) : i = id := by
  have hi := (h.flow i q hq).1
  rw [hqp, (h.flow id p hl.get).1] at hi
  exact (congrArg Mark.id (Option.some.inj hi)).symm

/-- INTERNAL: A step that leaves the flows alone takes no number. -/
theorem quiet (hq : Quiet e e') : Traced e' who := by
  refine h.shrink hq.nextSeq.ge (by rw [hq.ids]) ?_ ?_
  · intro i q hget
    rw [hq.out] at hget
    exact ⟨hget, (hq.outs q).pubSeq, (hq.outs q).seq, fun hp => (hq.outs q).phase ▸ hp⟩
  · refine jobs_of_adds hq.jobs ?_
    intro k j r hj hr hc
    have hkey := hj.2.1.key r hr
    have hdir := hc.dir
    rw [hkey, hj.1] at hdir
    cases hdir

/-- INTERNAL: The end of a flow takes no number. -/
theorem retire (hl : LiveFlow e p id) (hd : Ended e d p id) : Traced (retireLocked d p) who := by
  have hsend := sendQueue_retireLocked d p hd.finished
  have hmax := congrArg Statics.max ((Acts.retireLocked d p).statics.trans hd.touches.statics)
  have hout : (retireLocked d p).out = d.out := congrArg SendQueue.out hsend
  have hseq : (retireLocked d p).nextSeq = d.nextSeq := congrArg SendQueue.nextSeq hsend
  refine h.shrink (hseq.trans hd.nextSeq).ge hmax ?_ ?_
  · intro i q hget
    rw [hout] at hget
    have hold := hd.touches.out i q hget
    have hne : q ≠ p := by
      intro hqp
      rw [h.eq_of_get hl hold hqp, hd.out] at hget
      cases hget
    have hflow : (retireLocked d p).outs q = d.outs q := by
      rcases retireLocked_cases d p with ⟨-, -, heq⟩ | ⟨-, -, -, heq⟩ | ⟨-, heq⟩
      · rw [heq, (Touches.completeLocked _ p).outs q hne, orphaned_outs]
      · rw [heq]
        obtain ⟨ids, stuck, hrel⟩ := releaseLocked_eq d (d.outs p).id .publish
        rw [hrel]
      · rw [heq, (Touches.settleLocked _ p).outs q hne, orphaned_outs]
    rw [hflow, hd.touches.outs q hne]
    exact ⟨hold, rfl, rfl, fun hp => hp⟩
  · have hadds := jobs_of_closing (adds_retireLocked d p)
    rw [hd.queues_eq] at hadds
    exact hadds

section

variable (hl : LiveFlow e p id) (hd : Rewritten e d p id)
include hl hd

/-- INTERNAL: A flow that keeps its list takes no number. -/
theorem rewrite (hphase : (d.outs p).phase ≠ .awaitPubcomp) : Traced (putOutLocked d p) who := by
  refine putOut ⟨?_, ?_, ?_⟩ (get_rewritten hl hd)
  · intro n m hn
    rw [hd.touches.ids]
    obtain ⟨hlt, hrange⟩ := h.bound n m hn
    exact ⟨hlt.trans_le hd.nextSeq, hrange⟩
  · intro i q hq
    rw [hd.out] at hq
    by_cases hqp : q = p
    · rw [h.eq_of_get hl hq hqp, hqp, hd.pubSeq]
      exact ⟨(h.flow id p hl.get).1, fun hcon => absurd hcon hphase⟩
    · rw [hd.touches.outs q hqp]
      exact h.flow i q hq
  · rw [hd.queues_eq]
    exact h.jobs

/-- INTERNAL: A flow that goes over to the PUBREC order takes the next number, for its PUBREC. -/
theorem pubrec (hphase : (d.outs p).phase = .awaitPubcomp) :
    Traced (putOutLocked d p)
      (Function.update who e.nextSeq (some ⟨id, some (e.outs p).pubSeq⟩)) ∧
    Grows who (Function.update who e.nextSeq (some ⟨id, some (e.outs p).pubSeq⟩)) := by
  obtain ⟨hplace, hlt⟩ := hd.place hphase
  have hpub := (h.flow id p hl.get).1
  obtain ⟨hmark, hgrow⟩ := h.mark (m := ⟨id, some (e.outs p).pubSeq⟩) (h.bound _ _ hpub).2 hlt
  refine ⟨putOut ⟨?_, ?_, ?_⟩ (get_rewritten hl hd), hgrow⟩
  · intro n m hn
    rw [hd.touches.ids]
    exact hmark.bound n m hn
  · intro i q hq
    rw [hd.out] at hq
    by_cases hqp : q = p
    · rw [h.eq_of_get hl hq hqp, hqp, hd.pubSeq, hplace]
      exact ⟨hgrow _ _ hpub, fun _ => update_self ..⟩
    · rw [hd.touches.outs q hqp]
      exact hmark.flow i q hq
  · rw [hd.queues_eq]
    exact hmark.jobs

end

end

/-- INTERNAL: **Only a PUBREC takes a number for a flow that exists.** -/
theorem pubRule (who : ℕ → Option Mark) : PubRule fun e => Traced e who :=
  ⟨fun _ _ h hq => h.quiet hq, fun _ _ _ _ h _ hl hd => h.retire hl hd,
    fun _ _ _ _ h _ hl hd hphase => h.rewrite hl hd hphase⟩

/-- A new flow takes the next number. -/
theorem register (h : Traced e who) (m : Message) (now : Time) (hf : e.failure = none)
    (hid : 1 ≤ m.id ∧ m.id ≤ e.ids.max) (hptr : ∀ i q, e.out.get i = some q → q < e.nextOut) :
    Traced (register e m now).1 (Function.update who e.nextSeq (some ⟨m.id, none⟩)) ∧
    Grows who (Function.update who e.nextSeq (some ⟨m.id, none⟩)) := by
  obtain ⟨hmark, hgrow⟩ := h.mark (m := ⟨m.id, none⟩) hid (Nat.lt_succ_self e.nextSeq)
  refine ⟨?_, hgrow⟩
  have hphase : (newOut e m now).phase ≠ .awaitPubcomp := by
    unfold newOut
    simp only
    split <;> simp
  have hself : (Program.register e m now).1.outs e.nextOut = newOut e m now := by
    unfold Program.register
    rw [if_neg (by simp [hf])]
    simp only
    split
    · simp [queueLocked]
    · simp
  have hold : ∀ q, q ≠ e.nextOut → (Program.register e m now).1.outs q = e.outs q := by
    intro q hq
    unfold Program.register
    rw [if_neg (by simp [hf])]
    simp only
    split
    · simp [queueLocked, hq]
    · simp [hq]
  have hout : (Program.register e m now).1.out = e.out.set m.id e.nextOut :=
    congrArg SendQueue.out (sendQueue_register e m now hf)
  have hseq : (Program.register e m now).1.nextSeq = e.nextSeq + 1 :=
    congrArg SendQueue.nextSeq (sendQueue_register e m now hf)
  have hmax : (Program.register e m now).1.ids.max = e.ids.max :=
    congrArg Statics.max (statics_register e m now)
  refine ⟨?_, ?_, ?_⟩
  · intro n i hn
    rw [hseq, hmax]
    exact hmark.bound n i hn
  · intro i q hq
    rw [hout, get_set] at hq
    split at hq
    · rename_i hi
      cases hq
      rw [hself, hi]
      exact ⟨update_self .., fun hcon => absurd hcon hphase⟩
    · rw [hold q (hptr i q hq).ne]
      exact hmark.flow i q hq
  · intro k j hj r hr
    unfold Program.register at hj
    rw [if_neg (by simp [hf])] at hj
    simp only at hj
    split at hj
    · by_cases hk : k = outKey m.id
      · have hj : j ∈ e.queues k ++ [⟨.putNew (record (newOut e m now)), .out e.nextOut, e.epoch,
            .queued⟩] := by
          rw [hk] at hj ⊢
          simpa [queueLocked, newOut] using hj
        rcases mem_append.mp hj with hj | hj
        · exact hmark.jobs k j hj r hr
        · cases mem_singleton.mp hj
          cases hr
          intro hc
          rw [hk]
          exact ⟨update_self .., fun hcon => absurd hcon hphase⟩
      · refine hmark.jobs k j ?_ r hr
        have hk' : k ≠ outKey (newOut e m now).id := hk
        simpa [queueLocked, hk'] using hj
    · exact hmark.jobs k j hj r hr

end Traced

/-! ### The PUBRECs -/

/-- The PUBREC that a step applies, if any: the identifier, and the number under which the flow was
first sent. -/
def applied (s t : Sys) : Event → List (PacketID × ℕ)
  | .pubrec id _ _ => match s.eng.out.get id with
    | some p =>
      if (s.eng.outs p).phase ≠ .awaitPubcomp ∧ (t.eng.outs p).phase = .awaitPubcomp then
        [(id, (s.eng.outs p).pubSeq)]
      else []
    | none => []
  | _ => []

/-- The numbers that the step takes are for sends, or the next one for the PUBREC it applies. -/
def Noted (s : Sys) (a : Event) (t : Sys) (who who' : ℕ → Option Mark) : Prop :=
  ∀ n m, who' n = some m → who n = some m ∨ m.sent = none ∨
    n = s.eng.nextSeq ∧ ∃ i, m.sent = some i ∧ applied s t a = [(m.id, i)]

section Noted

variable {s t : Sys} {who : ℕ → Option Mark}

/-- INTERNAL: The step takes no number. -/
theorem Noted.same : Noted s a t who who := fun _ _ h => .inl h

/-- INTERNAL: The step takes the next number. -/
theorem Noted.mark {m : Mark}
    (hm : m.sent = none ∨ ∃ i, m.sent = some i ∧ applied s t a = [(m.id, i)]) :
    Noted s a t who (Function.update who s.eng.nextSeq (some m)) := by
  intro n m' hn
  by_cases hnext : n = s.eng.nextSeq
  · rw [hnext, update_self] at hn
    cases hn
    exact .inr (hm.imp id fun hi => ⟨hnext, hi⟩)
  · rw [update_of_ne hnext] at hn
    exact .inl hn

end Noted

/-! ### The store -/

/-- The flows of the session, the records on their way, in the store and loaded from it have the
numbers that were taken for them. -/
structure Known (s : Sys) (who : ℕ → Option Mark) : Prop where
  traced : Traced s.eng who
  keys : ∀ k r, s.store.records.get k = some r → r.key = k
  stored : ∀ k r, s.store.records.get k = some r → Places who k r
  loaded : ∀ m recs, s.loaded = some (m, recs) → Loadable recs ∧ ∀ r ∈ recs, Places who r.key r

theorem loadsBefore_total (a b : Record) : MemoryStore.loadsBefore a b ∨
    MemoryStore.loadsBefore b a := by
  unfold MemoryStore.loadsBefore
  cases a.key.dir <;> cases b.key.dir
  · exact Nat.le_total a.seq b.seq
  · exact .inl trivial
  · exact .inr trivial
  · exact Nat.le_total a.key.packetID b.key.packetID

theorem loadsBefore_trans {a b c : Record} (h : MemoryStore.loadsBefore a b)
    (h' : MemoryStore.loadsBefore b c) : MemoryStore.loadsBefore a c := by
  unfold MemoryStore.loadsBefore at h h' ⊢
  cases ha : a.key.dir <;> cases hb : b.key.dir <;> cases hc : c.key.dir <;>
    simp only [ha, hb, hc] at h h' ⊢
  · exact Nat.le_trans h h'
  · exact Nat.le_trans h h'

namespace MemoryStore

variable {store : MemoryStore}

/-- What is loaded is what is stored. -/
theorem mem_load (hkeys : ∀ k r, store.records.get k = some r → r.key = k) (r : Record) :
    r ∈ store.load.2 ↔ store.records.get r.key = some r := by
  unfold MemoryStore.load
  simp only
  rw [(perm_insertionSort _ _).mem_iff, mem_vals]
  constructor
  · rintro ⟨k, hk⟩
    rw [hkeys k r hk]
    exact hk
  · intro hr
    exact ⟨r.key, hr⟩

/-- One record is loaded for a key. -/
theorem nodup_load (hkeys : ∀ k r, store.records.get k = some r → r.key = k) :
    (store.load.2.map Record.key).Nodup := by
  have hperm := (perm_insertionSort MemoryStore.loadsBefore store.records.vals).map Record.key
  rw [show store.load.2 = store.records.vals.insertionSort MemoryStore.loadsBefore from rfl,
    hperm.nodup_iff]
  have heq : store.records.vals.map Record.key = store.records.toList.map Prod.fst := by
    unfold FiniteMap.vals
    rw [map_map]
    apply map_congr_left
    intro x hx
    exact hkeys x.1 x.2 ((mem_toList _ _ _).mp hx)
  rw [heq]
  exact nodup_keys _

theorem sorted_load : store.load.2.Pairwise MemoryStore.loadsBefore := by
  have htotal : Std.Total MemoryStore.loadsBefore := ⟨loadsBefore_total⟩
  have htrans : IsTrans Record MemoryStore.loadsBefore := ⟨fun _ _ _ => loadsBefore_trans⟩
  exact pairwise_insertionSort _ _

end MemoryStore

namespace Known

variable {s : Sys} {who : ℕ → Option Mark}

section

variable (h : Known s who)
include h

/-- INTERNAL: **The store loads what can be restored.** -/
theorem loadable : Loadable s.store.load.2 := by
  have hnodup := MemoryStore.nodup_load h.keys
  have hdistinct : s.store.load.2.Pairwise fun a b => a.key ≠ b.key := pairwise_map.mp hnodup
  have hplaces : ∀ r ∈ s.store.load.2, Places who r.key r := fun r hr =>
    h.stored _ r ((MemoryStore.mem_load h.keys r).mp hr)
  have hsame : ∀ a b : Record, Continues a → Continues b → ∀ n x y,
      who n = some ⟨a.key.packetID, x⟩ → who n = some ⟨b.key.packetID, y⟩ → a.key = b.key := by
    intro a b ha hb n x y hna hnb
    rw [hna] at hnb
    have hid := congrArg Mark.id (Option.some.inj hnb)
    have hda := ha.dir
    have hdb := hb.dir
    rcases hka : a.key with ⟨da, ia⟩
    rcases hkb : b.key with ⟨db, ib⟩
    rw [hka, hkb] at hid
    rw [hka] at hda
    rw [hkb] at hdb
    simp only at hid hda hdb
    rw [hid, hda, hdb]
  refine ⟨hnodup, ?_, ?_⟩
  · apply (MemoryStore.sorted_load.and hdistinct).imp_of_mem
    rintro a b ha hb ⟨hle, hne⟩ hca hcb
    unfold MemoryStore.loadsBefore at hle
    rw [hca.dir, hcb.dir] at hle
    refine Nat.lt_of_le_of_ne hle ?_
    intro heq
    refine hne (hsame a b hca hcb a.seq none none (hplaces a ha hca).1 ?_)
    rw [heq]
    exact (hplaces b hb hcb).1
  · apply hdistinct.imp_of_mem
    intro a b ha hb hne hca hcb hpa hpb heq
    refine hne (hsame a b hca hcb a.pubrecSeq _ (some b.seq) ((hplaces a ha hca).2 hpa) ?_)
    rw [heq]
    exact (hplaces b hb hcb).2 hpb

/-- A step of the engine beside the store. -/
theorem of_traced {t : Sys} {who' : ℕ → Option Mark} (hg : Grows who who')
    (ht : Traced t.eng who') (hstore : t.store.records = s.store.records)
    (hloaded : t.loaded = s.loaded) : Known t who' := by
  refine ⟨ht, ?_, ?_, ?_⟩
  · rw [hstore]
    exact h.keys
  · intro k r hr
    rw [hstore] at hr
    exact (h.stored k r hr).grow hg
  · intro m recs hrecs
    rw [hloaded] at hrecs
    obtain ⟨hl, hp⟩ := h.loaded m recs hrecs
    exact ⟨hl, fun r hr => (hp r hr).grow hg⟩

/-- A step that starts and moves no flow. -/
theorem shrink {t : Sys} (hnext : s.eng.nextSeq ≤ t.eng.nextSeq)
    (hmax : t.eng.ids.max = s.eng.ids.max)
    (hflow : ∀ i q, t.eng.out.get i = some q → s.eng.out.get i = some q ∧
      (t.eng.outs q).pubSeq = (s.eng.outs q).pubSeq ∧ (t.eng.outs q).seq = (s.eng.outs q).seq ∧
      ((t.eng.outs q).phase = .awaitPubcomp → (s.eng.outs q).phase = .awaitPubcomp))
    (hjobs : ∀ k, ∀ j ∈ t.eng.queues k, ∀ r, putOf j.kind = some r →
      (∃ i ∈ s.eng.queues k, putOf i.kind = some r) ∨ ¬ Continues r)
    (hstore : t.store.records = s.store.records) (hloaded : t.loaded = s.loaded) :
    Known t who :=
  h.of_traced (Grows.refl who) (h.traced.shrink hnext hmax hflow hjobs) hstore hloaded

/-- A write reaches the store. -/
theorem write (hj : JobInv s.eng) {j : Job} {rest : List Job} (hq : s.eng.queues k = j :: rest) :
    (∀ k' r, (Sys.storeEffect k j.kind s.store).records.get k' = some r → r.key = k') ∧
    ∀ k' r, (Sys.storeEffect k j.kind s.store).records.get k' = some r → Places who k' r := by
  have hmem := head_mem hq
  have hput : ∀ r, putOf j.kind = some r →
      (∀ k' r', (s.store.put r).records.get k' = some r' → r'.key = k') ∧
      ∀ k' r', (s.store.put r).records.get k' = some r' → Places who k' r' := by
    intro r hr
    have hkey := hj.key k j hmem r hr
    refine ⟨?_, ?_⟩
    · intro k' r' hr'
      simp only [MemoryStore.put, get_set] at hr'
      split at hr'
      · rename_i hk
        rw [← Option.some.inj hr']
        exact hk.symm
      · exact h.keys k' r' hr'
    · intro k' r' hr'
      simp only [MemoryStore.put, get_set] at hr'
      split at hr'
      · rename_i hk
        rw [← Option.some.inj hr', hk, hkey]
        exact h.traced.jobs k j hmem r hr
      · exact h.stored k' r' hr'
  have hdel : (∀ k' r', (s.store.delete k).records.get k' = some r' → r'.key = k') ∧
      ∀ k' r', (s.store.delete k).records.get k' = some r' → Places who k' r' := by
    have hget : ∀ k' r', (s.store.delete k).records.get k' = some r' →
        s.store.records.get k' = some r' := by
      intro k' r' hr'
      simp only [MemoryStore.delete, get_del] at hr'
      split at hr'
      · cases hr'
      · exact hr'
    exact ⟨fun k' r' hr' => h.keys k' r' (hget k' r' hr'),
      fun k' r' hr' => h.stored k' r' (hget k' r' hr')⟩
  cases hkind : j.kind with
  | putNew r | putOut r | putIn r => exact hput r (by rw [hkind]; rfl)
  | settle f o ref => exact hdel
  | deleteIn => exact hdel

end

/-- The end of a write. -/
theorem finish {on : Prop} (hc : Core on s) (h : Known s who) {j : Job}
    {rest : List Job} {res : Option JobErr} (hq : s.eng.queues k = j :: rest) :
    Traced (finishJob s.eng k j res) who := by
  have hpop : ∀ e, Traced e who → Traced (popJob e k) who := fun e he =>
    he.shrink le_rfl rfl (fun _ _ hi => ⟨hi, rfl, rfl, fun hp => hp⟩)
      (jobs_of_sub (subJobs_popJob e k))
  rcases Core.finishJob_cases s.eng k j res with ⟨hep, hcase⟩ | ⟨-, heq⟩
  · have hafter : Traced (afterJob s.eng j res).1 who := by
      have hs := (Acts.afterJob s.eng j res).statics
      have hjobs : ∀ k, ∀ j' ∈ (afterJob s.eng j res).1.queues k, ∀ r, putOf j'.kind = some r →
          (∃ i ∈ s.eng.queues k, putOf i.kind = some r) ∨ ¬ Continues r := by
        rcases afterJob_jobs s.eng j res with ⟨hsub, -⟩ | hadds
        · exact jobs_of_sub hsub
        · exact jobs_of_closing hadds
      have hflow : (afterJob s.eng j res).1.nextSeq = s.eng.nextSeq ∧
          ∀ i q, (afterJob s.eng j res).1.out.get i = some q → s.eng.out.get i = some q ∧
            flowOf ((afterJob s.eng j res).1.outs q) = flowOf (s.eng.outs q) := by
        rcases sendQueue_afterJob s.eng j res (hc.settle_finished hq hep) with heq |
          ⟨p, r, -, -, -, heq⟩
        · refine ⟨congrArg SendQueue.nextSeq heq, ?_⟩
          intro i q hi
          have hout : (afterJob s.eng j res).1.out = s.eng.out := congrArg SendQueue.out heq
          rw [hout] at hi
          exact ⟨hi, congrFun (congrArg SendQueue.flows heq) q⟩
        · refine ⟨congrArg SendQueue.nextSeq heq, ?_⟩
          intro i q hi
          have hget : (sendQueue (afterJob s.eng j res).1).out.get i = some q := hi
          rw [heq] at hget
          obtain ⟨hold, hsame⟩ := hc.ordered.finish_get hget
          exact ⟨hold, (congrFun (congrArg SendQueue.flows heq) q).trans hsame⟩
      refine h.traced.shrink hflow.1.ge (congrArg Statics.max hs) ?_ hjobs
      intro i q hi
      obtain ⟨hold, hsame⟩ := hflow.2 i q hi
      exact ⟨hold, flow_same hsame (hc.ordered.live_of_get hold).2⟩
    rcases hcase with ⟨-, heq⟩ | ⟨err, -, heq⟩
    · rw [heq]
      exact hpop _ hafter
    · rw [heq]
      exact (hpop _ hafter).fail err
  · rw [heq]
    exact hpop _ h.traced

/-- INTERNAL: **A PUBREC** takes the next number for the flow it is applied to. -/
theorem pubrec {on : Prop} (hc : Core on s) (h : Known s who) (id : PacketID) (rc : ReasonCode)
    (refused : Option PubErr) :
    ∃ who', Known (s.answered id (handlePubrec s.eng id rc refused)) who' ∧
      Noted s (.pubrec id rc refused) (s.answered id
        (handlePubrec s.eng id rc refused)) who who' := by
  have hsame : Traced (handlePubrec s.eng id rc refused) who → ∃ who',
      Known (s.answered id (handlePubrec s.eng id rc refused)) who' ∧
      Noted s (.pubrec id rc refused) (s.answered id (handlePubrec s.eng id rc refused)) who who' :=
    fun ht => ⟨who, h.of_traced (Grows.refl who) ht rfl rfl, .same⟩
  rcases handlePubrec_cases hc.ordered id rc refused with
    hq | ⟨p, hf, hl, heq | ⟨hphase, d, hd, hawait, heq⟩⟩
  · exact hsame (h.traced.quiet hq)
  · refine hsame ?_
    rw [heq]
    exact (Traced.pubRule who).refused h.traced hf hl rc refused
  · obtain ⟨ht, hg⟩ := h.traced.pubrec hl hd hawait
    have happlied : applied s (s.answered id (handlePubrec s.eng id rc refused))
        (.pubrec id rc refused) = [(id, (s.eng.outs p).pubSeq)] := by
      have hmoved : ((handlePubrec s.eng id rc refused).outs p).phase = .awaitPubcomp := by
        have houts : (putOutLocked d p).outs = d.outs := by
          unfold putOutLocked
          split
          · rfl
          · rfl
        rw [heq, houts]
        exact hawait
      simp only [applied, hl.get]
      exact if_pos ⟨hphase, hmoved⟩
    rw [← heq] at ht
    exact ⟨_, h.of_traced hg ht rfl rfl, .mark (.inr ⟨_, rfl, happlied⟩)⟩

/-- Every step but those that replace the session. -/
theorem change {on : Prop} {t : Sys} (hc : Core on s) (h : Known s who)
    (hch : Change s a t) : ∃ who', Known t who' ∧ Noted s a t who who' := by
  have hnone : ∀ i q, s.eng.out.get i = some q → s.eng.out.get i = some q ∧
      (s.eng.outs q).pubSeq = (s.eng.outs q).pubSeq ∧ (s.eng.outs q).seq = (s.eng.outs q).seq ∧
      ((s.eng.outs q).phase = .awaitPubcomp → (s.eng.outs q).phase = .awaitPubcomp) :=
    fun i q hi => ⟨hi, rfl, rfl, fun hp => hp⟩
  have hold : ∀ k, ∀ j ∈ s.eng.queues k, ∀ r, putOf j.kind = some r →
      (∃ i ∈ s.eng.queues k, putOf i.kind = some r) ∨ ¬ Continues r :=
    fun k j hj r hr => .inl ⟨j, hj, hr⟩
  have hstage : ∀ k st, Traced (setStage s.eng k st) who := by
    intro k st
    have hjobs := jobs_of_sub (subJobs_setStage s.eng k st)
    obtain ⟨queues, heq⟩ := setStage_eq s.eng k st
    rw [heq] at hjobs ⊢
    exact h.traced.shrink le_rfl rfl hnone hjobs
  cases hch with
  | flows heng hrest =>
    have hstore : t.store = s.store := by rw [hrest]
    have hloaded : t.loaded = s.loaded := by rw [hrest]
    have ht := heng _ (Traced.pubRule who) h.traced
    exact ⟨who, h.of_traced (Grows.refl who) ht (by rw [hstore]) hloaded, .same⟩
  | @pubrec id rc refused => exact h.pubrec hc id rc refused
  | table hmax => exact ⟨who, h.shrink le_rfl hmax hnone hold rfl rfl, .same⟩
  | @register m now hheld =>
    by_cases hf : s.eng.failure = none
    · obtain ⟨own, hown⟩ := hc.owners
      obtain ⟨-, howner, hne⟩ := hown.caller _ _ hheld
      have hid := hown.table.range m.id (by rw [howner]; exact hne)
      obtain ⟨ht, hg⟩ := h.traced.register m now hf hid fun i q hq =>
        (hc.ordered.live_of_get hq).1
      exact ⟨_, h.of_traced hg ht rfl rfl, .mark (.inl rfl)⟩
    · have hmax := congrArg Statics.max (Acts.releaseLocked s.eng m.id .publish).statics
      have heq : (register s.eng m now).1 = releaseLocked s.eng m.id .publish := by
        unfold register
        rw [if_pos (Core.failed_isSome hf)]
      obtain ⟨ids, stuck, hrel⟩ := releaseLocked_eq s.eng m.id .publish
      have ht : Traced (register s.eng m now).1 who := by
        rw [heq]
        rw [hrel] at hmax ⊢
        exact h.traced.shrink le_rfl hmax hnone hold
      exact ⟨who, h.of_traced (Grows.refl who) ht rfl rfl, .same⟩
  | @adopt ref f =>
    have hsend := sendQueue_adopt s.eng ref f
    have hout : (adopt s.eng ref f).1.out = s.eng.out := congrArg SendQueue.out hsend
    refine ⟨who, h.shrink (congrArg SendQueue.nextSeq hsend).ge
      (congrArg Statics.max (Acts.adopt s.eng ref f).statics) ?_
      (jobs_of_closing (adds_adopt s.eng ref f))
      rfl rfl, .same⟩
    intro i q hq
    have hq : (adopt s.eng ref f).1.out.get i = some q := hq
    rw [hout] at hq
    exact ⟨hq, flow_same (congrFun (congrArg SendQueue.flows hsend) q)
      (hc.ordered.live_of_get hq).2⟩
  | callSettle hq | settleReturn hq hst =>
    exact ⟨who, h.of_traced (Grows.refl who) (hstage _ _) rfl rfl, .same⟩
  | @doStore k err applied j rest st store hq hat hst =>
    have ht := hstage k st
    obtain ⟨hkeys, hplaces⟩ := h.write hc.jobs hq
    have hstore : store = s.store ∨ store = Sys.storeEffect k j.kind s.store := by
      rcases hst with ⟨-, -, heq⟩ | ⟨-, -, heq⟩
      · exact .inl heq
      · split at heq
        · exact .inr heq
        · exact .inl heq
    rcases hstore with rfl | rfl
    · exact ⟨who, ⟨ht, h.keys, h.stored, h.loaded⟩, .same⟩
    · exact ⟨who, ⟨ht, hkeys, hplaces, h.loaded⟩, .same⟩
  | finish hq _ =>
    exact ⟨who, h.of_traced (Grows.refl who) (h.finish hc hq) rfl rfl, .same⟩
  | aside heng hstore hrest =>
    have ht : Traced t.eng who := by
      rw [heng]
      exact h.traced.shrink le_rfl rfl hnone hold
    rcases hstore with hstore | hstore
    · exact ⟨who, h.of_traced (Grows.refl who) ht hstore hrest.1, .same⟩
    · have hempty : ∀ k r, t.store.records.get k ≠ some r := by
        intro k r hr
        rw [hstore, get_empty] at hr
        cases hr
      refine ⟨who, ⟨ht, fun k r hr => absurd hr (hempty k r),
        fun k r hr => absurd hr (hempty k r), ?_⟩, .same⟩
      rw [hrest.1]
      exact h.loaded
  | failed => exact ⟨who, h.of_traced (Grows.refl who) (h.traced.fail _) rfl rfl, .same⟩
  | load =>
    refine ⟨who, ⟨h.traced, h.keys, h.stored, ?_⟩, .same⟩
    intro m recs hrecs
    have hrecs := Option.some.inj hrecs
    split at hrecs
    · have hload : s.store.load.2 = recs := congrArg Prod.snd hrecs
      rw [← hload]
      exact ⟨h.loadable, fun r hr => h.stored _ r ((MemoryStore.mem_load h.keys r).mp hr)⟩
    · have hload : [] = recs := congrArg Prod.snd hrecs
      rw [← hload]
      exact ⟨⟨nodup_nil, List.Pairwise.nil, List.Pairwise.nil⟩, fun r hr => by cases hr⟩

/-- The flows of a rebuilt session have the numbers of their records. -/
theorem rebuilt {recs : List Record} (hr : Rebuilt e e' recs)
    (hidle : ∀ k, e.queues k = []) (hp : ∀ r ∈ recs, Places who r.key r)
    (hb : ∀ n m, who n = some m → n < e'.nextSeq ∧ 1 ≤ m.id ∧ m.id ≤ e'.ids.max) :
    Traced e' who := by
  refine ⟨hb, ?_, ?_⟩
  · intro id p hget
    have hlive := hr.steady.ordered.live_of_get hget
    have hid : (e'.outs p).id = id := hr.steady.ordered.id_of_get hget
    obtain ⟨r, hmem, hc, hout⟩ := hr.flows p hlive
    obtain ⟨hseq, hplace⟩ := hp r hmem hc
    have hkey : r.key.packetID = id := by
      rw [← hid, hout]
      rfl
    rw [hkey] at hseq hplace
    rw [hout]
    refine ⟨hseq, ?_⟩
    intro hphase
    have hphase : r.phase = .awaitPubcomp := hphase
    show who (if r.phase = .awaitPubcomp then r.pubrecSeq else r.seq) = some ⟨id, some r.seq⟩
    rw [if_pos hphase]
    exact hplace hphase
  · intro k j hj
    rw [hr.jobs.1, hidle k] at hj
    cases hj

/-- A new process takes up the numbers of the records it loads. -/
theorem fresh (h : Known s who) {t : Sys} (hmax : 0 < s.eng.ids.max)
    (ht : Sys.fresh s.eng.cfg s.eng.ids.max s.store = some t) :
    ∃ who', Known t who' ∧ Noted s .restart t who who' := by
  obtain ⟨hr, heq⟩ := fresh_rebuilt hmax h.loadable ht
  have htmax : t.eng.ids.max = s.eng.ids.max := hr.frame.2.2.2.2
  have hstore : t.store = s.store := by rw [heq]
  have hplaces : ∀ r, s.store.records.get r.key = some r →
      Places (fun n => if n < t.eng.nextSeq then who n else none) r.key r := by
    intro r hget hc
    obtain ⟨hseq, hplace⟩ := h.stored _ r hget hc
    have hrange := (h.traced.bound _ _ hseq).2
    rw [← htmax] at hrange
    obtain ⟨hlt, hlt'⟩ := hr.known r ((MemoryStore.mem_load h.keys r).mpr hget) hc hrange
    refine ⟨?_, ?_⟩
    · simp only [hlt, if_true]
      exact hseq
    · intro hphase
      simp only [hlt' hphase, if_true]
      exact hplace hphase
  refine ⟨fun n => if n < t.eng.nextSeq then who n else none,
    ⟨rebuilt hr (fun _ => rfl) ?_ ?_, ?_, ?_, ?_⟩, ?_⟩
  · intro r hmem
    exact hplaces r ((MemoryStore.mem_load h.keys r).mp hmem)
  · intro n id hn
    split at hn
    · rename_i hlt
      rw [htmax]
      exact ⟨hlt, (h.traced.bound n id hn).2⟩
    · cases hn
  · rw [hstore]
    exact h.keys
  · intro k r hr'
    rw [hstore] at hr'
    have hkey := h.keys k r hr'
    rw [← hkey] at hr' ⊢
    exact hplaces r hr'
  · intro m recs hrecs
    rw [heq] at hrecs
    cases hrecs
  · intro n m hn
    simp only at hn
    split at hn
    · exact .inl hn
    · cases hn

end Known

end Mqttv5.Analysis
