import Mqttv5.Analysis.Owners

/-!
# Identifiers through the operations

Every operation of the engine keeps each identifier with one holder: `Register` takes it over
from the caller, a flow keeps it to the end of its last write, and only then is it free.
-/

set_option autoImplicit false

namespace Mqttv5.Analysis

open Mqttv5.Computation Model Program List
open Function (update_eq_self update_of_ne update_self)

/-- The engine with `p` among the orphans when it has a Ref. -/
def orphaned (e : Engine) (p : OutPtr) : Engine :=
  if (e.outs p).ref ≠ [] then { e with orphans := e.orphans.set (e.outs p).ref p } else e

section

variable (e : Engine)

section

variable (p : OutPtr)

theorem orphaned_outs : (orphaned e p).outs = e.outs := by
  unfold orphaned
  split <;> rfl

theorem orphaned_queues : (orphaned e p).queues = e.queues := by
  unfold orphaned
  split <;> rfl

theorem statics_orphaned : statics (orphaned e p) = statics e := by
  unfold orphaned
  split <;> rfl

theorem Touches.orphaned (id : PacketID)
    (h : (e.outs p).finished = true) : Touches e (Analysis.orphaned e p) p id := by
  unfold Analysis.orphaned
  split
  · rename_i href
    exact Touches.setOrphan e p id h href
  · exact Touches.refl e p id

/-- How a finished flow is disposed of: kept for its producer, its identifier
released at once, or its outcome settled. -/
theorem retireLocked_cases :
    ((e.outs p).ref ≠ [] ∧ (e.outs p).settle = none ∧
      retireLocked e p = completeLocked (orphaned e p) p) ∨
    ((e.outs p).ref = [] ∧ (e.outs p).settle = none ∧ e.cfg.store = false ∧
      retireLocked e p = releaseLocked e (e.outs p).id .publish) ∨
    (((e.outs p).settle ≠ none ∨ (e.outs p).ref = [] ∧ e.cfg.store = true) ∧
      retireLocked e p = settleLocked (orphaned e p) p) := by
  unfold retireLocked orphaned
  by_cases href : (e.outs p).ref = [] <;> by_cases hsettle : (e.outs p).settle = none <;>
    cases hstore : e.cfg.store <;> simp [href, hsettle]

/-- The outcome of an ended flow is written into its record, or has no stored form. -/
theorem completeLocked_cases :
    (completeLocked e p = e ∧ (e.cfg.store = false ∨ (e.outs p).phase = .completed ∨
      encodeOutcome (e.outs p) = none)) ∨
    ∃ c, e.cfg.store = true ∧ (e.outs p).phase ≠ .completed ∧
      encodeOutcome (e.outs p) = some c ∧
      completeLocked e p = queueLocked
        (setOut e p fun o => { o with phase := .completed, outcome := c })
        (outKey (e.outs p).id) (.out p)
        (.putOut (record { e.outs p with phase := .completed, outcome := c })) := by
  unfold completeLocked
  by_cases hcond : ¬ e.cfg.store ∨ (e.outs p).phase = .completed
  · left
    rw [if_pos hcond]
    rcases hcond with hstore | hphase
    · exact ⟨rfl, .inl (by simpa using hstore)⟩
    · exact ⟨rfl, .inr (.inl hphase)⟩
  · rw [if_neg hcond]
    rw [not_or, not_not] at hcond
    cases henc : encodeOutcome (e.outs p) with
    | none => exact .inl ⟨rfl, .inr (.inr rfl)⟩
    | some c =>
      refine Or.inr ⟨c, hcond.1, hcond.2, rfl, ?_⟩
      simp only [putOutLocked, setOut, hcond.1, if_true, update_self]

end

theorem queueLocked_self (k : RecordKey) (o : FlowPtr) (j : JobKind) :
    (queueLocked e k o j).queues k = e.queues k ++ [⟨j, o, e.epoch, .queued⟩] := by
  simp [queueLocked]

/-- Storing an outcome adds at most one Put to the writes of the flow. -/
theorem completeLocked_keeps (p : OutPtr) :
    ∃ extra, (completeLocked e p).queues (outKey (e.outs p).id) =
        e.queues (outKey (e.outs p).id) ++ extra ∧
      ((extra = [] ∨ e.cfg.store = true ∧ ∃ r, extra = [⟨.putOut r, .out p, e.epoch, .queued⟩]) ∧
        ∀ j ∈ extra, isSettle j.kind = false ∧ j.owner = .out p ∧ j.epoch = e.epoch) ∧
      (∃ phase outcome, (completeLocked e p).outs p =
        { e.outs p with phase := phase, outcome := outcome }) ∧
      (completeLocked e p).out = e.out ∧ (completeLocked e p).refs = e.refs ∧
      (completeLocked e p).orphans = e.orphans ∧ (completeLocked e p).dropped = e.dropped := by
  rcases completeLocked_cases e p with ⟨heq, -⟩ | ⟨c, hstore, -, -, heq⟩
  · rw [heq]
    exact ⟨[], (append_nil _).symm, ⟨.inl rfl, by simp⟩, ⟨_, _, rfl⟩, rfl, rfl, rfl, rfl⟩
  · rw [heq]
    refine ⟨[⟨.putOut (record { e.outs p with phase := .completed, outcome := c }), .out p,
      e.epoch, .queued⟩], ?_, ⟨.inr ⟨hstore, _, rfl⟩, ?_⟩, ⟨.completed, c, ?_⟩, rfl, rfl, rfl,
      rfl⟩
    · simp [queueLocked, setOut]
    · intro j hj
      cases mem_singleton.mp hj
      exact ⟨rfl, rfl, rfl⟩
    · simp [queueLocked, setOut]

theorem settleLocked_self (p : OutPtr) :
    (settleLocked e p).outs p = { e.outs p with settling := true } ∧
    (settleLocked e p).queues (outKey (e.outs p).id) = e.queues (outKey (e.outs p).id) ++
      [⟨.settle (e.outs p).settle (e.outs p).err (e.outs p).ref, .out p, e.epoch, .queued⟩] := by
  simp [settleLocked, queueLocked, setOut]

end

/-- What Register does to the identifiers, the flows and the writes. -/
theorem register_keeps {e : Engine} (m : Message) (now : Time) (hf : e.failure = none) :
    ((register e m now).1.ids = e.ids ∧ (register e m now).1.stuck = e.stuck) ∧
    (register e m now).1.outs = Function.update e.outs e.nextOut (newOut e m now) ∧
    (register e m now).1.out = e.out.set m.id e.nextOut ∧
    (register e m now).1.refs =
      (if m.ref ≠ [] then e.refs.set m.ref e.nextOut else e.refs) ∧
    (register e m now).1.orphans = e.orphans ∧ (register e m now).1.dropped = e.dropped ∧
    (register e m now).1.nextOut = e.nextOut + 1 ∧ (register e m now).1.epoch = e.epoch ∧
    (∀ k, k ≠ outKey m.id → (register e m now).1.queues k = e.queues k) ∧
    ∃ extra, (register e m now).1.queues (outKey m.id) = e.queues (outKey m.id) ++ extra ∧
      (extra = [] ∨ e.cfg.store = true ∧ extra = [⟨.putNew (record (newOut e m now)),
        .out e.nextOut, e.epoch, .queued⟩]) := by
  unfold register
  rw [if_neg (by simp [hf])]
  simp only
  split
  · refine ⟨⟨rfl, rfl⟩, rfl, rfl, rfl, rfl, rfl, rfl, rfl, ?_, [_], ?_, .inr ⟨‹_›, rfl⟩⟩
    · intro k hk
      simp only [queueLocked]
      rw [update_of_ne]
      exact hk
    · simp [queueLocked, newOut]
  · exact ⟨⟨rfl, rfl⟩, rfl, rfl, rfl, rfl, rfl, rfl, rfl, fun _ _ => rfl, [],
      (append_nil _).symm, .inl rfl⟩

/-- Writing the outcome of an ended flow keeps its slot. -/
theorem completeLocked_slot (e : Engine) (p : OutPtr) {id : PacketID}
    (hid : (e.outs p).id = id) (hset : (e.outs p).settling = false)
    (h : SlotOf e.cfg.store e.epoch p (e.outs p) (e.queues (outKey id))) :
    SlotOf e.cfg.store e.epoch p ((completeLocked e p).outs p)
      ((completeLocked e p).queues (outKey id)) := by
  rcases completeLocked_cases e p with ⟨heq, _⟩ | ⟨c, hstore, _, _, heq⟩
  · rw [heq]
    exact h
  · rw [heq, hid, queueLocked_self]
    rw [hstore] at h ⊢
    have hput := h.put hset (record { e.outs p with phase := .completed, outcome := c })
    refine (hput.congr (x := ((queueLocked (setOut e p fun o =>
      { o with phase := .completed, outcome := c }) (outKey id) (.out p) (.putOut (record
        { e.outs p with phase := .completed, outcome := c }))).outs p)) ?_ ?_ ?_ ?_ ?_) <;>
      simp [queueLocked, setOut]

/-- What the steps before its retirement leave of a flow that ends. -/
structure Ended (e d : Engine) (p : OutPtr) (id : PacketID) : Prop where
  touches : Touches e d p id
  queues : d.queues (outKey id) = e.queues (outKey id)
  finished : (d.outs p).finished = true
  settling : (d.outs p).settling = (e.outs p).settling
  adopted : (d.outs p).adopted = (e.outs p).adopted
  settle : (d.outs p).settle = (e.outs p).settle
  ref : (d.outs p).ref = (e.outs p).ref
  attempted : (d.outs p).attempted = (e.outs p).attempted
  record : record (d.outs p) = record (e.outs p)
  out : d.out.get id = none
  orphans : d.orphans = e.orphans
  nextSeq : d.nextSeq = e.nextSeq
  writes : d.writes = e.writes
  refs : d.refs = if (e.outs p).ref ≠ [] then e.refs.del (e.outs p).ref else e.refs
  dropped : d.dropped = e.dropped

theorem Ended.finishLocked {e d : Engine} {p : OutPtr} {id : PacketID} (ht : Touches e d p id)
    (hq : d.queues = e.queues) (ho : d.outs p = e.outs p) (horph : d.orphans = e.orphans)
    (hseq : d.nextSeq = e.nextSeq) (hwrites : d.writes = e.writes)
    (hprod : d.refs = e.refs ∧ d.dropped = e.dropped) (hid : (e.outs p).id = id)
    (err : Option PubErr) : Ended e (finishLocked d p err) p id := by
  obtain ⟨hrefs, hdropped⟩ := hprod
  have hdel : (Program.finishLocked d p err).refs =
      if (e.outs p).ref ≠ [] then e.refs.del (e.outs p).ref else e.refs := by
    unfold Program.finishLocked
    simp only [ho, ← hrefs]
    split <;> rfl
  refine ⟨ht.trans (Touches.finishLocked d p id err), ?_, ?_, ?_, ?_, ?_, ?_, ?_, ?_, ?_, ?_,
    ?_, ?_, hdel, ?_⟩ <;>
    unfold Program.finishLocked <;> simp only <;> split <;>
    simp [setOut, hq, ho, horph, hid, hseq, hwrites, hdropped, Program.record]

theorem Ended.creditLocked {e d : Engine} {p : OutPtr} {id : PacketID} (h : Ended e d p id) :
    Ended e (creditLocked d p) p id := by
  have hrecord : Program.record ((Program.creditLocked d p).outs p) =
    Program.record (e.outs p) := by
    rw [← h.record]
    unfold Program.creditLocked
    split
    · simp only [setOut, update_self]
      rfl
    · rfl
  refine ⟨h.touches.trans (Touches.creditLocked d p id), ?_, ?_, ?_, ?_, ?_, ?_, ?_, hrecord,
    ?_, ?_, ?_, ?_, ?_, ?_⟩ <;> unfold Program.creditLocked <;> split <;>
    simp [setOut, h.queues, h.finished, h.settling, h.adopted, h.settle, h.ref, h.out, h.orphans,
      h.nextSeq, h.writes, h.attempted, h.refs, h.dropped]

namespace Owners

variable {e d : Engine} {held : List (PacketID × Owner)} {reserved : ℕ}
  {own : PacketID → Option OutPtr} {id : PacketID} {p : OutPtr}

section

variable (h : Owners e held reserved own)
include h

/-- INTERNAL: **The end of a flow**: it keeps its identifier to the end of its writes, or has
none to do and gives it back. -/
theorem retire (hown : own id = some p) (hf : e.failure = none)
    (hlive : (e.outs p).finished = false) (hd : Ended e d p id) :
    Owners (retireLocked d p) held reserved
      (if (e.outs p).ref = [] ∧ (e.outs p).settle = none ∧ e.cfg.store = false then
        Function.update own id none else own) := by
  have hslot := h.slot id p hown hf
  obtain ⟨hset, had⟩ := hslot.live hlive
  have hidd : (d.outs p).id = id := by rw [hd.touches.id_eq]; exact (h.ptr id p hown).2
  have hcfg : d.cfg = e.cfg := same_cfg hd.touches.statics
  have hepoch : d.epoch = e.epoch := same_epoch hd.touches.statics
  have hto := hd.touches.trans (Touches.orphaned d p id hd.finished)
  have hstat := statics_orphaned d p
  have hcfg' : (orphaned d p).cfg = e.cfg := (same_cfg hstat).trans hcfg
  have hepoch' : (orphaned d p).epoch = e.epoch := (same_epoch hstat).trans hepoch
  rcases retireLocked_cases d p with ⟨href, hsettle, heq⟩ | ⟨href, hsettle, hstore, heq⟩ |
    ⟨hbusy, heq⟩
  · rw [if_neg (by rw [← hd.ref]; exact fun hcon => href hcon.1)]
    have hkept := hslot.finish_kept (x := d.outs p) hlive hd.finished hd.settling hd.adopted
      hsettle hd.ref (by rw [← hd.ref]; exact href)
    have hcomplete := Touches.completeLocked (orphaned d p) p
    rw [orphaned_outs, hidd] at hcomplete
    rw [heq]
    refine h.touch hown (hto.trans hcomplete) ?_
    have hido : ((orphaned d p).outs p).id = id := by
      rw [orphaned_outs]
      exact hidd
    have := completeLocked_slot (orphaned d p) p hido
      (by rw [orphaned_outs, hd.settling]; exact hset)
      (by rw [orphaned_outs, orphaned_queues, hcfg', hepoch', hd.queues]; exact hkept)
    rw [hcfg', hepoch'] at this
    exact this
  · rw [if_pos (by rw [← hd.ref, ← hd.settle, ← hcfg]; exact ⟨href, hsettle, hstore⟩), heq, hidd]
    refine h.release hown hd.touches ?_ hd.out ?_
    · -- Without a store a live flow has no write at all.
      rw [hd.queues]
      rw [hcfg] at hstore
      cases hq : e.queues (outKey id) with
      | nil => rfl
      | cons j rest =>
        have hj : j ∈ e.queues (outKey id) := by rw [hq]; simp
        have h1 := hslot.noStore hstore j hj
        have h2 := hslot.idle hset j hj
        rw [h1] at h2
        cases h2
    · intro r hr
      rw [hd.orphans] at hr
      have := (h.orphan r p hr).2.1
      rw [hlive] at this
      cases this
  · rw [if_neg (by
      rw [← hd.ref, ← hd.settle, ← hcfg]
      rintro ⟨href, hnone, hstore⟩
      rcases hbusy with hbusy | ⟨-, hbusy⟩
      · exact hbusy hnone
      · rw [hstore] at hbusy; cases hbusy)]
    have hsettle := Touches.settleLocked (orphaned d p) p
    rw [orphaned_outs, hidd] at hsettle
    rw [heq]
    refine h.touch hown (hto.trans hsettle) ?_
    obtain ⟨hout, hqueue⟩ := settleLocked_self (orphaned d p) p
    rw [orphaned_outs] at hout hqueue
    rw [hidd] at hqueue
    rw [hout, hqueue, orphaned_queues, hd.queues, hepoch', hd.ref]
    exact hslot.settle (x := { d.outs p with settling := true }) hset hd.finished rfl hd.ref _ _

/-- A live flow is changed and its record written again. -/
theorem rewrite (hown : own id = some p) (hf : e.failure = none)
    (hlive : (e.outs p).finished = false) (ht : Touches e d p id)
    (hq : d.queues (outKey id) = e.queues (outKey id))
    (hfin : (d.outs p).finished = (e.outs p).finished)
    (hset : (d.outs p).settling = (e.outs p).settling)
    (had : (d.outs p).adopted = (e.outs p).adopted)
    (hsettle : (d.outs p).settle = (e.outs p).settle) (href : (d.outs p).ref = (e.outs p).ref) :
    Owners (putOutLocked d p) held reserved own := by
  have hslot := h.slot id p hown hf
  have hcfg : d.cfg = e.cfg := same_cfg ht.statics
  have hepoch : d.epoch = e.epoch := same_epoch ht.statics
  have hidd : (d.outs p).id = id := by rw [ht.id_eq]; exact (h.ptr id p hown).2
  have hslot' := hslot.congr (x := d.outs p) hfin hset had hsettle href
  have hput := Touches.putOutLocked d p
  rw [hidd] at hput
  refine h.touch hown (ht.trans hput) ?_
  unfold putOutLocked
  by_cases hstore : d.cfg.store = true
  · rw [if_pos hstore, hidd, queueLocked_self, hq, hepoch]
    rw [hcfg] at hstore
    rw [hstore] at hslot' ⊢
    exact hslot'.put (by rw [hset]; exact (hslot.live hlive).1) _
  · rw [if_neg hstore, hq]
    exact hslot'

/-- A new flow comes to hold an identifier nobody owns. -/
theorem enter {e' : Engine} {o : Out} {held' : List (PacketID × Owner)} {reserved' : ℕ}
    (hnone : own id = none) (htable : Balanced e'.ids reserved')
    (howner : e'.ids.owner = Function.update e.ids.owner id .publish) (hstuck : e'.stuck = e.stuck)
    (hstat : e'.cfg = e.cfg ∧ e'.epoch = e.epoch ∧ e'.failure = e.failure)
    (hnext : e'.nextOut = e.nextOut + 1) (houts : e'.outs = Function.update e.outs e.nextOut o)
    (hid : o.id = id) (hqueues : ∀ i, i ≠ id → e'.queues (outKey i) = e.queues (outKey i))
    (hout : ∀ i q, e'.out.get i = some q → e.out.get i = some q ∨ i = id ∧ q = e.nextOut)
    (horph : ∀ r q, e'.orphans.get r = some q → e.orphans.get r = some q ∨
      q = e.nextOut ∧ o.finished = true ∧ o.ref = r ∧ r ≠ [])
    (hslot : SlotOf e.cfg.store e.epoch e.nextOut o (e'.queues (outKey id)))
    (hheld : held'.Sublist held) (hleft : ∀ x ∈ held', x.1 ≠ id) :
    Owners e' held' reserved' (Function.update own id (some e.nextOut)) := by
  have hold : ∀ q, q ≠ e.nextOut → e'.outs q = e.outs q := fun q hq => by
    rw [houts, update_of_ne hq]
  have hself : e'.outs e.nextOut = o := by rw [houts, update_self]
  have hcases : ∀ i q, Function.update own id (some e.nextOut) i = some q →
      i = id ∧ q = e.nextOut ∨ i ≠ id ∧ own i = some q ∧ q ≠ e.nextOut := by
    intro i q hq
    by_cases hi : i = id
    · rw [hi, update_self] at hq
      exact .inl ⟨hi, (Option.some.inj hq).symm⟩
    · rw [update_of_ne hi] at hq
      exact .inr ⟨hi, hq, (h.ptr i q hq).1.ne⟩
  have hne : ∀ i q, own i = some q → i ≠ id := by
    rintro i q hq rfl
    rw [hnone] at hq
    cases hq
  refine ⟨⟨htable, hstuck.trans h.running, ?_, ?_, ?_, ?_, ?_, ?_, ?_,
    h.callers.sublist (hheld.map _)⟩, ?_⟩
  · intro i q hq
    rw [hnext]
    rcases hcases i q hq with ⟨rfl, rfl⟩ | ⟨-, hown, hqn⟩
    · rw [hself]
      exact ⟨Nat.lt_succ_self _, hid⟩
    · rw [hold q hqn]
      exact ⟨Nat.lt_succ_of_lt (h.ptr i q hown).1, (h.ptr i q hown).2⟩
  · intro i q hq
    rcases hcases i q hq with ⟨rfl, rfl⟩ | ⟨hi, hown, -⟩
    · exact hslot.owner
    · rw [hqueues i hi]
      exact h.jobs i q hown
  · intro i hi
    have hii : i ≠ id := by
      rintro rfl
      rw [update_self] at hi
      cases hi
    rw [update_of_ne hii] at hi
    rw [hqueues i hii]
    exact h.empty i hi
  · intro i q hq
    rcases hout i q hq with hq | ⟨rfl, rfl⟩
    · rw [update_of_ne (hne i q (h.live i q hq))]
      exact h.live i q hq
    · exact update_self ..
  · intro r q hq
    rcases horph r q hq with hq | ⟨rfl, hfin, href, hne'⟩
    · obtain ⟨hown, hrest⟩ := h.orphan r q hq
      rw [hold q (h.ptr _ q hown).1.ne, update_of_ne (hne _ q hown)]
      exact ⟨hown, hrest⟩
    · rw [hself, hid, update_self]
      exact ⟨rfl, hfin, href, hne'⟩
  · intro i q hq
    rw [howner]
    rcases hcases i q hq with ⟨rfl, rfl⟩ | ⟨hi, hown, -⟩
    · exact update_self ..
    · rw [update_of_ne hi]
      exact h.owner i q hown
  · intro i o' hmem
    have hi : i ≠ id := hleft _ hmem
    rw [howner, update_of_ne hi, update_of_ne hi]
    exact h.caller i o' (hheld.subset hmem)
  · intro i q hq hf
    rw [hstat.1, hstat.2.1]
    rcases hcases i q hq with ⟨rfl, rfl⟩ | ⟨hi, hown, hqn⟩
    · rw [hself]
      exact hslot
    · rw [hold q hqn, hqueues i hi]
      exact h.slot i q hown (hstat.2.2 ▸ hf)

/-- A new flow takes its identifier over from the caller. -/
theorem register (m : Message) (now : Time) (hf : e.failure = none)
    (hheld : (m.id, Owner.publish) ∈ held) :
    Owners (register e m now).1 (held.erase (m.id, .publish)) reserved
      (Function.update own m.id (some e.nextOut)) := by
  obtain ⟨hnone, howner, -⟩ := h.caller m.id .publish hheld
  obtain ⟨⟨hids, hstuck⟩, houts, hout, -, horph, -, hnext, hepoch, hother, extra, hq, hextra⟩ :=
    register_keeps (e := e) m now hf
  have hs := statics_register e m now
  rw [h.empty m.id hnone, nil_append] at hq
  refine h.enter hnone (hids ▸ h.table) ?_ hstuck
    ⟨same_cfg hs, hepoch, same_failure hs⟩ hnext houts rfl
    (fun i hi => hother _ (outKey_ne hi)) (fun i q hi => FiniteMap.of_get_set (hout ▸ hi))
    (fun r q hr => .inl (horph ▸ hr)) ?_ erase_sublist ?_
  · rw [hids, ← howner, update_eq_self]
  · rw [hq]
    rcases hextra with rfl | ⟨hstore, rfl⟩
    · exact SlotOf.new_unstored rfl rfl rfl
    · rw [hstore]
      exact SlotOf.new rfl rfl rfl _
  · -- The caller that registered holds the identifier no more.
    rintro ⟨i, o⟩ hio rfl
    have ho : o = .publish := (h.caller _ o (mem_of_mem_erase hio)).2.1.symm.trans howner
    exact (List.Nodup.of_map _ h.callers).not_mem_erase (ho ▸ hio)

/-! ### The callers -/

/-- Changes of the identifier table alone. -/
theorem retable {held' : List (PacketID × Owner)} {reserved' : ℕ} {ids : IDTable}
    (htable : Balanced ids reserved') (howner : ∀ id p, own id = some p → ids.owner id = .publish)
    (hcaller : ∀ id o, (id, o) ∈ held' → own id = none ∧ ids.owner id = o ∧ o ≠ .none)
    (hcallers : (held'.map Prod.fst).Nodup) : Owners { e with ids := ids } held' reserved' own :=
  ⟨⟨htable, h.running, h.ptr, h.jobs, h.empty, h.live, h.orphan, howner, hcaller, hcallers⟩,
    h.slot⟩

theorem reserve (hr : reserve e = some d) : Owners d held (reserved + 1) own := by
  unfold Program.reserve at hr
  split at hr
  · rename_i hroom
    rw [← Option.some.inj hr]
    exact h.retable (balanced_reserve h.table hroom) h.owner h.caller h.callers
  · cases hr

/-- INTERNAL: **The identifier a caller gets is nobody else's.** -/
theorem take {o : Owner} (ho : o ≠ .none) (hres : 0 < reserved)
    (ht : allocateID e o = some (id, d)) :
    Owners d (held ++ [(id, o)]) (reserved - 1) own := by
  unfold allocateID at ht
  obtain ⟨⟨i, t⟩, htake, heq⟩ := Option.map_eq_some_iff.mp ht
  obtain ⟨rfl, rfl⟩ := Prod.mk.inj heq
  obtain ⟨hbal, hfree, _, howner, _⟩ := balanced_take h.table ho hres htake
  have hown : own i = none := by
    cases hp : own i with
    | none => rfl
    | some p =>
      have := h.owner i p hp
      rw [hfree] at this
      cases this
  have hne : ∀ j o', (j, o') ∈ held → j ≠ i := by
    rintro j o' hj rfl
    obtain ⟨_, h2, h3⟩ := h.caller j o' hj
    rw [hfree] at h2
    exact h3 h2.symm
  refine h.retable hbal ?_ ?_ ?_
  · intro j p hp
    have hj : j ≠ i := by
      rintro rfl
      rw [hown] at hp
      cases hp
    rw [howner, update_of_ne hj]
    exact h.owner j p hp
  · intro j o' hj
    rw [howner]
    rcases mem_append.mp hj with hj | hj
    · rw [update_of_ne (hne j o' hj)]
      exact h.caller j o' hj
    · obtain ⟨rfl, rfl⟩ := Prod.mk.inj (mem_singleton.mp hj)
      rw [update_self]
      exact ⟨hown, rfl, ho⟩
  · rw [map_append, nodup_append]
    refine ⟨h.callers, by simp, ?_⟩
    intro j hj k hk hjk
    obtain ⟨⟨j', o'⟩, hmem, rfl⟩ := mem_map.mp hj
    simp only [map_cons, map_nil, mem_singleton] at hk
    exact hne j' o' hmem (hjk.trans hk)

/-- A caller gives its identifier back. -/
theorem releaseID {o : Owner} (hheld : (id, o) ∈ held) :
    Owners (releaseLocked e id o) (held.erase (id, o)) reserved own := by
  obtain ⟨hnone, howner, ho⟩ := h.caller id o hheld
  obtain ⟨hbal, hstuck, hupd⟩ := balanced_release h.table howner ho
  obtain ⟨ids, stuck, hrel⟩ := releaseLocked_eq e id o
  rw [hrel] at hbal hstuck hupd ⊢
  simp only at hbal hstuck hupd
  rw [hstuck]
  refine h.retable hbal ?_ ?_ ?_
  · intro i p hp
    have hi : i ≠ id := by
      rintro rfl
      rw [hnone] at hp
      cases hp
    rw [hupd, update_of_ne hi]
    exact h.owner i p hp
  · intro i o' hio
    have hmem := mem_of_mem_erase hio
    obtain ⟨h1, h2, h3⟩ := h.caller i o' hmem
    have hi : i ≠ id := by
      rintro rfl
      have ho' : o' = o := h2.symm.trans howner
      rw [ho'] at hio
      have hnd : held.Nodup := List.Nodup.of_map _ h.callers
      exact hnd.not_mem_erase hio
    rw [hupd, update_of_ne hi]
    exact ⟨h1, h2, h3⟩
  · exact h.callers.sublist (List.Sublist.map _ erase_sublist)

theorem register_failed (m : Message) (now : Time) (hf : e.failure.isSome = true)
    (hheld : (m.id, Owner.publish) ∈ held) :
    Owners (Program.register e m now).1 (held.erase (m.id, .publish)) reserved own := by
  unfold Program.register
  rw [if_pos hf]
  exact h.releaseID hheld

/-! ### The producers -/

/-- A producer adopts a live flow, or an ended one that waits for it. -/
theorem adopt (hf : e.failure = none) (hrefs : ∀ r q, e.refs.get r = some q →
      own (e.outs q).id = some q ∧ (e.outs q).finished = false) (ref : Bytes)
    (f : SettleFn) : Owners (adopt e ref f).1 held reserved own := by
  unfold Program.adopt
  cases hrefp : e.refs.get ref with
  | some p =>
    obtain ⟨hown, hlive⟩ := hrefs ref p hrefp
    have ht := Touches.setOut e p (e.outs p).id (fun o => { o with settle := some f }) rfl rfl
      (fun h => h)
    refine h.touch hown ht ?_
    have hslot := (h.slot _ p hown hf).adopt_live hlive f
    simpa [setOut] using hslot
  | none =>
    cases horph : e.orphans.get ref with
    | none => exact h
    | some p =>
      obtain ⟨hown, hfin, _⟩ := h.orphan ref p horph
      have hslot := h.slot _ p hown hf
      have ht := Touches.setOut e p (e.outs p).id (fun o => { o with settle := some f }) rfl rfl
        (fun h => h)
      simp only
      split
      · rename_i hset
        have hset : (e.outs p).settling = true := by simpa [setOut] using hset
        have ht' := ht.trans (Touches.setOut (setOut e p fun o => { o with settle := some f }) p
          (e.outs p).id (fun o => { o with adopted := true }) rfl rfl (fun h => h))
        refine h.touch hown ht' ?_
        have := hslot.adopt_busy hset f
        simpa [setOut] using this
      · rename_i hset
        have hset : (e.outs p).settling = false := by simpa [setOut] using hset
        have hid : ((setOut e p fun o => { o with settle := some f }).outs p).id =
            (e.outs p).id := by
          simp [setOut]
        have hsl := Touches.settleLocked (setOut e p fun o => { o with settle := some f }) p
        rw [hid] at hsl
        refine h.touch hown (ht.trans hsl) ?_
        obtain ⟨hout, hqueue⟩ := settleLocked_self
          (setOut e p fun o => { o with settle := some f }) p
        rw [hid] at hqueue
        rw [hout, hqueue]
        have := hslot.settle (x := { e.outs p with settle := some f, settling := true }) hset
          hfin rfl rfl (some f) (e.outs p).err
        simpa [setOut] using this

end

end Owners

end Mqttv5.Analysis
