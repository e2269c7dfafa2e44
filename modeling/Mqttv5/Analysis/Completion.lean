import Mqttv5.Analysis.Failure
import Mqttv5.Analysis.Holding

/-!
# The completion of writes

What the end of a store write does to the holder of the identifier it is for: a Put leaves it
be, a failed first Put takes the flow back, a settle-and-delete gives the identifier up, settles
once more for an adopter, or keeps the flow; and a failure leaves every identifier where it is.
-/

set_option autoImplicit false

namespace Mqttv5.Analysis

open Mqttv5.Computation Model Program List FiniteMap

variable {d : Engine}

section Writes

variable {id : PacketID} {p : OutPtr}

section

variable (e : Engine)

theorem Touches.popJob (p : OutPtr) (id : PacketID) :
    Touches e (popJob e (outKey id)) p id := by
  refine ⟨rfl, rfl, rfl, rfl, fun _ _ => rfl, rfl, rfl, fun h => h, ?_, fun _ _ h => h,
    fun _ _ h => .inl h⟩
  intro k hk
  simp [Program.popJob, hk]

theorem Touches.setStage (p : OutPtr) (id : PacketID) (st : Stage) :
    Touches e (setStage e (outKey id) st) p id := by
  unfold Program.setStage
  split
  · exact Touches.refl e p id
  · refine ⟨rfl, rfl, rfl, rfl, fun _ _ => rfl, rfl, rfl, fun h => h, ?_, fun _ _ h => h,
      fun _ _ h => .inl h⟩
    intro k hk
    simp [hk]

theorem Touches.cancelLocked (p : OutPtr) (id : PacketID) (o : FlowPtr) :
    Touches e (cancelLocked e (outKey id) o) p id := by
  unfold Program.cancelLocked
  split
  · exact Touches.refl e p id
  · refine ⟨rfl, rfl, rfl, rfl, fun _ _ => rfl, rfl, rfl, fun h => h, ?_, fun _ _ h => h,
      fun _ _ h => .inl h⟩
    intro k hk
    simp [hk]

theorem popJob_self (k : RecordKey) : (popJob e k).queues k = (e.queues k).tail := by
  simp [popJob]

theorem setStage_self (k : RecordKey) (st : Stage) {j : Job} {rest : List Job}
    (h : e.queues k = j :: rest) :
    (setStage e k st).queues k = { j with stage := st } :: rest := by
  unfold setStage
  rw [h]
  simp

theorem popJob_releaseLocked (k : RecordKey) (id : PacketID) (o : Owner) :
    popJob (releaseLocked e id o) k = releaseLocked (popJob e k) id o := by
  unfold releaseLocked popJob
  simp only
  split <;> rfl

end

/-- The end of a settle-and-delete changes the flow's mark and nothing else. -/
theorem setOut_settling {e : Engine} (hid : (e.outs p).id = id) :
    ∃ d, setOut e p (fun o => { o with settling := false }) = d ∧ Touches e d p id ∧
      d.outs p = { e.outs p with settling := false } ∧ d.queues = e.queues ∧
      d.dropped = e.dropped ∧ (d.outs p).id = id ∧
      d.out = e.out ∧ d.refs = e.refs ∧ d.orphans = e.orphans :=
  ⟨_, rfl, Touches.setOut e p id _ rfl rfl (fun h => h), by simp [setOut], rfl, rfl,
    by simp [setOut, hid], rfl, rfl, rfl⟩

/-- The flow that is given up is the one that leaves the orphans. -/
theorem popJob_giveUp (hid : (d.outs p).id = id) (k : RecordKey) :
    ∃ orphans, popJob (giveUp d p) k =
        releaseLocked (popJob { d with orphans := orphans } k) id .publish ∧
      Touches d { d with orphans := orphans } p id ∧
      orphans = (if (d.outs p).ref ≠ [] ∧ d.orphans.get (d.outs p).ref = some p then
        d.orphans.del (d.outs p).ref else d.orphans) ∧
      (∀ r q, orphans.get r = some q → d.orphans.get r = some q) ∧
      ∀ r q, d.orphans.get r = some q → q ≠ p → orphans.get r = some q := by
  unfold giveUp
  simp only [hid, popJob_releaseLocked]
  split
  · rename_i hcond
    refine ⟨_, rfl, Touches.delOrphan d p id _, rfl, ?_, ?_⟩
    · exact fun r q hget => (of_get_del hget).1
    · intro r q hget hqp
      rw [get_del, if_neg]
      · exact hget
      · rintro rfl
        rw [hcond.2] at hget
        exact hqp (Option.some.inj hget).symm
  · exact ⟨d.orphans, rfl, Touches.refl d p id, rfl, fun _ _ h => h, fun _ _ h _ => h⟩

/-- What the end of its settle-and-delete `j` makes of a flow first: the write is no longer under
way, and the outcome may have been stored, with the Puts `extra`. -/
structure WoundUp (e d : Engine) (p : OutPtr) (id : PacketID) (j : Job) (extra : List Job) :
    Prop where
  touches : Touches e d p id
  queue : d.queues (outKey id) = j :: extra
  stored : extra = [] ∨ e.cfg.store = true ∧ ∃ r, extra = [⟨.putOut r, .out p, e.epoch, .queued⟩]
  flow : ∃ phase outcome,
    d.outs p = { e.outs p with settling := false, phase := phase, outcome := outcome }
  maps : d.out = e.out ∧ d.refs = e.refs ∧ d.orphans = e.orphans
  dropped : d.dropped = e.dropped

theorem WoundUp.puts {e d : Engine} {j : Job} {extra : List Job}
    (h : WoundUp e d p id j extra) : ∀ i ∈ extra, isSettle i.kind = false ∧ i.owner = .out p := by
  rcases h.stored with rfl | ⟨-, r, rfl⟩
  · simp
  · simp [isSettle]

/-- What follows: another settle-and-delete for an adopter, or the flow is kept after a
Settle that failed, or it is given up. -/
theorem settleAfter_woundUp {e : Engine} {j : Job}
    (hid : (e.outs p).id = id) (hq : e.queues (outKey id) = [j]) (failed : Bool) :
    ∃ d extra, WoundUp e d p id j extra ∧ (failed = false → extra = []) ∧
      settleAfter (setOut e p fun o => { o with settling := false }) p failed =
        if (e.outs p).adopted then settleLocked (setOut d p fun o => { o with adopted := false }) p
        else if failed then setOut d p fun o => { o with settle := none } else giveUp d p := by
  obtain ⟨d, hd, ht, hdp, hdq, hdd, hdid, hmaps⟩ := setOut_settling hid
  rw [hd]
  unfold settleAfter
  cases failed with
  | false =>
    refine ⟨d, [], ⟨ht, by rw [hdq, hq], .inl rfl, ⟨_, _, hdp⟩, hmaps, hdd⟩, fun _ => rfl, ?_⟩
    simp only [Bool.false_eq_true, if_false, hdp]
  | true =>
    obtain ⟨extra, hqueue, ⟨hstored, -⟩, ⟨phase, outcome, houts⟩, hout, hrefs, horph, hdrop⟩ :=
      completeLocked_keeps d p
    have htc := Touches.completeLocked d p
    rw [hdid, hdq, hq] at hqueue
    rw [hdid] at htc
    rw [hdp] at houts
    rw [show d.cfg = e.cfg from same_cfg ht.statics,
      show d.epoch = e.epoch from same_epoch ht.statics] at hstored
    refine ⟨completeLocked d p, extra, ⟨ht.trans htc, hqueue, hstored, ⟨phase, outcome, houts⟩,
      ⟨hout.trans hmaps.1, hrefs.trans hmaps.2.1, horph.trans hmaps.2.2⟩, hdrop.trans hdd⟩,
      nofun, ?_⟩
    simp only [if_true, houts]

end Writes

/-- A flow taken back after its failed first Put: out of the session, its queue cut
to the write that failed, its identifier still to be released. -/
theorem dropNew_eq (e : Engine) (p : OutPtr) (err : ℕ) :
    ∃ d, dropNew e p err = releaseLocked d (e.outs p).id .publish ∧
      Touches e d p (e.outs p).id ∧ d.out.get (e.outs p).id = none ∧
      d.outs p = { e.outs p with finished := true } ∧
      d.orphans = (if (e.outs p).ref ≠ [] ∧ e.orphans.get (e.outs p).ref = some p then
        e.orphans.del (e.outs p).ref else e.orphans) ∧
      d.queues = (cancelLocked e (outKey (e.outs p).id) (.out p)).queues ∧
      d.putErr = Function.update e.putErr p (some ⟨"put outbound", err⟩) := by
  -- The cancelled queue, with the error already noted.
  obtain ⟨c, hc⟩ : ∃ c, cancelLocked
      { e with putErr := Function.update e.putErr p (some ⟨"put outbound", err⟩) }
      (outKey (e.outs p).id) (.out p) = c := ⟨_, rfl⟩
  have hnote : Touches e
      { e with putErr := Function.update e.putErr p (some ⟨"put outbound", err⟩) } p
      (e.outs p).id :=
    ⟨rfl, rfl, rfl, rfl, fun _ _ => rfl, rfl, rfl, fun h => h, fun _ _ => rfl, fun _ _ h => h,
      fun _ _ h => .inl h⟩
  have htc : Touches e c p (e.outs p).id := hc ▸ hnote.trans (Touches.cancelLocked _ p _ _)
  have hcouts : c.outs = e.outs ∧ c.orphans = e.orphans ∧
      c.putErr = Function.update e.putErr p (some ⟨"put outbound", err⟩) ∧
      c.queues = (cancelLocked e (outKey (e.outs p).id) (.out p)).queues := by
    rw [← hc]
    unfold cancelLocked
    cases e.queues (outKey (e.outs p).id) <;> simp
  obtain ⟨houts, horph, herr, hqueues⟩ := hcouts
  have hdel := (htc.trans (Touches.unlinkLocked c p _)).trans
    (Touches.delOut (unlinkLocked c p) p (e.outs p).id (e.outs p).id)
  unfold dropNew
  simp only [hc]
  refine ⟨_, rfl, ?_⟩
  by_cases href : (e.outs p).ref = []
  · have hneg : ¬ (e.outs p).ref ≠ [] := fun hne => hne href
    simp only [hneg, if_false, false_and]
    refine ⟨hdel.trans (Touches.setOut _ p _ (fun o => { o with finished := true }) rfl rfl
      (fun _ => rfl)), ?_, ?_, ?_, ?_, ?_⟩ <;>
      simp [setOut, unlinkLocked, houts, horph, hqueues, herr]
  · simp only [ne_eq, href, not_false_eq_true, if_true, true_and]
    have hrefs : Touches
        { unlinkLocked c p with out := (unlinkLocked c p).out.del (e.outs p).id }
        { unlinkLocked c p with
          out := (unlinkLocked c p).out.del (e.outs p).id
          refs := (unlinkLocked c p).refs.del (e.outs p).ref
          orphans := if (unlinkLocked c p).orphans.get (e.outs p).ref = some p then
            (unlinkLocked c p).orphans.del (e.outs p).ref else (unlinkLocked c p).orphans }
        p (e.outs p).id := by
      refine ⟨rfl, rfl, rfl, rfl, fun _ _ => rfl, rfl, rfl, fun h => h, fun _ _ => rfl,
        fun _ _ h => h, ?_⟩
      intro r q hq
      simp only at hq
      split at hq
      · exact .inl (of_get_del hq).1
      · exact .inl hq
    refine ⟨(hdel.trans hrefs).trans (Touches.setOut _ p _ (fun o => { o with finished := true })
      rfl rfl (fun _ => rfl)), ?_, ?_, ?_, ?_, ?_⟩ <;>
      simp [setOut, unlinkLocked, houts, horph, hqueues, herr]

theorem cancelLocked_self (e : Engine) (k : RecordKey) (o : FlowPtr) {j : Job} {rest : List Job}
    (h : e.queues k = j :: rest) :
    (cancelLocked e k o).queues k = j :: rest.filter fun i => i.owner ≠ o := by
  unfold cancelLocked
  rw [h]
  simp

namespace Owners

variable {e : Engine} {held : List (PacketID × Owner)} {reserved : ℕ}
  {own : PacketID → Option OutPtr} {id : PacketID} {p : OutPtr} {j : Job} {rest : List Job}

/-- No orphan entry of a flow survives the removal of its Ref. -/
theorem no_orphan (h : Owners e held reserved own) (r : Bytes) :
    (if (e.outs p).ref ≠ [] ∧ e.orphans.get (e.outs p).ref = some p then
      e.orphans.del (e.outs p).ref else e.orphans).get r ≠ some p := by
  intro hr
  split at hr
  · obtain ⟨hr, hne⟩ := of_get_del hr
    exact hne (h.orphan r p hr).2.2.1.symm
  · rename_i hcond
    obtain ⟨_, _, href, hne⟩ := h.orphan r p hr
    rw [← href] at hr hne
    exact hcond ⟨hne, hr⟩

section

variable (h : Owners e held reserved own) (hown : own id = some p)
include h hown

/-- INTERNAL: **A failed first Put** gives the identifier back. -/
theorem dropNew (hf : e.failure = none) (hq : e.queues (outKey id) = j :: rest) (err : ℕ) :
    Owners (popJob (dropNew e p err) (outKey id)) held reserved (Function.update own id none) := by
  have hid : (e.outs p).id = id := (h.ptr id p hown).2
  obtain ⟨d, heq, ht, hout, houts, horph, hqueues, _⟩ := dropNew_eq e p err
  rw [hid] at heq ht hout hqueues
  have hslot := h.slot id p hown hf
  rw [heq, popJob_releaseLocked]
  refine h.release hown (ht.trans (Touches.popJob d p id)) ?_ hout ?_
  · -- All the writes behind the failed one are the flow's own.
    rw [popJob_self, hqueues, cancelLocked_self e _ _ hq, tail_cons, filter_eq_nil_iff]
    intro i hi
    have := hslot.owner i (by rw [hq]; exact .tail _ hi)
    simp [this]
  · intro r
    show d.orphans.get r ≠ some p
    rw [horph]
    exact h.no_orphan r

/-- A Put is done. -/
theorem pop (hf : e.failure = none) (hq : e.queues (outKey id) = j :: rest)
    (hj : isSettle j.kind = false) : Owners (popJob e (outKey id)) held reserved own := by
  refine h.touch hown (Touches.popJob e p id) ?_
  rw [popJob_self, hq]
  have hslot := h.slot id p hown hf
  rw [hq] at hslot
  exact hslot.pop hj

/-- The outcome is settled and the record gone. -/
theorem giveUp (ht : Touches e d p id) (hq : d.queues (outKey id) = [j])
    (hout : d.out.get id = none) (horph : d.orphans = e.orphans) :
    Owners (popJob (giveUp d p) (outKey id)) held reserved (Function.update own id none) := by
  have hid : (d.outs p).id = id := by rw [ht.id_eq]; exact (h.ptr id p hown).2
  obtain ⟨orphans, heq, htd, hdel, -⟩ := popJob_giveUp hid (outKey id)
  rw [heq]
  refine h.release hown ((ht.trans htd).trans (Touches.popJob _ p id)) ?_ hout ?_
  · rw [popJob_self]
    exact congrArg List.tail hq
  · rw [ht.ref_eq, horph] at hdel
    exact fun r => hdel ▸ h.no_orphan r

/-- An adopter that came while the outcome was being settled has it settled again,
behind the Put that stored it meanwhile, if there was one. -/
theorem resettle (ht : Touches e d p id) {l : List Job} (hq : d.queues (outKey id) = j :: l)
    (hl : l = [] ∨ e.cfg.store = true ∧ (e.outs p).ref ≠ [] ∧
      ∃ r, l = [⟨.putOut r, .out p, e.epoch, .queued⟩]) (hfin : (d.outs p).finished = true) :
    Owners (popJob (settleLocked (setOut d p fun o => { o with adopted := false }) p) (outKey id))
      held reserved own := by
  have hid : (d.outs p).id = id := by rw [ht.id_eq]; exact (h.ptr id p hown).2
  have hepoch : d.epoch = e.epoch := same_epoch ht.statics
  have hid' : ((setOut d p fun o => { o with adopted := false }).outs p).id = id := by
    simp [setOut, hid]
  have hset := Touches.setOut d p id (fun o => { o with adopted := false }) rfl rfl (fun h => h)
  have hsettle := Touches.settleLocked (setOut d p fun o => { o with adopted := false }) p
  rw [hid'] at hsettle
  refine h.touch hown (((ht.trans hset).trans hsettle).trans (Touches.popJob _ p id)) ?_
  obtain ⟨hout, hqueue⟩ := settleLocked_self (setOut d p fun o => { o with adopted := false }) p
  rw [hid'] at hqueue
  have hqueue' : (popJob (settleLocked (setOut d p fun o => { o with adopted := false }) p)
      (outKey id)).queues (outKey id) = l ++
        [⟨.settle (d.outs p).settle (d.outs p).err (d.outs p).ref, .out p, e.epoch, .queued⟩] := by
    rw [popJob_self, hqueue]
    simp [setOut, hq, hepoch]
  have houts : (popJob (settleLocked (setOut d p fun o => { o with adopted := false }) p)
      (outKey id)).outs p = { d.outs p with adopted := false, settling := true } := by
    show (settleLocked (setOut d p fun o => { o with adopted := false }) p).outs p = _
    rw [hout]
    simp [setOut]
  rw [hqueue', houts]
  rcases hl with rfl | ⟨hstore, href, r, rfl⟩
  · exact SlotOf.settle_only (o := { d.outs p with adopted := false, settling := true }) hfin
      rfl _ _
  · -- The flow as it was between the two settles.
    rw [← ht.ref_eq] at href
    have hbase : SlotOf e.cfg.store e.epoch p
        { d.outs p with settling := false, adopted := false, settle := none } [] :=
      SlotOf.kept_empty hfin rfl rfl rfl href
    rw [hstore] at hbase ⊢
    exact (hbase.put rfl r).settle (x := { d.outs p with adopted := false, settling := true })
      rfl hfin rfl rfl _ _

/-- INTERNAL: **The end of a settle-and-delete**: the flow keeps its identifier for an adopter or
after a Settle that failed. -/
theorem settled (hq : e.queues (outKey id) = [j]) (hfin : (e.outs p).finished = true)
    (hout : e.out.get id = none) (failed : Bool) (href : failed = true → (e.outs p).ref ≠ []) :
    Owners (popJob (settleAfter (setOut e p fun o => { o with settling := false }) p failed)
      (outKey id)) held reserved
      (if (e.outs p).adopted ∨ failed then own else Function.update own id none) := by
  obtain ⟨d, extra, hw, hnil, heq⟩ := settleAfter_woundUp (h.ptr id p hown).2 hq failed
  obtain ⟨phase, outcome, hdp⟩ := hw.flow
  have hstored : extra = [] ∨ e.cfg.store = true ∧ (e.outs p).ref ≠ [] ∧
      ∃ r, extra = [⟨.putOut r, .out p, e.epoch, .queued⟩] := by
    cases failed with
    | false => exact .inl (hnil rfl)
    | true => exact hw.stored.imp_right fun ⟨hstore, hr⟩ => ⟨hstore, href rfl, hr⟩
  rw [heq]
  by_cases had : (e.outs p).adopted = true
  · rw [if_pos had, if_pos (.inl had)]
    exact h.resettle hown hw.touches hw.queue hstored (hw.touches.finished hfin)
  rw [if_neg had]
  cases failed with
  | false =>
    simp only [had, Bool.false_eq_true, or_self, if_false]
    exact h.giveUp hown hw.touches (hnil rfl ▸ hw.queue) (hw.maps.1 ▸ hout) hw.maps.2.2
  | true =>
    have hset := Touches.setOut d p id (fun o => { o with settle := none }) rfl rfl (fun h => h)
    simp only [or_true, if_true]
    refine h.touch hown ((hw.touches.trans hset).trans (Touches.popJob _ p id)) ?_
    have houts : (popJob (setOut d p fun o => { o with settle := none }) (outKey id)).outs p =
        { d.outs p with settle := none } := by
      simp [popJob, setOut]
    have hqueue : (popJob (setOut d p fun o => { o with settle := none }) (outKey id)).queues
        (outKey id) = extra := by
      simp [popJob, setOut, hw.queue]
    have hbase : SlotOf e.cfg.store e.epoch p { d.outs p with settle := none } [] := by
      rw [hdp]
      exact SlotOf.kept_empty hfin rfl (by simpa using had) rfl (href rfl)
    rw [houts, hqueue]
    rcases hstored with rfl | ⟨hstore, -, r, rfl⟩
    · exact hbase
    · rw [hstore] at hbase ⊢
      exact hbase.put (by rw [hdp]) r

end

end Owners

/-! ### The failure of the session -/

/-- After a failure every identifier is where it was. -/
theorem Claims.fail {e : Engine} {held : List (PacketID × Owner)} {reserved : ℕ}
    {own : PacketID → Option OutPtr} (h : Claims e held reserved own) (err : StoreError) :
    Owners (failLocked e err) held reserved own := by
  by_cases hf : e.failure = none
  · have heq := failLocked_eq e err hf
    rw [heq]
    refine ⟨h.congr rfl rfl rfl ?_ (fun i => rfl) ?_ ?_, ?_⟩
    · intro q
      simp only
      split <;> rfl
    · intro i q hq
      rw [get_empty] at hq
      cases hq
    · intro r q hq
      rw [get_empty] at hq
      cases hq
    · intro i q _ hcon
      cases hcon
  · rw [failLocked_of_failed e err hf]
    exact ⟨h, fun _ _ _ hcon => absurd hcon hf⟩

namespace Owners

variable {e : Engine} {held : List (PacketID × Owner)} {reserved : ℕ}
  {own : PacketID → Option OutPtr} {k : RecordKey} {j : Job} {rest : List Job}

/-- A write belongs to the holder of its identifier. -/
theorem of_job (h : Owners e held reserved own) {id : PacketID} {p : OutPtr}
    (hj : j ∈ e.queues (outKey id)) (howner : j.owner = .out p) : own id = some p := by
  cases hown : own id with
  | none =>
    rw [h.empty id hown] at hj
    cases hj
  | some q =>
    have hq := h.jobs id q hown j hj
    rw [howner] at hq
    cases hq
    rfl

/-- A queue with a write in it belongs to the holder of its identifier. -/
theorem queue_owned (h : Owners e held reserved own) {id : PacketID}
    (hq : e.queues (outKey id) = j :: rest) : ∃ p, own id = some p ∧ j.owner = .out p := by
  cases hown : own id with
  | none =>
    rw [h.empty id hown] at hq
    cases hq
  | some p => exact ⟨p, rfl, h.jobs id p hown j (by rw [hq]; simp)⟩

theorem key_cases (k : RecordKey) : k = outKey k.packetID ∨ k = inKey k.packetID := by
  rcases k with ⟨dir, i⟩
  cases dir
  · exact .inl rfl
  · exact .inr rfl

theorem outKey_ne_inKey (i i' : PacketID) : outKey i ≠ inKey i' := by
  intro hcon
  simp [inKey, outKey] at hcon

section

variable (h : Owners e held reserved own)
include h

/-- A write at the head of its queue gets on. -/
theorem setStage (st : Stage) (hq : e.queues k = j :: rest)
    (hst : ∀ c, st = .ran (some (.settle c)) → ∃ f err ref, j.kind = .settle f err ref ∧ ref ≠ []) :
    Owners (setStage e k st) held reserved own := by
  rcases key_cases k with hk | hk
  · rw [hk] at hq ⊢
    obtain ⟨p, hown, _⟩ := h.queue_owned hq
    have hself := setStage_self e _ st hq
    have ht := Touches.setStage e p k.packetID st
    have houts : (Program.setStage e (outKey k.packetID) st).outs = e.outs := by
      unfold Program.setStage
      split <;> rfl
    by_cases hf : e.failure = none
    · refine h.touch hown ht ?_
      have hslot := h.slot _ p hown hf
      rw [hq] at hslot
      rw [hself, houts]
      exact hslot.stage st hst
    · refine ⟨h.toClaims.touch hown ht ?_, ?_⟩
      · rw [hself]
        have hjobs := h.jobs _ p hown
        rw [hq] at hjobs
        intro i hi
        rcases mem_cons.mp hi with rfl | hi
        · exact hjobs j mem_cons_self
        · exact hjobs i (.tail _ hi)
      · intro i q _ hcon
        have := same_failure ht.statics
        exact absurd (this.symm.trans hcon) hf
  · rw [hk] at hq ⊢
    unfold Program.setStage
    rw [hq]
    refine h.congr rfl rfl ⟨rfl, rfl, rfl⟩ rfl (fun _ => ⟨rfl, rfl, rfl, rfl, rfl, rfl⟩) ?_
      (fun _ _ h => h) (fun _ _ h => h)
    intro i
    simp [outKey_ne_inKey]

/-- The write at the head goes, with no effect on memory. -/
theorem popJob_claims :
    Claims (popJob e k) held reserved own := by
  rcases key_cases k with hk | hk
  · rw [hk]
    cases hown : own k.packetID with
    | none =>
      have hempty := h.empty _ hown
      refine h.toClaims.congr rfl rfl rfl (fun _ => rfl) ?_ (fun _ _ h => h)
        (fun _ _ h => ⟨h, rfl, rfl⟩)
      intro i
      by_cases hi : i = k.packetID
      · rw [hi, popJob_self, hempty]
        rfl
      · simp [popJob, outKey_ne hi]
    | some p =>
      refine h.toClaims.touch hown (Touches.popJob e p _) ?_
      rw [popJob_self]
      intro i hi
      exact h.jobs _ p hown i (mem_of_mem_tail hi)
  · rw [hk]
    refine h.toClaims.congr rfl rfl rfl (fun _ => rfl) ?_ (fun _ _ h => h)
      (fun _ _ h => ⟨h, rfl, rfl⟩)
    intro i
    simp [popJob, outKey_ne_inKey]

theorem popJob_inbound (i : PacketID) :
    Owners (popJob e (inKey i)) held reserved own := by
  refine h.congr rfl rfl ⟨rfl, rfl, rfl⟩ rfl (fun _ => ⟨rfl, rfl, rfl, rfl, rfl, rfl⟩) ?_
    (fun _ _ h => h) (fun _ _ h => h)
  intro i'
  simp [popJob, outKey_ne_inKey]

/-- A write other than a settle-and-delete leaves its queue. -/
theorem popped (hq : e.queues k = j :: rest) (hj : e.failure = none → isSettle j.kind = false) :
    Owners (popJob e k) held reserved own := by
  by_cases hf : e.failure = none
  · rcases key_cases k with hk | hk
    · rw [hk] at hq ⊢
      obtain ⟨p, hown, -⟩ := h.queue_owned hq
      exact h.pop hown hf hq (hj hf)
    · rw [hk]
      exact h.popJob_inbound _
  · exact ⟨h.popJob_claims, fun _ _ _ hcon => absurd hcon hf⟩

end

end Owners

/-- The settle-and-delete `j` of the ended flow `p`, alone in its queue. -/
structure LastWrite (e : Engine) (own : PacketID → Option OutPtr) (j : Job) (p : OutPtr)
    (id : PacketID) : Prop where
  holder : own id = some p
  owner : j.owner = .out p
  kind : ∃ f o, j.kind = .settle f o (e.outs p).ref
  epoch : j.epoch = e.epoch
  queue : e.queues (outKey id) = [j]
  finished : (e.outs p).finished = true
  out : e.out.get id = none

/-- What the end of a write with the result `res` makes of the engine: the write goes, with what it
failed; a failed first Put takes its flow back; a settle-and-delete ends. -/
inductive Finished (e : Engine) (own : PacketID → Option OutPtr) (j : Job) :
    RecordKey → Option JobErr → Engine → Prop
  | gone {k res} (hj : e.failure = none → isSettle j.kind = false) :
      Finished e own j k res (popJob e k)
  | failed {k res} (err : StoreError) (hf : e.failure = none) (hj : isSettle j.kind = false) :
      Finished e own j k res (failLocked (popJob e k) err)
  | dropNew {p id} (err : ℕ) (hf : e.failure = none) (hown : own id = some p)
      (howner : j.owner = .out p) (hkind : ∃ r, j.kind = .putNew r) :
      Finished e own j (outKey id) (some (.store err)) (popJob (dropNew e p err) (outKey id))
  | settled {p id res} (failed : Bool) (hf : e.failure = none) (hs : LastWrite e own j p id)
      (hres : failed = false ∧ res = none ∨ failed = true ∧ (e.outs p).ref ≠ []) :
      Finished e own j (outKey id) res
        (popJob (settleAfter (setOut e p fun o => { o with settling := false }) p failed)
          (outKey id))
  | deleteFailed {p id} (c : ℕ) (err : StoreError) (hf : e.failure = none)
      (hs : LastWrite e own j p id) :
      Finished e own j (outKey id) (some (.store c)) (failLocked
        (popJob (setOut e p fun o => { o with settling := false }) (outKey id)) err)

namespace Owners

variable {e : Engine} {held : List (PacketID × Owner)} {reserved : ℕ}
  {own : PacketID → Option OutPtr} {k : RecordKey} {j : Job} {rest : List Job} {res : Option JobErr}

theorem finished (h : Owners e held reserved own) (hq : e.queues k = j :: rest)
    (hstage : j.stage = .ran res) (hstale : e.failure ≠ none → j.epoch ≠ e.epoch)
    (hin : ∀ i, k = inKey i → isOutbound j.kind = false)
    (hlive : ∀ i q, e.out.get i = some q → (e.outs q).finished = false) :
    Finished e own j k res (finishJob e k j res) := by
  have hmem := head_mem hq
  unfold finishJob
  rcases key_cases k with hk | hk
  · obtain ⟨p, hown, howner⟩ := h.queue_owned (hk ▸ hq)
    by_cases hep : j.epoch = e.epoch
    · have hf : e.failure = none := by
        by_contra hcon
        exact hstale hcon hep
      rw [if_pos hep]
      have hslot := h.slot _ p hown hf
      rw [← hk, hq] at hslot
      have hkind := hslot.kind _ mem_cons_self
      have hfailed := hslot.failed _ mem_cons_self
      rcases j with ⟨kind, owner, epoch, stage⟩
      simp only at howner hstage hep hkind hfailed
      subst howner
      cases kind with
      | putNew r =>
        rcases res with _ | (err | err)
        · exact .gone fun _ => rfl
        · rw [hk]
          exact .dropNew err hf hown rfl ⟨r, rfl⟩
        · obtain ⟨f, err', ref, hk', -⟩ := hfailed err hstage
          cases hk'
      | putOut r =>
        rcases res with _ | (err | err)
        · exact .gone fun _ => rfl
        · exact .failed _ hf rfl
        · obtain ⟨f, err', ref, hk', -⟩ := hfailed err hstage
          cases hk'
      | settle f out ref =>
        obtain ⟨rfl, -, hfin⟩ := hslot.settle_alone rfl
        obtain rfl := hslot.captured _ mem_cons_self f out ref rfl
        have hs : LastWrite e own ⟨.settle f out (e.outs p).ref, .out p, epoch, stage⟩ p
            k.packetID := by
          refine ⟨hown, rfl, ⟨f, out, rfl⟩, hep, hk ▸ hq, hfin, ?_⟩
          cases hget : e.out.get k.packetID with
          | none => rfl
          | some q =>
            have hq' := h.live _ q hget
            rw [hown] at hq'
            cases hq'
            have hnot := hlive _ p hget
            rw [hfin] at hnot
            cases hnot
        rw [hk]
        rcases res with _ | (err | err)
        · exact .settled false hf hs (.inl ⟨rfl, rfl⟩)
        · exact .deleteFailed err _ hf hs
        · obtain ⟨f', err', ref', hk', hne⟩ := hfailed err hstage
          cases hk'
          exact .settled true hf hs (.inr ⟨rfl, hne⟩)
      | putIn r | deleteIn => simp [isOutbound] at hkind
    · -- A write of an earlier epoch: the session has failed since.
      rw [if_neg hep]
      refine .gone fun hf => absurd ?_ hep
      exact (h.slot _ p hown hf).epoch j (hk ▸ hmem)
  · -- A write for an inbound flow changes no outbound state.
    have hkind := hin _ hk
    rcases j with ⟨kind, owner, epoch, stage⟩
    simp only at hkind hstale
    cases kind with
    | putIn r | deleteIn =>
      by_cases hep : epoch = e.epoch
      · have hf : e.failure = none := by
          by_contra hcon
          exact hstale hcon hep
        rw [if_pos hep]
        rcases res with _ | (err | err)
        · exact .gone fun _ => rfl
        · exact .failed _ hf rfl
        · exact .failed _ hf rfl
      · rw [if_neg hep]
        exact .gone fun _ => rfl
    | putNew r | putOut r | settle f out ref => simp [isOutbound] at hkind

/-- INTERNAL: **The completion of a write** keeps every identifier with one holder, or without. -/
theorem finishJob (h : Owners e held reserved own) (hq : e.queues k = j :: rest) {e' : Engine}
    (hfin : Finished e own j k res e') : ∃ own', Owners e' held reserved own' ∧
      ∀ i q, own' i = some q → own i = some q := by
  have hless : ∀ id i q, Function.update own id none i = some q → own i = some q := by
    intro id i q hi
    by_cases hik : i = id
    · rw [hik, Function.update_self] at hi
      cases hi
    · rwa [Function.update_of_ne hik] at hi
  cases hfin with
  | gone hj => exact ⟨own, h.popped hq hj, fun _ _ hi => hi⟩
  | failed err => exact ⟨own, h.popJob_claims.fail _, fun _ _ hi => hi⟩
  | dropNew err hf hown => exact ⟨_, h.dropNew hown hf hq err, hless _⟩
  | settled failed hf hs hres =>
    refine ⟨_, h.settled hs.holder hs.queue hs.finished hs.out failed ?_, ?_⟩
    · intro hfailed
      exact (hres.resolve_left fun hcon => by rw [hcon.1] at hfailed; cases hfailed).2
    · intro i q hi
      split at hi
      · exact hi
      · exact hless _ i q hi
  | @deleteFailed p id c err hf hs =>
    refine ⟨own, Claims.fail ?_ _, fun _ _ hi => hi⟩
    refine h.toClaims.touch hs.holder ((Touches.setOut e p id
      (fun o => { o with settling := false }) rfl rfl (fun h => h)).trans (Touches.popJob _ p _)) ?_
    rw [popJob_self]
    simp [setOut, hs.queue]

end Owners

end Mqttv5.Analysis
