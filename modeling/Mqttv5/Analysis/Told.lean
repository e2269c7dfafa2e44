import Mqttv5.Analysis.FoundAgain

/-!
# Who is told, and who has writes

A flow acts through what it owns: its identifier, and with it its writes, its place in the tables
of the engine and the Settle it was given. A flow that owns nothing never acts again. `Trace` says
what one step of a session adds to the Settles that are called and to the writes that run: only
flows that own something are told anything.
-/

set_option autoImplicit false

namespace Mqttv5.Analysis

open Mqttv5.Computation Model Program Interface List FiniteMap

variable {j : Job} {k : RecordKey}

variable {e e' : Engine} {on : Prop} {s t : Sys} {a : Event} {p : OutPtr}

/-- The calls that `Discard` has still to make. -/
def discardCalls : Option DiscardStage → List (OutPtr × SettleFn)
  | some (.calling l) => l
  | _ => []

/-- The flows with a Settle that was called, or that a failure or a `Discard` is about to call. -/
def told (s : Sys) : List OutPtr :=
  s.calls.map Prod.fst ++ s.eng.dropped.map Prod.fst ++ (discardCalls s.discarding).map Prod.fst

/-- The flow at `p` holds no identifier. -/
def Foreign (e : Engine) (held : List (PacketID × Owner)) (reserved : ℕ) (p : OutPtr) : Prop :=
  ∃ own, Owners e held reserved own ∧ ∀ id, own id ≠ some p

/-- The flow at `p` is in the tables of the engine. -/
def Listed (e : Engine) (p : OutPtr) : Prop :=
  (∃ id, e.out.get id = some p) ∨ ∃ r, e.orphans.get r = some p

/-- The first Puts of `e'` are first Puts of `e`. -/
def NoNew (e e' : Engine) : Prop :=
  ∀ k, ∀ j ∈ e'.queues k, isNew j.kind = true →
    ∃ i ∈ e.queues k, isNew i.kind = true ∧ i.owner = j.owner ∧ i.epoch = j.epoch

theorem NoNew.refl (e : Engine) : NoNew e e := fun _ j hj hn => ⟨j, hj, hn, rfl, rfl⟩

theorem NoNew.of_sub (h : SubJobs e e') : NoNew e e' := by
  intro k j hj hn
  obtain ⟨i, hi, hkind, howner, hep⟩ := h k j hj
  exact ⟨i, hi, by rw [hkind]; exact hn, howner, hep⟩

theorem NoNew.trans {a b c : Engine} (h : NoNew a b) (h' : NoNew b c) : NoNew a c := by
  intro k j hj hn
  obtain ⟨i, hi, hin, hio, hie⟩ := h' k j hj hn
  obtain ⟨l, hl, hln, hlo, hle⟩ := h k i hi hin
  exact ⟨l, hl, hln, hlo.trans hio, hle.trans hie⟩

/-- Writes that are added later are not first Puts. -/
theorem NoNew.of_adds {ok : RecordKey → Job → Prop} (h : Adds ok e e')
    (hok : ∀ k j, ok k j → isNew j.kind = false) : NoNew e e' := by
  intro k j hj hn
  rcases h.mem_cases hj with hj | hnew
  · exact ⟨j, hj, hn, rfl, rfl⟩
  · rw [hok k j hnew] at hn
    cases hn

/-- What one step of a session does to those who are told and to those who have writes. -/
structure Trace (s t : Sys) (a : Event) : Prop where
  size : s.eng.nextOut ≤ t.eng.nextOut
  epoch : s.eng.epoch ≤ t.eng.epoch
  told : ∀ q ∈ told t, q ∈ told s ∨
    (∃ k j rest, a = .callSettle k ∧ s.eng.queues k = j :: rest ∧ j.owner = .out q ∧
      isSettle j.kind = true) ∨
    ((s.eng.epoch < t.eng.epoch ∨ a = .discardLocked) ∧ Listed s.eng q)
  foreign : ∀ p, p < s.eng.nextOut → Foreign s.eng s.held s.reserved p →
    Foreign t.eng t.held t.reserved p
  fresh : ∀ k, ∀ j ∈ t.eng.queues k, isNew j.kind = true → j.epoch = t.eng.epoch →
    (∃ i ∈ s.eng.queues k, isNew i.kind = true ∧ i.owner = j.owner ∧ i.epoch = j.epoch) ∨
    j.owner = .out s.eng.nextOut
  ran : ∀ x ∈ t.ran, x ∈ s.ran ∨ ∃ j rest, s.eng.queues x.1 = j :: rest ∧ x.2.owner = j.owner

/-! ### Operations on flows that exist -/

/-- What operations on the flows of `e₀` leave to those who own nothing. -/
structure Apart (held : List (PacketID × Owner)) (reserved : ℕ) (e₀ e : Engine) : Prop where
  foreign : ∀ p, Foreign e₀ held reserved p → Foreign e held reserved p
  dropped : e.dropped = e₀.dropped
  size : e.nextOut = e₀.nextOut
  epoch : e.epoch = e₀.epoch
  fresh : NoNew e₀ e

/-- The part of a flow's operation that is not about who owns what. -/
theorem Apart.acted {held : List (PacketID × Owner)} {reserved : ℕ} {e₀ e d d' : Engine}
    {id : PacketID} (h : Apart held reserved e₀ e) (ht : Touches e d p id)
    (hdropped : d.dropped = e.dropped) (hqueues : d.queues = e.queues) {G : Out → Out → Prop}
      (hacts : Acts G d d')
    {ok : RecordKey → Job → Prop} (hadds : Adds ok d d')
      (hok : ∀ k j, ok k j → isNew j.kind = false)
    (hforeign : ∀ p, Foreign e₀ held reserved p → Foreign d' held reserved p) :
    Apart held reserved e₀ d' := by
  have hepoch := same_epoch hacts.statics
  have hepoch' := same_epoch ht.statics
  have hsame : NoNew e d := by
    intro k j hj hn
    rw [hqueues] at hj
    exact ⟨j, hj, hn, rfl, rfl⟩
  exact ⟨hforeign, hacts.dropped.trans (hdropped.trans h.dropped),
    hacts.nextOut.trans (ht.nextOut.trans h.size), hepoch.trans (hepoch'.trans h.epoch),
    h.fresh.trans (hsame.trans (NoNew.of_adds hadds hok))⟩

/-- All the operations on flows that exist leave them nothing. -/
theorem apart_flowRule (held : List (PacketID × Owner)) (reserved : ℕ) (e₀ : Engine) :
    FlowRule (Apart held reserved e₀) := by
  refine ⟨?_, ?_, ?_⟩
  · intro e e' h hq
    refine ⟨?_, hq.dropped.trans h.dropped, hq.nextOut.trans h.size, hq.epoch.trans h.epoch,
      h.fresh.trans (NoNew.of_adds hq.jobs fun k j hj => hj.2.2)⟩
    intro p hp
    obtain ⟨own, hown, hno⟩ := h.foreign p hp
    refine ⟨own, hown.congr hq.ids hq.stuck ⟨hq.cfg, hq.epoch, hq.failure⟩ hq.nextOut ?_ hq.queues
      (fun i q hi => by rw [← hq.out]; exact hi) (fun r q hr => by rw [← hq.orphans]; exact hr),
        hno⟩
    intro q
    have hs := hq.outs q
    exact ⟨hs.id, hs.finished, hs.settling, hs.adopted, hs.settle, hs.ref⟩
  · intro e d p id h hf hl hd
    refine h.acted hd.touches hd.dropped hd.queues_eq (Acts.retireLocked d p)
      (adds_retireLocked d p) (fun k j hj => hj.1.2) fun q hq => ?_
    obtain ⟨own, hown, hno⟩ := h.foreign q hq
    refine ⟨_, hown.retire (hown.live id p hl.get) hf hl.live hd, fun i => ?_⟩
    split
    · by_cases hi : i = id
      · rw [hi, Function.update_self]
        simp
      · rw [Function.update_of_ne hi]
        exact hno i
    · exact hno i
  · intro e d p id h hf hl hd
    refine h.acted hd.touches hd.dropped hd.queues_eq (Acts.putOutLocked d p)
      (adds_putOutLocked d p) (fun k j hj => hj.2) fun q hq => ?_
    obtain ⟨own, hown, hno⟩ := h.foreign q hq
    exact ⟨own, hown.rewrite (hown.live id p hl.get) hf hl.live hd.touches hd.queues hd.finished
      hd.settling hd.adopted hd.settle hd.ref, hno⟩

/-! ### The end of a write -/

/-- The write that fails the session leaves its tables as they were. -/
theorem afterJob_failed {res : Option JobErr} {err : StoreError}
    (h : (afterJob e j res).2 = some err) : (afterJob e j res).1.out = e.out ∧
      (afterJob e j res).1.orphans = e.orphans ∧
      (afterJob e j res).1.pub ++ (afterJob e j res).1.rel = e.pub ++ e.rel := by
  unfold afterJob at h ⊢
  split at h
  · cases h
  · cases h
  · exact ⟨rfl, rfl, rfl⟩
  · cases h
  · cases h
  · exact ⟨rfl, rfl, rfl⟩
  · exact ⟨rfl, rfl, rfl⟩
  · cases h

/-- A failure tells the flows that are in the tables. -/
theorem mem_failLocked_dropped (err : StoreError) {d : OutPtr × SettleFn × PubErr}
    (hd : d ∈ (failLocked e err).dropped) : d ∈ e.dropped ∨
      (e.failure = none ∧ (d.1 ∈ e.pub ++ e.rel ∨ ∃ r, e.orphans.get r = some d.1)) := by
  by_cases hf : e.failure = none
  · rw [failLocked_dropped err hf] at hd
    refine (mem_append.mp hd).imp_right fun hd => ⟨hf, ?_⟩
    rcases mem_append.mp hd with hd | hd
    · obtain ⟨p, hp, heq⟩ := mem_filterMap.mp hd
      obtain ⟨f, -, rfl⟩ := Option.map_eq_some_iff.mp heq
      exact .inl ((mem_insertionSort _).mp hp)
    · obtain ⟨p, hp, heq⟩ := mem_filterMap.mp hd
      obtain ⟨f, -, rfl⟩ := Option.map_eq_some_iff.mp heq
      exact .inr ((mem_vals _ _).mp hp)
  · rw [failLocked_of_failed e err hf] at hd
    exact .inl hd

theorem failLocked_keeps (e : Engine) (err : StoreError) :
    (failLocked e err).nextOut = e.nextOut ∧ (failLocked e err).queues = e.queues ∧
    (e.failure = none → (failLocked e err).epoch = e.epoch + 1) ∧
    e.epoch ≤ (failLocked e err).epoch := by
  by_cases hf : e.failure = none
  · have heq := failLocked_eq e err hf
    rw [heq]
    exact ⟨rfl, rfl, fun _ => rfl, Nat.le_succ _⟩
  · rw [failLocked_of_failed e err hf]
    exact ⟨rfl, rfl, fun hcon => absurd hcon hf, le_rfl⟩

/-! ### Restore and Discard -/

/-- What `Restore` leaves of the flows before it. -/
theorem restoreLocked_keeps {m : Meta} {recs : List Record} (h : restoreLocked e m recs = some e') :
    e'.dropped = e.dropped ∧ e.nextOut ≤ e'.nextOut ∧
      (∀ q, q < e.nextOut → e'.outs q = e.outs q) ∧
      ∀ ref q, e'.orphans.get ref = some q → e.nextOut ≤ q := by
  obtain ⟨-, -, d, rel, -, ⟨hrev, hothers, -⟩, rfl⟩ := restoreLocked_some h
  have hdropped := congrArg Engine.dropped hothers
  refine ⟨hdropped, hrev.grows, fun q hq => hrev.old hq, ?_⟩
  intro ref q hq
  rcases hrev.orphans ref q hq with hold | hge
  · have hold : (∅ : FiniteMap Bytes OutPtr).get ref = some q := hold
    rw [get_empty] at hold
    cases hold
  · exact hge

/-- INTERNAL: `Discard` tells the flows that are in the tables. -/
theorem discardLocked_keeps (e : Engine) : (discardLocked e).1.dropped = e.dropped ∧
    (discardLocked e).1.nextOut = e.nextOut ∧
    ∀ x ∈ (discardLocked e).2, x.1 ∈ e.pub ++ e.rel ∨ ∃ r, e.orphans.get r = some x.1 := by
  obtain ⟨ids, stuck, out, refs, orphans, heq⟩ := discardLocked_eq e
  rw [heq]
  refine ⟨rfl, rfl, ?_⟩
  intro x hx
  rcases mem_append.mp hx with hx | hx
  · obtain ⟨p, hp, hx⟩ := mem_flatMap.mp hx
    left
    rw [mem_settleOf hx]
    exact (mem_insertionSort _).mp hp
  · obtain ⟨y, hy, hx⟩ := mem_flatMap.mp hx
    right
    rw [mem_settleOf hx]
    exact ⟨y.1, (mem_toList _ _ _).mp hy⟩

/-! ### The steps -/

section Owned

variable {e : Engine} {held : List (PacketID × Owner)} {reserved : ℕ} {p : OutPtr}

/-- A flow out of the tables and without writes holds nothing. -/
theorem Foreign.of_unlisted {own : PacketID → Option OutPtr} (h : Owners e held reserved own)
    (hlist : ¬ Listed e p) (hjobs : ∀ id, own id = some p → e.queues (outKey id) = []) :
    Foreign e held reserved p := by
  refine ⟨fun id => if own id = some p then none else own id, ⟨⟨h.table, h.running, ?_, ?_, ?_, ?_,
    ?_, ?_, ?_, h.callers⟩, ?_⟩, ?_⟩
  · intro id q hq
    split at hq
    · cases hq
    · exact h.ptr id q hq
  · intro id q hq
    split at hq
    · cases hq
    · exact h.jobs id q hq
  · intro id hnone
    split at hnone
    · rename_i hp
      exact hjobs id hp
    · exact h.empty id hnone
  · intro id q hq
    have hown := h.live id q hq
    rw [if_neg, hown]
    rw [hown]
    intro hcon
    cases hcon
    exact hlist (.inl ⟨id, hq⟩)
  · intro r q hq
    obtain ⟨hown, hrest⟩ := h.orphan r q hq
    refine ⟨?_, hrest⟩
    rw [if_neg, hown]
    rw [hown]
    intro hcon
    cases hcon
    exact hlist (.inr ⟨r, hq⟩)
  · intro id q hq
    split at hq
    · cases hq
    · exact h.owner id q hq
  · intro id o ho
    obtain ⟨hnone, hrest⟩ := h.caller id o ho
    refine ⟨?_, hrest⟩
    rw [if_neg, hnone]
    rw [hnone]
    simp
  · intro id q hq
    split at hq
    · cases hq
    · exact h.slot id q hq
  · intro id
    show (if own id = some p then none else own id) ≠ some p
    split
    · simp
    · rename_i hne
      exact hne

/-- What holds nothing is in no table. -/
theorem Foreign.unlisted (h : Foreign e held reserved p) : ¬ Listed e p := by
  obtain ⟨own, hown, hno⟩ := h
  rintro (⟨id, hid⟩ | ⟨r, hr⟩)
  · exact hno id (hown.live id p hid)
  · exact hno _ (hown.orphan r p hr).1

/-- What holds nothing has no write. -/
theorem Foreign.no_write (h : Foreign e held reserved p) {id : PacketID}
    (hj : j ∈ e.queues (outKey id)) : j.owner ≠ .out p := by
  obtain ⟨own, hown, hno⟩ := h
  exact fun howner => hno id (hown.of_job hj howner)

end Owned

namespace Trace

/-- A step that tells nobody. -/
theorem of_untold (hsize : s.eng.nextOut ≤ t.eng.nextOut) (hepoch : t.eng.epoch = s.eng.epoch)
    (hdropped : t.eng.dropped = s.eng.dropped)
    (hmon : t.calls = s.calls ∧ t.discarding = s.discarding ∧ t.ran = s.ran)
    (hforeign : ∀ p, p < s.eng.nextOut → Foreign s.eng s.held s.reserved p →
      Foreign t.eng t.held t.reserved p) (hfresh : ∀ k, ∀ j ∈ t.eng.queues k, isNew j.kind = true →
      (∃ i ∈ s.eng.queues k, isNew i.kind = true ∧ i.owner = j.owner ∧ i.epoch = j.epoch) ∨
        j.owner = .out s.eng.nextOut) : Trace s t a := by
  obtain ⟨hcalls, hdiscarding, hran⟩ := hmon
  refine ⟨hsize, hepoch.ge, ?_, hforeign, fun k j hj hn _ => hfresh k j hj hn, ?_⟩
  · intro q hq
    unfold Analysis.told at hq
    rw [hcalls, hdropped, hdiscarding] at hq
    exact .inl hq
  · rw [hran]
    exact fun x hx => .inl hx

/-- Operations on flows that exist. -/
theorem of_flows (heng : Evolves s.eng t.eng) (hcallers : t.held = s.held ∧ t.reserved = s.reserved)
    (hmon : t.calls = s.calls ∧ t.discarding = s.discarding ∧ t.ran = s.ran) : Trace s t a := by
  obtain ⟨hforeign, hdropped, hsize, hepoch, hfresh⟩ :=
    heng _ (apart_flowRule s.held s.reserved s.eng)
    ⟨fun _ hp => hp, rfl, rfl, rfl, NoNew.refl _⟩
  refine .of_untold hsize.ge hepoch hdropped hmon ?_
    fun k j hj hn => .inl (hfresh k j hj hn)
  rw [hcallers.1, hcallers.2]
  exact fun p _ hp => hforeign p hp

/-- A step beside the flows. -/
theorem of_aside (hforeign : ∀ p, Foreign s.eng s.held s.reserved p →
      Foreign t.eng t.held t.reserved p)
    (hsize : t.eng.nextOut = s.eng.nextOut) (hepoch : t.eng.epoch = s.eng.epoch)
    (hqueues : t.eng.queues = s.eng.queues)
    (htold : ∀ q ∈ Analysis.told t, q ∈ Analysis.told s) (hran : t.ran = s.ran) : Trace s t a := by
  refine ⟨hsize.ge, hepoch.ge, fun q hq => .inl (htold q hq),
    fun p _ hp => hforeign p hp, ?_, ?_⟩
  · intro k j hj hn _
    rw [hqueues] at hj
    exact .inl ⟨j, hj, hn, rfl, rfl⟩
  · rw [hran]
    exact fun x hx => .inl hx

/-- A write moves to its next stage. -/
theorem of_stage {rest : List Job} {st : Stage} (hq : s.eng.queues k = j :: rest)
    (hst : ∀ c, st = .ran (some (.settle c)) → ∃ f err ref, j.kind = .settle f err ref ∧ ref ≠ [])
    (heng : t.eng = setStage s.eng k st) (hcallers : t.held = s.held ∧ t.reserved = s.reserved)
    (hdiscarding : t.discarding = s.discarding)
    (hcalls : ∀ x ∈ t.calls, x ∈ s.calls ∨ a = .callSettle k ∧ j.owner = .out x.1 ∧
      isSettle j.kind = true)
    (hran : ∀ x ∈ t.ran, x ∈ s.ran ∨ x.1 = k ∧ x.2.owner = j.owner) : Trace s t a := by
  obtain ⟨hheld, hreserved⟩ := hcallers
  have hkeep : t.eng.nextOut = s.eng.nextOut ∧ t.eng.epoch = s.eng.epoch ∧
      t.eng.dropped = s.eng.dropped := by
    rw [heng]
    unfold setStage
    rw [hq]
    exact ⟨rfl, rfl, rfl⟩
  refine ⟨hkeep.1.ge, hkeep.2.1.ge, ?_, ?_, ?_, ?_⟩
  · intro q hmem
    unfold Analysis.told at hmem ⊢
    rw [hkeep.2.2, hdiscarding] at hmem
    simp only [mem_append] at hmem ⊢
    rcases hmem with (hmem | hmem) | hmem
    · obtain ⟨x, hx, rfl⟩ := mem_map.mp hmem
      rcases hcalls x hx with hx | ⟨ha, howner, hkind⟩
      · exact .inl (.inl (.inl (mem_map_of_mem hx)))
      · exact .inr (.inl ⟨k, j, rest, ha, hq, howner, hkind⟩)
    · exact .inl (.inl (.inr hmem))
    · exact .inl (.inr hmem)
  · intro p _ hp
    obtain ⟨own, hown, hno⟩ := hp
    rw [heng, hheld, hreserved]
    exact ⟨own, hown.setStage st hq hst, hno⟩
  · intro k' j' hj' hn _
    rw [heng] at hj'
    exact .inl (NoNew.of_sub (subJobs_setStage s.eng k st) k' j' hj' hn)
  · intro x hx
    rcases hran x hx with hx | ⟨rfl, howner⟩
    · exact .inl hx
    · exact .inr ⟨j, rest, hq, howner⟩

end Trace

namespace Core

/-- A flow on the lists is in the table. -/
theorem listed (h : Core on s) {p : OutPtr}
    (hp : p ∈ s.eng.pub ++ s.eng.rel ∨ ∃ r, s.eng.orphans.get r = some p) : Listed s.eng p := by
  rcases hp with hp | hp
  · have hlive := (h.ordered.mem p).mp (by simpa [SendQueue.listed] using hp)
    exact .inl ⟨_, (h.ordered.get _ p).mpr ⟨hlive, rfl⟩⟩
  · exact .inr hp

/-- The session fails, after a step that told nobody. -/
theorem trace_failed (h : Core on s) {e : Engine} {err : StoreError}
    (heng : t.eng = Program.failLocked e err) (hfresh : NoNew s.eng e)
    (hframe : e.dropped = s.eng.dropped ∧ e.nextOut = s.eng.nextOut ∧ e.epoch = s.eng.epoch)
    (hlists : e.orphans = s.eng.orphans ∧ e.pub ++ e.rel = s.eng.pub ++ s.eng.rel)
    (hforeign : ∀ p, p < s.eng.nextOut → Foreign s.eng s.held s.reserved p →
      Foreign t.eng t.held t.reserved p)
    (hmon : t.calls = s.calls ∧ t.discarding = s.discarding ∧ t.ran = s.ran) : Trace s t a := by
  obtain ⟨hcalls, hdiscarding, hran⟩ := hmon
  obtain ⟨hdropped, hnext, hep⟩ := hframe
  obtain ⟨hfnext, hqueues, hepoch, hmono⟩ := failLocked_keeps e err
  refine ⟨by rw [heng, hfnext, hnext], by rw [heng, ← hep]; exact hmono, ?_, hforeign, ?_, ?_⟩
  · intro q hmem
    unfold Analysis.told at hmem ⊢
    rw [hcalls, hdiscarding] at hmem
    simp only [mem_append] at hmem ⊢
    rcases hmem with (hmem | hmem) | hmem
    · exact .inl (.inl (.inl hmem))
    · obtain ⟨d, hd, rfl⟩ := mem_map.mp hmem
      rw [heng] at hd
      rcases mem_failLocked_dropped err hd with hd | ⟨hf, hlisted⟩
      · rw [hdropped] at hd
        exact .inl (.inl (.inr (mem_map_of_mem hd)))
      · have hlt : s.eng.epoch < t.eng.epoch := by
          rw [heng, hepoch hf, hep]
          exact Nat.lt_succ_self _
        rw [hlists.1, hlists.2] at hlisted
        exact .inr (.inr ⟨.inl hlt, h.listed hlisted⟩)
    · exact .inl (.inr hmem)
  · intro k j hj hn _
    rw [heng, hqueues] at hj
    exact .inl (hfresh k j hj hn)
  · rw [hran]
    exact fun x hx => .inl hx

/-- The end of a write. -/
theorem trace_finish (h : Core on s) {rest : List Job}
    {res : Option JobErr} (hq : s.eng.queues k = j :: rest) (hstage : j.stage = .ran res) :
    Trace s { s with eng := finishJob s.eng k j res, reporting := s.reporting + 1 } a := by
  have hacts := Acts.afterJob s.eng j res
  have hafter : NoNew s.eng (popJob (afterJob s.eng j res).1 k) := by
    refine NoNew.trans ?_ (NoNew.of_sub (subJobs_popJob _ k))
    rcases afterJob_jobs s.eng j res with ⟨hsub, -⟩ | hadds
    · exact NoNew.of_sub hsub
    · exact NoNew.of_adds hadds fun k j hj => hj.1.2
  have hepoch : (afterJob s.eng j res).1.epoch = s.eng.epoch :=
    same_epoch hacts.statics
  have hforeign : ∀ p, p < s.eng.nextOut → Foreign s.eng s.held s.reserved p →
      Foreign (finishJob s.eng k j res) s.held s.reserved p := by
    rintro p - ⟨own, hown, hno⟩
    obtain ⟨own', hown', hsub⟩ :=
      hown.finishJob hq (h.finished hown hq hstage)
    exact ⟨own', hown', fun id hid => hno id (hsub id p hid)⟩
  -- Either nobody is told, or the session fails.
  have hcases : ∃ e, NoNew s.eng e ∧ e.dropped = s.eng.dropped ∧ e.nextOut = s.eng.nextOut ∧
      e.epoch = s.eng.epoch ∧ (finishJob s.eng k j res = e ∨ ∃ err, finishJob s.eng k j res =
        Program.failLocked e err ∧ e.orphans = s.eng.orphans ∧
        e.pub ++ e.rel = s.eng.pub ++ s.eng.rel) := by
    rcases Core.finishJob_cases s.eng k j res with ⟨-, hcase⟩ | ⟨-, heq⟩
    · refine ⟨popJob (afterJob s.eng j res).1 k, hafter, hacts.dropped, hacts.nextOut, hepoch, ?_⟩
      rcases hcase with ⟨-, heq⟩ | ⟨err, hres, heq⟩
      · exact .inl heq
      · exact .inr ⟨err, heq, (afterJob_failed hres).2⟩
    · exact ⟨popJob s.eng k, NoNew.of_sub (subJobs_popJob _ k), rfl, rfl, rfl, .inl heq⟩
  obtain ⟨e, hfresh, hdropped, hnext, hep, hcase⟩ := hcases
  rcases hcase with heq | ⟨err, heq, hlists⟩
  · refine .of_untold ?_ ?_ ?_ ⟨rfl, rfl, rfl⟩ hforeign fun k' j' hj' hn => ?_
    · simp only [heq]
      exact hnext.ge
    · simp only [heq, hep]
    · simp only [heq, hdropped]
    · simp only [heq] at hj'
      exact .inl (hfresh k' j' hj' hn)
  · exact h.trace_failed heq hfresh ⟨hdropped, hnext, hep⟩ hlists hforeign ⟨rfl, rfl, rfl⟩

/-- A caller takes part in the identifier table. -/
theorem trace_table {ids : IDTable} {stuck : Bool}
    (heng : t.eng = { s.eng with ids := ids, stuck := stuck })
    (hforeign : ∀ own, Owners s.eng s.held s.reserved own → Owners t.eng t.held t.reserved own)
    (hmon : t.calls = s.calls ∧ t.discarding = s.discarding ∧ t.ran = s.ran) : Trace s t a := by
  obtain ⟨hcalls, hdiscarding, hran⟩ := hmon
  refine .of_aside ?_ (by rw [heng]) (by rw [heng]) (by rw [heng]) ?_ hran
  · rintro p ⟨own, hown, hno⟩
    exact ⟨own, hforeign own hown, hno⟩
  · intro q hq
    unfold Analysis.told at hq ⊢
    rw [heng, hcalls, hdiscarding] at hq
    exact hq

/-- The calls of a failure and of a `Discard` are made, and the store is used. -/
theorem trace_calls (heng : t.eng = { s.eng with
      metaData := t.eng.metaData
      dropped := t.eng.dropped
      writes := t.eng.writes
      writesIdle := t.eng.writesIdle })
    (hcallers : t.held = s.held ∧ t.reserved = s.reserved)
    (htold : ∀ q ∈ Analysis.told t, q ∈ Analysis.told s) (hran : t.ran = s.ran) : Trace s t a := by
  refine .of_aside ?_ (by rw [heng]) (by rw [heng]) (by rw [heng]) htold hran
  rintro p ⟨own, hown, hno⟩
  rw [heng, hcallers.1, hcallers.2]
  exact ⟨own, hown.congr rfl rfl ⟨rfl, rfl, rfl⟩ rfl (fun _ => ⟨rfl, rfl, rfl, rfl, rfl, rfl⟩)
    (fun _ => rfl) (fun _ _ h => h) (fun _ _ h => h), hno⟩

theorem trace_register {m : Message} {now : Time} (hstep : s.step (.register m now) = some t) :
    Trace s t (.register m now) := by
  cases (stepped hstep).2
  rename_i hheld
  by_cases hf : s.eng.failure = none
  · obtain ⟨-, -, -, -, -, hdropped, hnext, hepoch, hother, extra, hq, hextra⟩ :=
      register_keeps (e := s.eng) m now hf
    refine .of_untold ?_ hepoch hdropped ⟨rfl, rfl, rfl⟩ ?_ ?_
    · simp only [hnext]
      exact Nat.le_succ _
    · rintro p hp ⟨own, hown, hno⟩
      refine ⟨_, hown.register m now hf hheld, ?_⟩
      intro id
      by_cases hid : id = m.id
      · rw [hid, Function.update_self]
        intro hcon
        cases hcon
        exact Nat.lt_irrefl _ hp
      · rw [Function.update_of_ne hid]
        exact hno id
    · intro k j hj hn
      simp only at hj
      by_cases hk : k = outKey m.id
      · rw [hk, hq] at hj
        rcases mem_append.mp hj with hj | hj
        · exact .inl ⟨j, hk ▸ hj, hn, rfl, rfl⟩
        · rcases hextra with rfl | ⟨-, rfl⟩
          · cases hj
          · cases mem_singleton.mp hj
            exact .inr rfl
      · rw [hother k hk] at hj
        exact .inl ⟨j, hj, hn, rfl, rfl⟩
  · have hsome : s.eng.failure.isSome = true := Option.isSome_iff_ne_none.mpr hf
    obtain ⟨ids, stuck, hrel⟩ := releaseLocked_eq s.eng m.id .publish
    have heq : (Program.register s.eng m now).1 = releaseLocked s.eng m.id .publish := by
      unfold Program.register
      rw [if_pos hsome]
    refine trace_table (heq.trans hrel) ?_ ⟨rfl, rfl, rfl⟩
    intro own hown
    simp only [heq]
    exact hown.releaseID hheld

theorem trace_adopt (h : Core on s) {ref : Bytes} {f : SettleFn}
    (hstep : s.step (.adopt ref f) = some t) : Trace s t (.adopt ref f) := by
  cases (stepped hstep).2
  by_cases hf : s.eng.failure = none
  · have hacts := Acts.adopt s.eng ref f
    have hepoch : (Program.adopt s.eng ref f).1.epoch = s.eng.epoch :=
      (same_epoch hacts.statics :)
    refine .of_untold hacts.nextOut.ge hepoch hacts.dropped ⟨rfl, rfl, rfl⟩ ?_
      fun k j hj hn => .inl
        (NoNew.of_adds (adds_adopt s.eng ref f) (fun _ _ hj => hj.1.2) k j hj hn)
    · rintro p - ⟨own, hown, hno⟩
      refine ⟨own, hown.adopt hf ?_ ref f, hno⟩
      intro r q hr
      have hlive := (h.ordered.refs r q hr).1
      exact ⟨hown.live _ q ((h.ordered.get _ q).mpr ⟨hlive, rfl⟩), hlive.2⟩
  · have heq := h.adopt_failed hf ref f
    refine .of_aside ?_ ?_ ?_ ?_ ?_ rfl <;> simp only [heq]
    · exact fun _ hp => hp
    · intro q hq
      exact hq

end Core

/-- A Restore gives the flows before it nothing. -/
theorem Session.trace_restore (h : Session on s) (ha : AtRest on s .restore)
    (hstep : s.step .restore = some t) : Trace s t .restore := by
  have hc := h.core
  obtain ⟨hw, hheld, hreserved, -⟩ := ha
  obtain ⟨who, hk⟩ := h.known
  cases (stepped hstep).2 with
  | restored m recs e hloaded he =>
    have hl := (hk.loaded m recs hloaded).1
    have hidle := (hc.counted.idle hw).1
    have hr := hc.restored hw hl he
    obtain ⟨own', hown'⟩ := hr.owners
    obtain ⟨hdropped, hnext, hheap, horph⟩ := restoreLocked_keeps he
    have hempty : ∀ k, e.queues k = [] := fun k => (congrFun hr.jobs.1 k).trans (hidle k)
    refine .of_untold hnext hr.frame.2.2.2.1 hdropped ⟨rfl, rfl, rfl⟩ ?_ ?_
    · intro p hp hforeign
      simp only [hheld, hreserved]
      refine .of_unlisted hown' ?_ fun id _ => hempty _
      rintro (⟨id, hid⟩ | ⟨r, hrp⟩)
      · -- A flow of the new session has not finished, and the one before it has.
        have hfin : (e.outs p).finished = false := (hr.steady.ordered.live_of_get hid).2
        rw [hheap p hp] at hfin
        have hlive : (sendQueue s.eng).Live p := ⟨hp, hfin⟩
        exact hforeign.unlisted (.inl ⟨_, (hc.ordered.get _ p).mpr ⟨hlive, rfl⟩⟩)
      · have hge := horph r p hrp
        omega
    · intro k j hj
      rw [hempty k] at hj
      cases hj
  | notRestored => exact Core.trace_calls rfl ⟨rfl, rfl⟩ (fun q hq => hq) rfl

/-- The locked section of a `Discard` tells the flows in the tables. -/
theorem Core.trace_discard (h : Core on s) (hw : s.eng.writes = 0)
    (hstep : s.step .discardLocked = some t) : Trace s t .discardLocked := by
  have hidle := (h.counted.idle hw).1
  cases (stepped hstep).2
  obtain ⟨hd, ⟨own, hown⟩, horph, -⟩ := h.discarded hw
  obtain ⟨hdropped, hnext, hcalls⟩ := discardLocked_keeps s.eng
  have hempty : ∀ k, (Program.discardLocked s.eng).1.queues k = [] :=
    fun k => (congrFun hd.jobs.1 k).trans (hidle k)
  have hepoch := same_epoch hd.statics
  have hepoch : (Program.discardLocked s.eng).1.epoch = s.eng.epoch := hepoch
  refine ⟨hnext.ge, hepoch.ge, ?_, ?_, ?_, fun x hx => .inl hx⟩
  · intro q hq
    unfold Analysis.told at hq ⊢
    simp only [hdropped, discardCalls, mem_append] at hq ⊢
    rcases hq with hq | hq
    · exact .inl (.inl hq)
    · obtain ⟨x, hx, rfl⟩ := mem_map.mp hq
      exact .inr (.inr ⟨.inr trivial, h.listed (hcalls x hx)⟩)
  · intro p _ _
    refine .of_unlisted hown ?_ fun id _ => hempty _
    rintro (⟨id, hid⟩ | ⟨r, hrp⟩)
    · have hmem := (hd.ordered.mem p).mpr (hd.ordered.live_of_get hid)
      simp [SendQueue.listed, hd.drained.1, hd.drained.2] at hmem
    · rw [horph r] at hrp
      cases hrp
  · intro k j hj
    rw [hempty k] at hj
    cases hj

/-- INTERNAL: **What a step of a session adds** to those who are told and to the writes. -/
theorem Session.trace (h : Session on s) (ha : AtRest on s a) (hre : a ≠ .restart)
    (hstep : s.step a = some t) : Trace s t a := by
  have hc := h.core
  by_cases hon : onFlows a = true
  · obtain ⟨heng, hrest⟩ := hc.evolves hon hstep
    rw [hrest]
    exact .of_flows heng ⟨rfl, rfl⟩ ⟨rfl, rfl, rfl⟩
  have hran : ∀ (k : RecordKey) (j : Job) (st : Stage),
      ∀ x ∈ s.ran ++ [(k, { j with stage := st })], x ∈ s.ran ∨ x.1 = k ∧ x.2.owner = j.owner := by
    intro k j st x hx
    rcases mem_append.mp hx with hx | hx
    · exact .inl hx
    · cases mem_singleton.mp hx
      exact .inr ⟨rfl, rfl⟩
  -- The steps of a Discard that make no call.
  have hquiet : ∀ t : Sys, discardCalls s.discarding = [] → t.calls = s.calls → t.eng = s.eng →
      discardCalls t.discarding = [] → ∀ q ∈ told t, q ∈ told s := by
    intro t hbefore hcalls heng hafter q hq
    unfold told at hq ⊢
    rw [hcalls, heng, hafter] at hq
    rw [hbefore]
    exact hq
  cases (stepped hstep).2 with
  | reserve hfree =>
    exact Core.trace_table rfl (fun own hown => hown.reserve (if_pos hfree)) ⟨rfl, rfl, rfl⟩
  | take o r hres ho hr =>
    have halloc : allocateID s.eng o = some (r.1, { s.eng with ids := r.2 }) := by
      rw [allocateID, hr]
      rfl
    exact Core.trace_table rfl (fun own hown => hown.take ho (Nat.pos_of_ne_zero hres) halloc)
      ⟨rfl, rfl, rfl⟩
  | releaseID id o hheld =>
    obtain ⟨ids, stuck, heq⟩ := releaseLocked_eq s.eng id o
    exact Core.trace_table heq (fun own hown => hown.releaseID hheld) ⟨rfl, rfl, rfl⟩
  | register => exact Core.trace_register hstep
  | adopt => exact hc.trace_adopt hstep
  | callSettle k f o ref p ep rest hq =>
    refine .of_stage hq (by simp) rfl ⟨rfl, rfl⟩ rfl ?_ fun x hx => .inl hx
    intro x hx
    rcases mem_append.mp hx with hx | hx
    · exact .inl hx
    · cases mem_singleton.mp hx
      exact .inr ⟨rfl, rfl, rfl⟩
  | settleFailed k c f o ref q ep rest hq href =>
    exact .of_stage hq (fun _ _ => ⟨f, o, ref, rfl, href⟩) rfl ⟨rfl, rfl⟩ rfl
      (fun x hx => .inl hx) (hran k ⟨.settle f o ref, q, ep, .settling⟩ _)
  | settled k err f o ref q ep rest hq =>
    exact .of_stage hq (by simp) rfl ⟨rfl, rfl⟩ rfl (fun x hx => .inl hx) fun x hx => .inl hx
  | ranAlone k err applied j rest hq =>
    exact .of_stage hq (by simp) rfl ⟨rfl, rfl⟩ rfl (fun x hx => .inl hx) (hran k j _)
  | ranStore k err applied j rest hq =>
    refine .of_stage hq ?_ rfl ⟨rfl, rfl⟩ rfl (fun x hx => .inl hx) (hran k j _)
    intro c hcon
    cases err <;> simp at hcon
  | finish k j rest res hq hstage => exact hc.trace_finish hq hstage
  | callDropped p f err rest hdropped =>
    refine Core.trace_calls rfl ⟨rfl, rfl⟩ ?_ rfl
    intro q hq
    unfold told at hq ⊢
    rw [hdropped]
    simp only [map_append, map_cons, map_nil, append_assoc, mem_append,
      mem_cons, not_mem_nil, or_false] at hq ⊢
    tauto
  | setMetaFailed =>
    refine hc.trace_failed rfl (NoNew.refl _) ⟨rfl, rfl, rfl⟩ ⟨rfl, rfl⟩ ?_ ⟨rfl, rfl, rfl⟩
    rintro p - ⟨own, hown, hno⟩
    by_cases hf : s.eng.failure = none
    · exact ⟨own, hown.toClaims.fail _, hno⟩
    · simp only [failLocked_of_failed s.eng _ hf]
      exact ⟨own, hown, hno⟩
  | restored | notRestored => exact h.trace_restore ha hstep
  | discard hidle =>
    exact Core.trace_calls rfl ⟨rfl, rfl⟩ (hquiet _ (by rw [hidle.2]; rfl) rfl rfl rfl) rfl
  | resetAlone err hdis | reset hdis | resetFailed c hdis | discardDone hdis =>
    exact Core.trace_calls rfl ⟨rfl, rfl⟩ (hquiet _ (by rw [hdis]; rfl) rfl rfl rfl) rfl
  | discardLocked => exact hc.trace_discard ha.1 hstep
  | discardCall x rest hdis =>
    refine Core.trace_calls rfl ⟨rfl, rfl⟩ ?_ rfl
    intro q hq
    unfold told at hq ⊢
    rw [hdis]
    simp only [discardCalls, map_append, map_cons, map_nil, append_assoc,
      mem_append, mem_cons, not_mem_nil, or_false] at hq ⊢
    tauto
  | report | setMetaSame | setMetaStarts | setMetaAlone | setMetaStore | setMetaDone | load =>
    exact Core.trace_calls rfl ⟨rfl, rfl⟩ (fun q hq => hq) rfl
  | restart => exact absurd rfl hre
  | _ => exact absurd rfl hon

/-! ### A flow that was never told -/

/-- A flow with its first Put before it has been told nothing, and nobody who was told is unknown.
-/
structure Untold (s : Sys) : Prop where
  bound : ∀ q ∈ told s, q < s.eng.nextOut
  fresh : ∀ k, ∀ j ∈ s.eng.queues k, isNew j.kind = true → j.epoch = s.eng.epoch →
    ∀ p, j.owner = .out p → p ∉ told s

/-- A flow in the tables is in the heap. -/
theorem Core.listed_lt (h : Core on s) (hp : Listed s.eng p) : p < s.eng.nextOut := by
  obtain ⟨own, hown⟩ := h.owners
  rcases hp with ⟨id, hid⟩ | ⟨r, hr⟩
  · exact (hown.ptr id p (hown.live id p hid)).1
  · exact (hown.ptr _ p (hown.orphan r p hr).1).1

/-- A flow with a write is in the heap. -/
theorem Core.owner_lt (h : Core on s) (hj : j ∈ s.eng.queues k)
    (hout : isOutbound j.kind = true) (howner : j.owner = .out p) :
    p < s.eng.nextOut ∧ k = outKey (s.eng.outs p).id := by
  obtain ⟨own, hown⟩ := h.owners
  have hdir := (h.jobs.side k j hj).mp hout
  have hk : k = outKey k.packetID := by
    rcases Owners.key_cases k with hk | hk
    · exact hk
    · rw [hk] at hdir
      cases hdir
  cases hid : own k.packetID with
  | none =>
    rw [hk, hown.empty _ hid] at hj
    cases hj
  | some q =>
    have hq := hown.jobs _ q hid j (hk ▸ hj)
    rw [howner] at hq
    cases hq
    obtain ⟨hlt, hpid⟩ := hown.ptr _ p hid
    exact ⟨hlt, by rw [hpid]; exact hk⟩

/-- INTERNAL: **No step tells a flow whose first Put is before it.** -/
theorem Untold.step (h : Untold s) (hs : Session on s) (ha : Trace s t a) (hrest : AtRest on s a) :
    Untold t := by
  have hc := hs.core
  obtain ⟨own, hown⟩ := hc.owners
  have hold : ∀ q ∈ told t, q < s.eng.nextOut := by
    intro q hq
    rcases ha.told q hq with hq | ⟨k, j, rest, -, hqueue, howner, hkind⟩ | ⟨-, hlisted⟩
    · exact h.bound q hq
    · exact (hc.owner_lt (head_mem hqueue) (isOutbound_of_isSettle hkind) howner).1
    · exact hc.listed_lt hlisted
  refine ⟨fun q hq => (hold q hq).trans_le ha.size, ?_⟩
  intro k j hj hnew hep p howner hp
  rcases ha.fresh k j hj hnew hep with ⟨i, hi, hinew, hiowner, hiep⟩ | hown'
  · have hle : i.epoch ≤ s.eng.epoch := by
      by_cases hf : s.eng.failure = none
      · exact (hc.jobs.current hf k i hi).le
      · exact Nat.le_of_lt (hc.jobs.stale hf k i hi)
    have hiout : i.owner = .out p := hiowner.trans howner
    have hcur : i.epoch = s.eng.epoch := by
      have hmono := ha.epoch
      omega
    obtain ⟨-, hkey⟩ := hc.owner_lt hi (isOutbound_of_isNew hinew) hiout
    have hf : s.eng.failure = none := by
      by_contra hcon
      have hstale := hc.jobs.stale hcon k i hi
      omega
    rcases ha.told p hp with hp | ⟨k', j', rest, -, hqueue, howner', hkind⟩ | ⟨hcause, -⟩
    · exact h.fresh k i hi hinew hcur p hiout hp
    · -- A settle write at the head is the only one of its flow.
      obtain ⟨-, hkey'⟩ := hc.owner_lt (head_mem hqueue) (isOutbound_of_isSettle hkind) howner'
      obtain ⟨q, hq, hqowner⟩ := hown.queue_owned (hkey' ▸ hqueue)
      rw [howner'] at hqowner
      cases hqowner
      have hslot := hown.slot _ p hq hf
      rw [← hkey', hqueue] at hslot
      obtain ⟨rfl, -⟩ := hslot.settle_alone hkind
      rw [hkey, ← hkey', hqueue] at hi
      cases mem_singleton.mp hi
      have hno : isSettle i.kind = false := by
        cases hk : i.kind <;> rw [hk] at hinew <;> first | rfl | cases hinew
      rw [hno] at hkind
      cases hkind
    · rcases hcause with hlt | rfl
      · omega
      · rw [(hc.counted.idle hrest.1).1 k] at hi
        cases hi
  · rw [howner] at hown'
    cases hown'
    exact Nat.lt_irrefl _ (hold _ hp)

/-- A process without writes has told nobody. -/
theorem Untold.of_idle (htold : told s = []) (hidle : ∀ k, s.eng.queues k = []) : Untold s := by
  refine ⟨?_, ?_⟩
  · rw [htold]
    simp
  · intro k j hj
    rw [hidle k] at hj
    cases hj

/-- INTERNAL: **Through a run** nobody is told whose first Put is before them. -/
theorem Untold.run {cfg : Config} {max : ℕ} (hmax : 0 < max)
    (h : Reach Sys.step (AtRest on) (· = Sys.init cfg max) s) : Session on s ∧ Untold s := by
  refine h.invariant (fun s => Session on s ∧ Untold s) ?_ ?_
  · rintro s rfl
    exact ⟨(Session.init cfg hmax).mono fun _ => trivial, .of_idle rfl fun _ => rfl⟩
  · rintro s a t ⟨hs, hu⟩ ha hstep
    have ht := hs.step ha hstep
    refine ⟨ht, ?_⟩
    by_cases hre : a = .restart
    · subst hre
      cases (stepped hstep).2
      rename_i hfresh
      obtain ⟨who, hk⟩ := hs.known
      obtain ⟨hr, heq⟩ := fresh_rebuilt hs.core.max_pos hk.loadable hfresh
      obtain ⟨e, he, rfl⟩ := Option.map_eq_some_iff.mp hfresh
      refine .of_idle ?_ fun k => congrFun hr.jobs.1 k
      have hdropped := (restoreLocked_keeps he).1
      have hdropped : e.dropped = [] := hdropped
      unfold told
      simp [hdropped, discardCalls]
    · exact hu.step hs (hs.trace ha hre hstep) ha

/-! ### A flow that owns nothing -/

/-- The flow at `p` is in none of the tables and lists, has no write, and no call is due to it. -/
structure Gone (s : Sys) (p : OutPtr) : Prop where
  old : p < s.eng.nextOut
  foreign : Foreign s.eng s.held s.reserved p
  quiet : p ∉ told s

/-- It stays so. -/
theorem Gone.step (h : Gone s p) (hs : Session on s) (ha : AtRest on s a) (hre : a ≠ .restart)
    (hstep : s.step a = some t) :
    Gone t p ∧ ∀ x ∈ t.ran, x ∈ s.ran ∨ x.1.dir = .inbound ∨ x.2.owner ≠ .out p := by
  have htrace := hs.trace ha hre hstep
  refine ⟨⟨h.old.trans_le htrace.size, htrace.foreign p h.old h.foreign, ?_⟩, ?_⟩
  · intro hp
    rcases htrace.told p hp with hp | ⟨k, j, rest, -, hqueue, howner, hkind⟩ | ⟨-, hlisted⟩
    · exact h.quiet hp
    · have hmem := head_mem hqueue
      have hkey := (hs.core.owner_lt hmem (isOutbound_of_isSettle hkind) howner).2
      exact h.foreign.no_write (hkey ▸ hmem) howner
    · exact h.foreign.unlisted hlisted
  · intro x hx
    rcases htrace.ran x hx with hx | ⟨j, rest, hqueue, howner⟩
    · exact .inl hx
    · rcases Owners.key_cases x.1 with hk | hk
      · refine Or.inr (.inr ?_)
        rw [howner]
        have hmem : j ∈ s.eng.queues (outKey x.1.packetID) := by
          rw [← hk, hqueue]
          exact mem_cons_self
        exact h.foreign.no_write hmem
      · rw [hk]
        exact .inr (.inl rfl)

/-- A flow that is gone is in no table, on no list, and has no write. -/
theorem Gone.nowhere (h : Gone s p) (hc : Core on s) :
    (∀ id, s.eng.out.get id ≠ some p) ∧ p ∉ s.eng.pub ∧ p ∉ s.eng.rel ∧
    (∀ r, s.eng.refs.get r ≠ some p) ∧ (∀ r, s.eng.orphans.get r ≠ some p) ∧
    (∀ id, ∀ j ∈ s.eng.queues (outKey id), j.owner ≠ .out p) ∧ ∀ f, (p, f) ∉ s.calls := by
  have hno := h.foreign.unlisted
  have hlist : p ∉ s.eng.pub ++ s.eng.rel := fun hp => hno (hc.listed (.inl hp))
  refine ⟨fun id hid => hno (.inl ⟨id, hid⟩), fun hp => hlist (mem_append_left _ hp),
    fun hp => hlist (mem_append_right _ hp), ?_, fun r hr => hno (.inr ⟨r, hr⟩),
    fun id j hj => h.foreign.no_write hj, ?_⟩
  · intro r hr
    have hlive := (hc.ordered.refs r p hr).1
    exact hno (.inl ⟨_, (hc.ordered.get _ p).mpr ⟨hlive, rfl⟩⟩)
  · intro f hf
    refine h.quiet ?_
    unfold told
    exact mem_append_left _ (mem_append_left _ (mem_map_of_mem hf))

/-! ### The store -/

/-- Only a store write takes a record away, and a reset. -/
theorem records_eq (hstep : s.step a = some t) (hdo : ∀ k err applied, a ≠ .doStore k err applied)
    (hreset : ∀ err, a ≠ .discardReset err) : t.store.records = s.store.records := by
  cases (stepped hstep).2 with
  | ranAlone k err applied | ranStore k err applied => exact absurd rfl (hdo k err applied)
  | resetAlone | reset | resetFailed => exact absurd rfl (hreset _)
  | setMetaStore err applied m =>
    show (if err = none ∨ applied = true then s.store.setMeta m else s.store).records = _
    split
    · rfl
    · rfl
  | restart t ht =>
    obtain ⟨e, -, rfl⟩ := Option.map_eq_some_iff.mp ht
    rfl
  | _ => rfl

/-- The writes that ran are remembered. -/
theorem ran_mono (hstep : s.step a = some t) (hre : a ≠ .restart) : ∀ x ∈ s.ran, x ∈ t.ran := by
  cases (stepped hstep).2 with
  | settleFailed | ranAlone | ranStore => exact fun x hx => mem_append_left _ hx
  | restart => exact absurd rfl hre
  | _ => exact fun x hx => hx

theorem cfg_flowRule (c : Config) : FlowRule fun e => e.cfg = c := by
  refine ⟨fun e e' h hq => hq.cfg.trans h, ?_, ?_⟩
  · intro e d p id h hf hl hd
    have hstat := same_cfg (Acts.retireLocked d p).statics
    exact hstat.trans ((same_cfg hd.touches.statics).trans h)
  · intro e d p id h hf hl hd
    have hstat := same_cfg (Acts.putOutLocked d p).statics
    exact hstat.trans ((same_cfg hd.touches.statics).trans h)

/-- No step changes the configuration. -/
theorem Session.cfg_eq (h : Session on s) (ha : AtRest on s a) (hstep : s.step a = some t) :
    t.eng.cfg = s.eng.cfg := by
  have hc := h.core
  obtain ⟨who, hk⟩ := h.known
  have hfail : ∀ (e : Engine) err, (failLocked e err).cfg = e.cfg :=
    fun e err => (failLocked_frame e err).2.1
  by_cases hrestore : a = .restore
  · subst hrestore
    cases (stepped hstep).2 with
    | restored m recs e hloaded he =>
      exact (hc.restored ha.1 (hk.loaded m recs hloaded).1 he).frame.2.2.1
    | notRestored => rfl
  by_cases hdiscard : a = .discardLocked
  · subst hdiscard
    cases (stepped hstep).2
    exact same_cfg (hc.discarded ha.1).1.statics
  by_cases hrestart : a = .restart
  · subst hrestart
    cases (stepped hstep).2
    rename_i hfresh
    exact (fresh_rebuilt hc.max_pos hk.loadable hfresh).1.frame.2.2.1
  cases hc.change ⟨hrestore, hdiscard, hrestart⟩ hstep with
  | flows heng hrest => exact heng _ (cfg_flowRule s.eng.cfg).pubRule rfl
  | pubrec => exact same_cfg (statics_handlePubrec s.eng _ _ _)
  | table hmax => rfl
  | register hheld => exact same_cfg (statics_register s.eng _ _)
  | adopt => exact same_cfg (Acts.adopt s.eng _ _).statics
  | callSettle hq | settleReturn hq hst | doStore hq hat hst =>
    exact same_cfg (statics_setStage s.eng _ _)
  | finish hq hstage =>
    rename_i k j rest res
    have hafter := same_cfg (Acts.afterJob s.eng j res).statics
    show (finishJob s.eng k j res).cfg = s.eng.cfg
    rcases Core.finishJob_cases s.eng k j res with ⟨-, ⟨-, heq⟩ | ⟨err, -, heq⟩⟩ | ⟨-, heq⟩
    · rw [heq]
      exact hafter
    · rw [heq, hfail]
      exact hafter
    · rw [heq]
      rfl
  | aside heng hstore hrest => rw [heng]
  | failed => exact hfail _ _
  | load => rfl

end Mqttv5.Analysis
