import Mqttv5.Guarantees.Settling

/-!
# A Discard leaves nothing behind

`Discard` drains the writes, resets the store, ends the flows under the mutex and calls their
Settles. When no write comes in between, the flows it ends have no record and no write left, in
that state and in every later one, and no Settle is called twice. A flow registered between the
reset and the locked section keeps its record.
-/

set_option autoImplicit false

namespace Mqttv5.Guarantees

open Mqttv5.Computation Model Program Interface Analysis FiniteMap

variable {on : Prop} {s t : Sys} {a : Event}

/-- A fair step, and no store write between the reset and the locked section of a `Discard`. -/
def Calm (s : Sys) (a : Event) : Prop :=
  Fair s a ∧ ∀ k err applied, a = .doStore k err applied → s.discarding ≠ some .wiped

/-- The store is empty from its reset to the locked section, if there is one. -/
def Wiped (s : Sys) : Prop :=
  s.discarding = some .wiped → s.eng.cfg.store = true → ∀ k, s.store.records.get k = none

/-- INTERNAL: A step that wipes the store is the reset. -/
theorem wiped_cases (hstep : s.step a = some t)
    (ht : t.discarding = some .wiped) : s.discarding = some .wiped ∨ ∃ err,
      a = .discardReset err := by
  cases (stepped hstep).2 with
  | discard | discardLocked | discardCall | discardDone => cases ht
  | resetAlone err | reset | resetFailed => exact .inr ⟨_, rfl⟩
  | restart t hfresh =>
    obtain ⟨e, -, rfl⟩ := Option.map_eq_some_iff.mp hfresh
    cases ht
  | _ => exact .inl ht

/-- INTERNAL: It stays empty when no write comes in between. -/
theorem Wiped.step (h : Wiped s) (hs : Session on s)
    (hrest : AtRest on s a) (ha : ∀ k err applied, a = .doStore k err applied →
      s.discarding ≠ some .wiped) (hstep : s.step a = some t) : Wiped t := by
  intro ht hstore k
  have hcfg := hs.cfg_eq hrest hstep
  rw [hcfg] at hstore
  by_cases hreset : ∃ err, a = .discardReset err
  · obtain ⟨err, rfl⟩ := hreset
    cases (stepped hstep).2 with
    | resetAlone _ _ hno => exact absurd hstore hno
    | reset => exact get_empty k
    | resetFailed => cases ht
  · rcases wiped_cases hstep ht with hwiped | hcon
    · rw [records_eq hstep (fun k err applied heq => ha k err applied heq hwiped)
        (fun err heq => hreset ⟨err, heq⟩)]
      exact h hwiped hstore k
    · exact absurd hcon hreset

/-- Every record of the store was put there by a write that ran, and none by the flow at `p`. -/
def PutByOthers (s : Sys) (p : OutPtr) : Prop :=
  ∀ k rec, s.store.records.get k = some rec →
    ∃ w ∈ s.ran, w.1 = k ∧ putOf w.2.kind = some rec ∧ (k.dir = .inbound ∨ w.2.owner ≠ .out p)

/-- INTERNAL: A record is put by the write that names it. -/
theorem storeEffect_some {st : MemoryStore} {k k' : RecordKey} {kind : JobKind} {rec : Record}
    (hkey : ∀ r, putOf kind = some r → r.key = k)
    (h : (Sys.storeEffect k kind st).records.get k' = some rec) :
    st.records.get k' = some rec ∨ k' = k ∧ putOf kind = some rec := by
  cases kind with
  | putNew r | putOut r | putIn r =>
    have h : (st.records.set r.key r).get k' = some rec := h
    rw [get_set] at h
    split at h
    · rename_i hk
      cases h
      exact .inr ⟨hk.trans (hkey _ rfl), rfl⟩
    · exact .inl h
  | settle f o ref | deleteIn =>
    have h : (st.records.del k).get k' = some rec := h
    rw [get_del] at h
    split at h
    · cases h
    · exact .inl h

/-- INTERNAL: A flow without writes puts no record. -/
theorem PutByOthers.step {p : OutPtr} (h : PutByOthers s p)
    (hs : Session on s) (hp : Foreign s.eng s.held s.reserved p) (hre : a ≠ .restart)
    (hstep : s.step a = some t) : PutByOthers t p := by
  have hc := hs.core
  have hmono := ran_mono hstep hre
  have hkept : ∀ k rec, s.store.records.get k = some rec → ∃ w ∈ t.ran, w.1 = k ∧
      putOf w.2.kind = some rec ∧ (k.dir = .inbound ∨ w.2.owner ≠ .out p) := by
    intro k rec hrec
    obtain ⟨w, hw, hrest⟩ := h k rec hrec
    exact ⟨w, hmono w hw, hrest⟩
  intro k rec hrec
  by_cases hreset : ∃ err, a = .discardReset err
  · obtain ⟨err, rfl⟩ := hreset
    cases (stepped hstep).2 with
    | reset =>
      have hrec : (∅ : FiniteMap RecordKey Record).get k = some rec := hrec
      rw [get_empty] at hrec
      cases hrec
    | _ => exact hkept k rec hrec
  by_cases hdo : ∃ k' err applied, a = .doStore k' err applied
  · obtain ⟨k', err, applied, rfl⟩ := hdo
    cases (stepped hstep).2 with
    | ranAlone => exact hkept k rec hrec
    | ranStore _ _ _ j rest hq =>
      have hmem := head_mem hq
      have hrec : (if err = none ∨ applied = true then Sys.storeEffect k' j.kind s.store
          else s.store).records.get k = some rec := hrec
      split at hrec
      · rcases storeEffect_some (hc.jobs.key k' j hmem) hrec with hrec | ⟨rfl, hput⟩
        · exact hkept k rec hrec
        · refine ⟨_, List.mem_append_right _ (List.mem_singleton.mpr rfl), rfl, hput, ?_⟩
          rcases Owners.key_cases k with hk | hk
          · have hmem : j ∈ s.eng.queues (outKey k.packetID) := hk ▸ hmem
            have hno : j.owner ≠ .out p := hp.no_write hmem
            exact .inr hno
          · rw [hk]
            exact .inl rfl
      · exact hkept k rec hrec
  · rw [records_eq hstep (fun k err applied heq => hdo ⟨k, err, applied, heq⟩)
      (fun err heq => hreset ⟨err, heq⟩)] at hrec
    exact hkept k rec hrec

/-- **A Discard leaves nothing behind.** In every run of fair steps in which no store write runs
between the reset of the store and the locked section of a `Discard`, and none is in progress when
that begins: no Settle is called more often than it was given; after the locked section the store
is empty; and from then on, in the same process, no write belongs to a flow that was ended, it is
in no table, and no record of the store was put by it.
SOURCE: engine.go:596-646, outbound.go:92-218, writes.go:85-183 -/
theorem discard_leaves_nothing {cfg : Config} {max : ℕ} (hmax : 0 < max) {x : Sys × Ledger}
    (h : Reach watch (fun x a => Calm x.1 a) (· = (Sys.init cfg max, {})) x) :
    (∀ f, (x.1.calls.map Prod.snd).count f ≤ (x.2.given.map Prod.snd).count f) ∧
    ∀ t, Calm x.1 .discardLocked → x.1.step .discardLocked = some t →
      (t.eng.cfg.store = true → ∀ k, t.store.records.get k = none) ∧
      ∀ p, Listed x.1.eng p →
        ∀ u, Reach Sys.step (fun s a => AtRest False s a ∧ a ≠ .restart) (· = t) u →
          (∀ id, ∀ j ∈ u.eng.queues (outKey id), j.owner ≠ .out p) ∧ ¬ Listed u.eng p ∧
          (t.eng.cfg.store = true → PutByOthers u p) := by
  have hinv := h.invariant (fun x => Booked x ∧ Wiped x.1) ?_ ?_
  · obtain ⟨hb, hwiped⟩ := hinv
    have hc := hb.core
    refine ⟨?_, ?_⟩
    · refine count_snd_le fun p f => ?_
      have hsum := hb.accounts.sum p f
      unfold made at hsum
      rw [List.count_append] at hsum
      omega
    · intro t hcalm hstep
      have hw : x.1.eng.writes = 0 := hcalm.1
      have hrest : AtRest False x.1 .discardLocked := ⟨hw, fun hcon => hcon.elim⟩
      have ht := hb.session.step hrest hstep
      have htrace := hc.trace_discard hw hstep
      have hcfg := hb.session.cfg_eq hrest hstep
      have hcond : x.1.discarding = some .wiped := by
        cases (stepped hstep).2
        assumption
      have hstore : t.eng.cfg.store = true → ∀ k, t.store.records.get k = none := by
        intro hst k
        rw [records_eq hstep (by simp) (by simp)]
        exact hwiped hcond (hcfg ▸ hst) k
      refine ⟨hstore, ?_⟩
      intro p hlisted u hreach
      have hlt := hc.listed_lt hlisted
      have hforeign : Foreign t.eng t.held t.reserved p := by
        obtain ⟨hd, ⟨own, hown⟩, horph, -⟩ := hc.discarded hw
        have hidle := (hc.counted.idle hw).1
        cases (stepped hstep).2
        refine .of_unlisted hown ?_ fun id _ => (congrFun hd.jobs.1 _).trans (hidle _)
        rintro (⟨id, hid⟩ | ⟨r, hr⟩)
        · have hmem := (hd.ordered.mem p).mpr (hd.ordered.live_of_get hid)
          simp [SendQueue.listed, hd.drained.1, hd.drained.2] at hmem
        · rw [horph r] at hr
          cases hr
      have hrun := hreach.invariant (fun u => Session False u ∧ p < u.eng.nextOut ∧
        Foreign u.eng u.held u.reserved p ∧ (t.eng.cfg.store = true → PutByOthers u p)) ?_ ?_
      · obtain ⟨-, -, hfor, hput⟩ := hrun
        exact ⟨fun id j hj => hfor.no_write hj, hfor.unlisted, hput⟩
      · rintro u rfl
        refine ⟨ht, hlt.trans_le htrace.size, hforeign, ?_⟩
        intro hst k rec hrec
        rw [hstore hst k] at hrec
        cases hrec
      · rintro u a v ⟨hus, hup, hfor, hput⟩ ⟨ha, hre⟩ hstep'
        have huv := hus.trace ha hre hstep'
        exact ⟨hus.step ha hstep', hup.trans_le huv.size, huv.foreign p hup hfor,
          fun hst => (hput hst).step hus hfor hre hstep'⟩
  · rintro x rfl
    exact ⟨Booked.init cfg hmax, fun hcon => by cases hcon⟩
  · rintro x a y ⟨hb, hwiped⟩ ha hstep
    refine ⟨(hb.step ha.1 hstep).1, ?_⟩
    obtain ⟨t, hst, rfl⟩ := Option.map_eq_some_iff.mp hstep
    exact hwiped.step hb.session (atRest_of_fair ha.1) ha.2 hst

/-- A (decidable) case of calm steps. -/
def plainCalm (s : Sys) : Event → Bool
  | .doStore _ _ _ => s.discarding ≠ some .wiped
  | .discard | .discardReset _ | .discardCall => true
  | .discardLocked => s.eng.writes = 0
  | a => plainCare s a

/-- INTERNAL: They are calm. -/
theorem calm_of_plainCalm (h : plainCalm s a = true) : Calm s a := by
  cases a with
  | doStore k err applied =>
    refine ⟨trivial, ?_⟩
    intro _ _ _ _
    simpa [plainCalm] using h
  | discard | discardReset | discardCall => exact ⟨trivial, by simp⟩
  | discardLocked =>
    simp only [plainCalm, decide_eq_true_eq] at h
    exact ⟨h, by simp⟩
  | _ =>
    refine ⟨And.left (careful_of_plainCare ?_), by simp⟩
    exact h

/-- A message is registered and stored, and the session discarded up to the locked section. -/
def discardOne : List Event :=
  [.reserve, .take .publish,
    .register { id := 1, qos := 1, packet := [0x32, 0], ref := [7], settle := some 5 } 0,
    .doStore (outKey 1) none false, .finish (outKey 1), .report, .discard, .discardReset none]

/-- The locked section of `discardOne` leaves the store empty and no write of the flow. -/
theorem discard_leaves_nothing_one :
    ∃ x t, execute watch (Sys.init { store := true } 3, {}) discardOne = some x ∧
      x.1.eng.out.get 1 = some 0 ∧ x.1.step .discardLocked = some t ∧
      (∀ k, t.store.records.get k = none) ∧ ¬ Listed t.eng 0 := by
  obtain ⟨x, hx, hP⟩ := exists_of_execute
    (show (execute watch (Sys.init { store := true } 3, {}) discardOne).any
      (fun x => x.1.eng.out.get 1 = some 0 ∧ x.1.eng.writes = 0 ∧
        (x.1.step .discardLocked).any (fun t => t.eng.cfg.store) = true) = true by decide)
  simp only [decide_eq_true_eq] at hP
  obtain ⟨hout, hw, hany⟩ := hP
  have hreach : Reach watch (fun x a => Calm x.1 a) (· = (Sys.init { store := true } 3, {})) x :=
    Reach.of_execute (fun _ _ h => calm_of_plainCalm h) (.start rfl)
      (show meets watch (fun x a => plainCalm x.1 a) _ discardOne = true by decide) hx
  cases ht : x.1.step .discardLocked with
  | none =>
    rw [ht] at hany
    cases hany
  | some t =>
    rw [ht] at hany
    obtain ⟨hstore, hgone⟩ :=
      (discard_leaves_nothing (by decide) hreach).2 t ⟨hw, by simp⟩ ht
    exact ⟨x, t, hx, hout, ht, hstore hany, (hgone 0 (.inl ⟨1, hout⟩) t (.start rfl)).2.1⟩

/-- A message is registered and stored between the reset of the store and the locked section. -/
def registerInDiscard : List Event :=
  [.discard, .discardReset none, .reserve, .take .publish,
    .register { id := 1, qos := 1, packet := [0x32, 0] } 0, .doStore (outKey 1) none false,
    .discardLocked, .finish (outKey 1), .report, .discardCall]

/-- `Discard` has returned, the flow it ended with the loss of the session has no write left, and
its record is in the store. -/
theorem discard_leaves_record :
    ∃ s, execute Sys.step (Sys.init { store := true } 65535) registerInDiscard = some s ∧
      s.discarding = none ∧ (s.eng.outs 0).err = some .sessionLost ∧ s.eng.queues (outKey 1) = [] ∧
      s.store.records.get (outKey 1) ≠ none := by
  obtain ⟨s, hs, hP⟩ := exists_of_execute
    (show (execute Sys.step (Sys.init { store := true } 65535) registerInDiscard).any
      (fun s => s.discarding = none ∧ (s.eng.outs 0).err = some .sessionLost ∧
        s.eng.queues (outKey 1) = [] ∧ s.store.records.get (outKey 1) ≠ none) = true by decide)
  simp only [decide_eq_true_eq] at hP
  exact ⟨s, hs, hP⟩

end Mqttv5.Guarantees
