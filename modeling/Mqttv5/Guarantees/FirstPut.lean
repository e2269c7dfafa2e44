import Mqttv5.Analysis.Ledger

/-!
# A failed first Put leaves no trace

Register queues the first Put of a flow and goes on; whatever happens to the flow before that Put
has run is taken back when it fails. The flow is then nowhere in the engine, in that state and in
every later one, and the other flows are as they were.
-/

set_option autoImplicit false

namespace Mqttv5.Guarantees

open Mqttv5.Computation Model Program Interface Analysis FiniteMap

/-- The flow at `p` is in none of the tables and lists, has no write, and its Settle was not
called. -/
def Nowhere (s : Sys) (p : OutPtr) : Prop :=
  (∀ id, s.eng.out.get id ≠ some p) ∧ p ∉ s.eng.pub ∧ p ∉ s.eng.rel ∧
  (∀ r, s.eng.refs.get r ≠ some p) ∧ (∀ r, s.eng.orphans.get r ≠ some p) ∧
  (∀ id, ∀ j ∈ s.eng.queues (outKey id), j.owner ≠ .out p) ∧ ∀ f, (p, f) ∉ s.calls

/-- The engines `e` and `e'` differ in the flow at `p`, which had identifier `id`, in what its Ref
`ref` finds, and in its writes. Every other flow is the same and in the same tables and lists, and
its writes are queued as they were. -/
structure OnlyFlow (e e' : Engine) (p : OutPtr) (id : PacketID) (ref : Bytes) : Prop where
  outs : ∀ q, q ≠ p → e'.outs q = e.outs q
  out : ∀ i q, q ≠ p → (e'.out.get i = some q ↔ e.out.get i = some q)
  lists : e'.pub = e.pub.erase p ∧ e'.rel = e.rel.erase p
  refs : ∀ r, r ≠ ref → e'.refs.get r = e.refs.get r
  orphans : ∀ r q, q ≠ p → (e'.orphans.get r = some q ↔ e.orphans.get r = some q)
  queues : ∀ k, (e'.queues k).filter (fun j => j.owner ≠ .out p) =
    (e.queues k).filter fun j => j.owner ≠ .out p
  inbound : e'.inn = e.inn ∧ e'.ins = e.ins ∧ e'.fifo = e.fifo ∧ e'.ctrl = e.ctrl
  owner : ∀ i, i ≠ id → e'.ids.owner i = e.ids.owner i

/-- INTERNAL: What `dropNew` leaves alone. -/
theorem dropNew_fields (e : Engine) (p : OutPtr) (err : ℕ) :
    (dropNew e p err).out = e.out.del (e.outs p).id ∧
    (dropNew e p err).pub = e.pub.erase p ∧ (dropNew e p err).rel = e.rel.erase p ∧
    (dropNew e p err).inn = e.inn ∧ (dropNew e p err).ins = e.ins ∧
    (dropNew e p err).fifo = e.fifo ∧ (dropNew e p err).ctrl = e.ctrl := by
  obtain ⟨c, hc⟩ : ∃ c, cancelLocked
      { e with putErr := Function.update e.putErr p (some ⟨"put outbound", err⟩) }
      (outKey (e.outs p).id) (.out p) = c := ⟨_, rfl⟩
  have hsame : c.out = e.out ∧ c.pub = e.pub ∧ c.rel = e.rel ∧ c.inn = e.inn ∧ c.ins = e.ins ∧
      c.fifo = e.fifo ∧ c.ctrl = e.ctrl := by
    rw [← hc]
    unfold cancelLocked
    cases e.queues (outKey (e.outs p).id) <;> simp
  obtain ⟨hout, hpub, hrel, hinn, hins, hfifo, hctrl⟩ := hsame
  have hfree : ∀ (d : Engine) i o, (releaseLocked d i o).out = d.out ∧
      (releaseLocked d i o).pub = d.pub ∧ (releaseLocked d i o).rel = d.rel ∧
      (releaseLocked d i o).inn = d.inn ∧ (releaseLocked d i o).ins = d.ins ∧
      (releaseLocked d i o).fifo = d.fifo ∧ (releaseLocked d i o).ctrl = d.ctrl := by
    intro d i o
    obtain ⟨ids, stuck, heq⟩ := releaseLocked_eq d i o
    rw [heq]
    exact ⟨rfl, rfl, rfl, rfl, rfl, rfl, rfl⟩
  unfold dropNew
  simp only [hc, hfree]
  split <;> simp [setOut, unlinkLocked, hout, hpub, hrel, hinn, hins, hfifo, hctrl]

/-- INTERNAL: The end of a failed first Put. -/
theorem dropNew_onlyFlow {e : Engine} {held : List (PacketID × Owner)} {reserved : ℕ}
    {own : PacketID → Option OutPtr} {p : OutPtr} {id : PacketID}
    (hown : Owners e held reserved own) (hp : own id = some p) (hf : e.failure = none) {j : Job}
    {rest : List Job} (hq : e.queues (outKey id) = j :: rest) (err : ℕ) :
    OnlyFlow e (popJob (dropNew e p err) (outKey id)) p id (e.outs p).ref ∧
    (popJob (dropNew e p err) (outKey id)).ids.owner id = .none ∧
    (popJob (dropNew e p err) (outKey id)).putErr p = some ⟨"put outbound", err⟩ := by
  have hid := (hown.ptr id p hp).2
  obtain ⟨d, heq, ht, -, -, horph, -, hputErr⟩ := dropNew_eq e p err
  obtain ⟨hout, hpub, hrel, hinn, hins, hfifo, hctrl⟩ := dropNew_fields e p err
  have hrefs := dropNew_refs e p err
  rw [hid] at heq ht hout
  have howner : d.ids.owner id = .publish := by rw [ht.ids]; exact hown.owner id p hp
  obtain ⟨-, -, htable⟩ := balanced_release (ht.ids ▸ hown.table) howner (by simp)
  obtain ⟨ids, stuck, hfree⟩ := releaseLocked_eq d id .publish
  have hids : (dropNew e p err).ids.owner = Function.update e.ids.owner id .none := by
    rw [heq, htable, ht.ids]
  have houts : (dropNew e p err).outs = d.outs ∧ (dropNew e p err).orphans = d.orphans ∧
      (dropNew e p err).queues = d.queues ∧ (dropNew e p err).putErr = d.putErr := by
    rw [heq, hfree]
    exact ⟨rfl, rfl, rfl, rfl⟩
  refine ⟨⟨?_, ?_, ⟨hpub, hrel⟩, ?_, ?_, ?_, ⟨hinn, hins, hfifo, hctrl⟩, ?_⟩, ?_, ?_⟩
  · intro q hq
    show (dropNew e p err).outs q = _
    rw [houts.1]
    exact ht.outs q hq
  · intro i q hqp
    show (dropNew e p err).out.get i = some q ↔ _
    rw [hout, get_del]
    split
    · -- The identifier is the flow's own, so no other flow is under it.
      rename_i hi
      refine ⟨fun hcon => (by cases hcon), fun hget => ?_⟩
      have hlive := hown.live i q hget
      rw [hi, hp] at hlive
      exact absurd (Option.some.inj hlive).symm hqp
    · exact Iff.rfl
  · intro r hr
    show (dropNew e p err).refs.get r = _
    rw [hrefs]
    split
    · rw [get_del, if_neg hr]
    · rfl
  · intro r q hqp
    show (dropNew e p err).orphans.get r = some q ↔ _
    rw [houts.2.1, horph]
    split
    · rename_i hcond
      rw [get_del]
      split
      · rename_i hr
        rw [hr, hcond.2]
        constructor
        · intro hcon
          cases hcon
        · intro hcon
          exact absurd (Option.some.inj hcon).symm hqp
      · exact Iff.rfl
    · exact Iff.rfl
  · intro k
    by_cases hk : k = outKey id
    · -- All writes of the record are the flow's, and none of them is left.
      have hempty : (popJob (dropNew e p err) (outKey id)).queues (outKey id) = [] :=
        (hown.dropNew hp hf hq err).empty id (Function.update_self ..)
      rw [hk, hempty]
      refine (List.filter_eq_nil_iff.mpr fun i hi => ?_).symm
      simp [hown.jobs id p hp i hi]
    · simp only [popJob, Function.update_of_ne hk]
      rw [houts.2.2.1, ht.queues k hk]
  · intro i hi
    show (dropNew e p err).ids.owner i = _
    rw [hids, Function.update_of_ne hi]
  · show (dropNew e p err).ids.owner id = _
    rw [hids, Function.update_self]
  · show (dropNew e p err).putErr p = _
    rw [houts.2.2.2, hputErr, Function.update_self]

/-- INTERNAL: What every Ref but the failed flow's finds stays, and where no two flows are found
under one Ref nothing else was under the flow's. -/
theorem dropNew_refs_others {e : Engine} {held : List (PacketID × Owner)} {reserved : ℕ}
    {own : PacketID → Option OutPtr} {p : OutPtr} {id : PacketID} (hfind : Findable e)
    (hown : Owners e held reserved own) (hp : own id = some p) (ho : (sendQueue e).Ordered [])
    {j : Job} {rest : List Job} (hq : e.queues (outKey id) = j :: rest) (err : ℕ) {r : Bytes}
    {q : OutPtr} (hqp : q ≠ p) :
    (dropNew e p err).refs.get r = some q ↔ e.refs.get r = some q := by
  rw [dropNew_refs]
  split
  · rw [get_del]
    split
    · rename_i hr
      refine ⟨fun hcon => (by cases hcon), fun hget => ?_⟩
      rw [hr] at hget
      exact absurd (hfind.alone hown hp ho hq hget) hqp
    · exact Iff.rfl
  · exact Iff.rfl

/-- INTERNAL: In a fair run every flow with a Ref is found under it, and no other is. -/
theorem findable_run {cfg : Config} {max : ℕ} (hmax : 0 < max) {s : Sys}
    (h : Reach Sys.step Fair (· = Sys.init cfg max) s) (hf : s.eng.failure = none) :
    Findable s.eng := by
  obtain ⟨l, hl⟩ : ∃ l, Booked (s, l) := by
    refine h.invariant (fun s => ∃ l, Booked (s, l)) ?_ ?_
    · rintro s rfl
      exact ⟨{}, .init cfg hmax⟩
    · rintro s a t ⟨l, hl⟩ ha hstep
      have hwatch : watch (s, l) a = some (t, book l s a) := by
        unfold watch
        rw [hstep]
        rfl
      exact ⟨_, (hl.step ha hwatch).1⟩
  exact hl.find hf

/-- **A failed first Put leaves no trace.** In every run in which Restore and Discard find nothing
in progress, when the first Put of a flow has failed in a session that has not: its completion
leaves the flow nowhere, and nowhere in every later state of the process, where no write of it
runs; its identifier is free; the other flows and their writes are as they were; and Register
returns the store's error to its caller in a session that goes on. What is found under the flow's
Ref belongs to no other flow when the run is fair, so that Register names no Ref that is found.
SOURCE: outbound.go:92-172, writes.go:85-183 -/
theorem failed_first_put_no_trace {cfg : Config} {max : ℕ} (hmax : 0 < max) {s : Sys}
    (h : Reach Sys.step (AtRest False) (· = Sys.init cfg max) s) (hf : s.eng.failure = none)
    {k : RecordKey} {j : Job} {rest : List Job} {r : Record} {p : OutPtr} {err : ℕ}
    (hq : s.eng.queues k = j :: rest) (hkind : j.kind = .putNew r) (howner : j.owner = .out p)
    (hstage : j.stage = .ran (some (.store err))) :
    ∃ t, s.step (.finish k) = some t ∧ Nowhere t p ∧
      OnlyFlow s.eng t.eng p (s.eng.outs p).id (s.eng.outs p).ref ∧
      (Reach Sys.step Fair (· = Sys.init cfg max) s →
        ∀ r q, q ≠ p → (t.eng.refs.get r = some q ↔ s.eng.refs.get r = some q)) ∧
      t.eng.ids.owner (s.eng.outs p).id = .none ∧ t.eng.failure = none ∧
      (∀ epoch, registerReturn t.eng p epoch = .error ⟨"put outbound", err⟩) ∧
      ∀ u, Reach Sys.step (fun s a => AtRest False s a ∧ a ≠ .restart) (· = t) u →
        Nowhere u p ∧ ∀ x ∈ u.ran, x ∈ t.ran ∨ x.1.dir = .inbound ∨ x.2.owner ≠ .out p := by
  obtain ⟨hs, hu⟩ := Untold.run hmax h
  have hc := hs.core
  obtain ⟨own, hown⟩ := hc.owners
  have hmem := head_mem hq
  have hep := hc.jobs.current hf k j hmem
  obtain ⟨hlt, hkey⟩ := hc.owner_lt hmem (by rw [hkind]; rfl) howner
  obtain ⟨q, hp, hqowner⟩ := hown.queue_owned (hkey ▸ hq)
  rw [howner] at hqowner
  cases hqowner
  have hstep : s.step (.finish k) = some { s with
      eng := popJob (dropNew s.eng p err) k, reporting := s.reporting + 1 } := by
    rcases j with ⟨kind, owner, epoch, stage⟩
    simp only at hkind howner hstage hep
    subst hkind howner hstage hep
    unfold Sys.step
    rw [if_neg (by simp [hc.running])]
    simp only [hq]
    unfold finishJob
    simp [afterJob]
  refine ⟨_, hstep, ?_⟩
  generalize ht : ({ s with eng := popJob (dropNew s.eng p err) k, reporting := s.reporting + 1 } :
    Sys) = t at hstep ⊢
  have heng : t.eng = popJob (dropNew s.eng p err) (outKey (s.eng.outs p).id) := by
    rw [← ht, ← hkey]
  have hst := hs.step (a := .finish k) trivial hstep
  have hgone : Gone t p := by
    have htrace := hs.trace (a := .finish k) trivial (by simp) hstep
    refine ⟨hlt.trans_le htrace.size, ?_, ?_⟩
    · have hdrop := hown.dropNew hp hf (hkey ▸ hq) err
      rw [← heng] at hdrop
      rw [show t.held = s.held by rw [← ht], show t.reserved = s.reserved by rw [← ht]]
      refine ⟨_, hdrop, ?_⟩
      intro i hi
      by_cases hii : i = (s.eng.outs p).id
      · rw [hii, Function.update_self] at hi
        cases hi
      · rw [Function.update_of_ne hii] at hi
        exact hii (hown.ptr i p hi).2.symm
    · have hkeep : told t = told s := by
        unfold told
        rw [heng, ← ht]
        simp only [popJob, (Acts.dropNew s.eng p err).dropped]
      rw [hkeep]
      exact hu.fresh k j hmem (by rw [hkind]; rfl) hep p howner
  obtain ⟨honly, hfree, hputErr⟩ := dropNew_onlyFlow hown hp hf (hkey ▸ hq) err
  rw [← heng] at honly hfree hputErr
  refine ⟨hgone.nowhere hst.core, honly, ?_, hfree, ?_, ?_, ?_⟩
  · intro hfair r q hqp
    rw [heng]
    exact dropNew_refs_others (findable_run hmax hfair hf) hown hp hc.ordered (hkey ▸ hq) err hqp
  · have hstat := same_failure (Acts.dropNew s.eng p err).statics
    have hstat : (dropNew s.eng p err).failure = s.eng.failure := hstat
    rw [heng]
    exact hstat.trans hf
  · intro epoch
    unfold registerReturn
    rw [hputErr]
  · intro u hreach
    have hinv := hreach.invariant (fun u => Session False u ∧ Gone u p ∧
      ∀ x ∈ u.ran, x ∈ t.ran ∨ x.1.dir = .inbound ∨ x.2.owner ≠ .out p) ?_ ?_
    · exact ⟨hinv.2.1.nowhere hinv.1.core, hinv.2.2⟩
    · rintro u rfl
      exact ⟨hst, hgone, fun x hx => .inl hx⟩
    · rintro u a v ⟨hus, hug, hur⟩ ⟨ha, hre⟩ hstep'
      obtain ⟨hvg, hvr⟩ := hug.step hus ha hre hstep'
      refine ⟨hus.step ha hstep', hvg, ?_⟩
      intro x hx
      rcases hvr x hx with hx | hx
      · exact hur x hx
      · exact .inr hx

/-- The head of the queue is a first Put of the flow at `p` that has failed. -/
def putFailed (s : Sys) (k : RecordKey) (p : OutPtr) (err : ℕ) : Bool :=
  match s.eng.queues k with
  | ⟨.putNew _, .out q, _, .ran (some (.store c))⟩ :: _ => q = p ∧ c = err
  | _ => false

theorem putFailed_iff {s : Sys} {k : RecordKey} {p : OutPtr} {err : ℕ}
    (h : putFailed s k p err = true) : ∃ j rest r, s.eng.queues k = j :: rest ∧
      j.kind = .putNew r ∧ j.owner = .out p ∧ j.stage = .ran (some (.store err)) := by
  unfold putFailed at h
  split at h
  · rename_i r q ep c rest hq
    simp only [decide_eq_true_eq] at h
    obtain ⟨rfl, rfl⟩ := h
    exact ⟨_, rest, r, hq, rfl, rfl, rfl⟩
  · cases h

/-- Two messages are registered and the store refuses the first Put of the second. -/
def refuseOne : List Event :=
  [.reserve, .take .publish,
    .register { id := 1, qos := 1, packet := [0x32, 0], ref := [6], settle := some 4 } 0,
    .reserve, .take .publish,
    .register { id := 2, qos := 1, packet := [0x32, 0], ref := [7], settle := some 5 } 0,
    .doStore (outKey 2) (some 9) false]

/-- The steps of `refuseOne` are fair: no Ref is registered twice. -/
def plainPut (s : Sys) : Event → Bool
  | .register m _ => decide (adoptee s.eng m.ref = none)
  | .reserve | .take _ | .doStore _ _ _ => true
  | _ => false

theorem fair_of_plainPut (s : Sys) (a : Event) (h : plainPut s a = true) : Fair s a := by
  cases a with
  | register m now => exact fun _ => of_decide_eq_true h
  | reserve | take _ | doStore _ _ _ => trivial
  | _ => cases h

/-- The second flow of `refuseOne` is nowhere and its identifier free; the first is in its tables
with its write. -/
theorem failed_first_put_no_trace_one :
    ∃ s t, execute Sys.step (Sys.init { store := true } 3) refuseOne = some s ∧
      putFailed s (outKey 2) 1 9 = true ∧ s.step (.finish (outKey 2)) = some t ∧ Nowhere t 1 ∧
      t.eng.ids.owner (s.eng.outs 1).id = .none ∧ t.eng.out.get 1 = some 0 ∧
      t.eng.refs.get [6] = some 0 ∧ (t.eng.queues (outKey 1)).any (·.owner = .out 0) = true := by
  obtain ⟨s, hs, hP⟩ := exists_of_execute
    (show (execute Sys.step (Sys.init { store := true } 3) refuseOne).any
      (fun s => s.eng.failure = none ∧ putFailed s (outKey 2) 1 9 = true ∧
        s.eng.out.get 1 = some 0 ∧ s.eng.refs.get [6] = some 0 ∧
        ((s.eng.queues (outKey 1)).filter fun j => j.owner ≠ .out 1).any (·.owner = .out 0)) = true
      by decide)
  simp only [decide_eq_true_eq] at hP
  obtain ⟨hf, hput, hout, href, hwrite⟩ := hP
  have hreach : Reach Sys.step (AtRest False) (· = Sys.init { store := true } 3) s :=
    reach_of_execute (.start rfl) (by decide) hs
  have hfair : Reach Sys.step Fair (· = Sys.init { store := true } 3) s :=
    Reach.of_execute fair_of_plainPut (.start rfl)
      (show meets Sys.step plainPut _ refuseOne = true by decide) hs
  obtain ⟨j, rest, r, hq, hkind, howner, hstage⟩ := putFailed_iff hput
  obtain ⟨t, ht, hno, honly, hrefs, hfree, -⟩ :=
    failed_first_put_no_trace (by decide) hreach hf hq hkind howner hstage
  refine ⟨s, t, hs, hput, ht, hno, hfree, (honly.out 1 0 (by decide)).mpr hout,
    (hrefs hfair [6] 0 (by decide)).mpr href, ?_⟩
  rw [← honly.queues, List.any_filter] at hwrite
  simp only [List.any_eq_true, Bool.and_eq_true] at hwrite ⊢
  obtain ⟨i, hi, -, hiowner⟩ := hwrite
  exact ⟨i, hi, hiowner⟩

/-- A caller holds an identifier while the session fails and is restored; the next caller is given
the same one, both register, and the store refuses the first Put of the first. -/
def refuseFirst : List Event :=
  [.reserve, .take .publish, .setMeta { clientID := "x" }, .setMetaStore (some 1) false,
    .setMetaReturn, .load, .restore, .reserve, .take .publish,
    .register { id := 1, qos := 1, packet := [0x32, 0] } 0,
    .register { id := 1, qos := 1, packet := [0x32, 1] } 0,
    .doStore (outKey 1) (some 9) false]

/-- The completion of the failed Put of flow 0 takes flow 1 out of the session and frees the
identifier it has. -/
theorem failed_first_put_drops_other :
    ∃ s t, execute Sys.step (Sys.init { store := true } 65535) refuseFirst = some s ∧
      s.eng.failure = none ∧ putFailed s (outKey 1) 0 9 = true ∧ s.eng.out.get 1 = some 1 ∧
      s.step (.finish (outKey 1)) = some t ∧ t.eng.out.get 1 = none ∧
      (t.eng.outs 1).finished = false ∧ t.eng.ids.owner 1 = .none := by
  obtain ⟨s, hs, hP⟩ := exists_of_execute
    (show (execute Sys.step (Sys.init { store := true } 65535) refuseFirst).any
      (fun s => s.eng.failure = none ∧ putFailed s (outKey 1) 0 9 = true ∧
        s.eng.out.get 1 = some 1 ∧ (s.step (.finish (outKey 1))).any (fun t =>
          t.eng.out.get 1 = none ∧ (t.eng.outs 1).finished = false ∧
            t.eng.ids.owner 1 = .none) = true) = true by decide)
  simp only [decide_eq_true_eq] at hP
  obtain ⟨hf, hput, hout, hany⟩ := hP
  cases ht : s.step (.finish (outKey 1)) with
  | none =>
    rw [ht] at hany
    cases hany
  | some t =>
    rw [ht] at hany
    simp only [Option.any_some, decide_eq_true_eq] at hany
    exact ⟨s, t, hs, hf, hput, hout, ht, hany⟩

end Mqttv5.Guarantees
