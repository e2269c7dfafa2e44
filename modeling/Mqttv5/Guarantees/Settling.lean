import Mqttv5.Analysis.Ledger
import Mqttv5.Guarantees.Identifiers

/-!
# What a Settle is promised

A producer that registers a message under a Ref is told its outcome: its Settle is called at most
once, with the outcome the flow ended with, and until a Settle has taken the outcome over the flow
is found under its Ref, keeps its identifier and keeps its record. The account holds in the runs
in which no delete of a record fails after the Settle before it; a run with such a failure calls
one Settle twice.
-/

set_option autoImplicit false

namespace Mqttv5.Guarantees

open Mqttv5.Computation Model Program Interface Analysis FiniteMap

variable {p : OutPtr}

/-- INTERNAL: What is counted pair by pair is counted for every function. -/
theorem count_snd_le {l l' : List (OutPtr × SettleFn)}
    (h : ∀ p f, l.count (p, f) ≤ l'.count (p, f)) (f : SettleFn) :
    (l.map Prod.snd).count f ≤ (l'.map Prod.snd).count f := by
  obtain ⟨m, hperm, hsub⟩ := List.subperm_ext_iff.mpr fun (y : OutPtr × SettleFn) _ => h y.1 y.2
  have hsubperm : (l.map Prod.snd).Subperm (l'.map Prod.snd) :=
    ⟨m.map Prod.snd, hperm.map _, hsub.map _⟩
  exact hsubperm.count_le f

/-- INTERNAL: A write that removes a record is a delete of it. -/
theorem storeEffect_none {st : MemoryStore} {k k' : RecordKey} {kind : JobKind}
    (hsome : st.records.get k' ≠ none) (hnone : (Sys.storeEffect k kind st).records.get k' = none) :
    k = k' ∧ ((∃ f o ref, kind = .settle f o ref) ∨ kind = .deleteIn) := by
  cases kind with
  | putNew r | putOut r | putIn r =>
    have hnone : (st.records.set r.key r).get k' = none := hnone
    rw [get_set] at hnone
    split at hnone
    · cases hnone
    · exact absurd hnone hsome
  | settle f o ref =>
    have hnone : (st.records.del k).get k' = none := hnone
    rw [get_del] at hnone
    split at hnone
    · rename_i hk
      exact ⟨hk.symm, .inl ⟨f, o, ref, rfl⟩⟩
    · exact absurd hnone hsome
  | deleteIn =>
    have hnone : (st.records.del k).get k' = none := hnone
    rw [get_del] at hnone
    split at hnone
    · rename_i hk
      exact ⟨hk.symm, .inr rfl⟩
    · exact absurd hnone hsome

/-- INTERNAL: A store write to a record of an outbound flow removes it when it settles the flow
only. -/
theorem removes {s t : Sys} {on : Prop} {k : RecordKey} {err : Option ℕ} {applied : Bool}
    {id : PacketID} (hc : Core on s) (hstep : s.step (.doStore k err applied) = some t)
    (hsome : s.store.records.get (outKey id) ≠ none)
    (hnone : t.store.records.get (outKey id) = none) :
    k = outKey id ∧ ∃ j rest, s.eng.queues k = j :: rest ∧ Sys.atStore j = true ∧
      ∃ f o ref, j.kind = .settle f o ref := by
  cases (stepped hstep).2 with
  | ranAlone => exact absurd hnone hsome
  | ranStore _ _ _ j rest hq hat =>
    have hmem := head_mem hq
    have hside := hc.jobs.side k j hmem
    have hnone : (if err = none ∨ applied = true then Sys.storeEffect k j.kind s.store
        else s.store).records.get (outKey id) = none := hnone
    split at hnone
    · obtain ⟨hk, hdel⟩ := storeEffect_none hsome hnone
      refine ⟨hk, j, rest, hq, hat, ?_⟩
      rcases hdel with hdel | hdel
      · exact hdel
      · rw [hdel] at hside
        have hdir : isOutbound JobKind.deleteIn = true := hside.mpr (hk ▸ rfl)
        cases hdir
    · exact absurd hnone hsome

section Found

variable {x : Sys × Ledger}

/-- INTERNAL: A flow that holds its identifier is found. -/
theorem found_of_holds (h : Booked x) (hf : x.1.eng.failure = none) {id : PacketID}
    (hp : Holds x.1 id (.flow p)) (href : (x.1.eng.outs p).ref ≠ []) :
    adoptee x.1.eng (x.1.eng.outs p).ref = some p := by
  obtain ⟨own, hown⟩ := h.core.owners
  have hfind := h.find hf
  rw [adoptee_iff]
  rcases hp with hlive | ⟨r, horphan, -⟩ | ⟨hfin, j, hj, howner, -⟩
  · exact .inl (hfind.live id p hlive href)
  · have hr := (hown.orphan r p horphan).2.2.1
    rw [hr]
    exact .inr ⟨hfind.apart r p horphan, horphan⟩
  · have horphan := hfind.kept id j hj p howner hfin href
    exact .inr ⟨hfind.apart _ p horphan, horphan⟩

/-- INTERNAL: A flow that is found has its Ref and holds its identifier. -/
theorem holds_of_found (h : Booked x) {r : Bytes}
    (hr : adoptee x.1.eng r = some p) : (x.1.eng.outs p).ref = r ∧ r ≠ [] ∧
      Holds x.1 (x.1.eng.outs p).id (.flow p) ∧
      x.1.eng.ids.owner (x.1.eng.outs p).id = .publish := by
  obtain ⟨own, hown⟩ := h.core.owners
  have hf : x.1.eng.failure = none := by
    by_contra hcon
    rw [h.adoptee_failed hcon] at hr
    cases hr
  have hholds : (x.1.eng.outs p).ref = r ∧ r ≠ [] ∧ Holds x.1 (x.1.eng.outs p).id (.flow p) := by
    rcases adoptee_iff.mp hr with hrefs | ⟨-, horphan⟩
    · have hlive := (h.core.ordered.refs r p hrefs).1
      obtain ⟨href, hne⟩ := (h.find hf).refs r p hrefs
      exact ⟨href, hne, .inl ((h.core.ordered.get _ p).mpr ⟨hlive, rfl⟩)⟩
    · obtain ⟨-, -, href, hne⟩ := hown.orphan r p horphan
      exact ⟨href, hne, .inr (.inl ⟨r, horphan, rfl⟩)⟩
  obtain ⟨href, hne, hhold⟩ := hholds
  exact ⟨href, hne, hhold, hown.owner _ p (own_of_holds hown hhold)⟩

/-- INTERNAL: A settle write of a flow with a Ref that is past its Settle had one that returned
nil. -/
theorem nil_returned (h : Booked x) {k : RecordKey} {j : Job} {rest : List Job}
    {f : Option SettleFn} {o : Option PubErr} {ref : Bytes} (hq : x.1.eng.queues k = j :: rest)
    (howner : j.owner = .out p) (hkind : j.kind = .settle f o ref) (href : ref ≠ [])
    (hstage : Sys.atStore j = true ∨ j.stage = .ran none) : p ∈ x.2.nils := by
  have hmem := head_mem hq
  have hjob := h.accounts.jobs k j hmem p f o ref howner hkind
  refine hjob.returned href ?_
  rcases hstage with hat | hran
  · obtain ⟨g, hg⟩ := Option.ne_none_iff_exists'.mp (hjob.called href)
    unfold Sys.atStore at hat
    rw [hkind, hg] at hat
    simp only [decide_eq_true_eq] at hat
    rw [hat]
    trivial
  · rw [hran]
    trivial

end Found

/-- The flow at `p` may be found no longer after the write at `k` has ended: its first Put has
failed, or a Settle has returned nil for it and its record is deleted. -/
def GivenUp (x : Sys × Ledger) (k : RecordKey) (p : OutPtr) : Prop :=
  ∃ j rest, x.1.eng.queues k = j :: rest ∧ j.owner = .out p ∧
    ((∃ r err, j.kind = .putNew r ∧ j.stage = .ran (some err)) ∨
      (∃ f o ref, j.kind = .settle f o ref) ∧ j.stage = .ran none ∧ p ∈ x.2.nils)

/-- **A Settle is called at most once and no outcome is lost.** In every state of every run with
care: a Settle has not been called more often than it was given to a flow; while the session has
not failed, a flow that holds an identifier and has a Ref is found under it, a flow that is found
has its identifier, and the next step leaves it where it is unless it ends its failed first Put or
the delete of its record, after a Settle that returned nil; a restored session and a new process
find the flow of every record that can be read; every outcome passed to a Settle is the one its
flow ended with; and a record is deleted by the settle write of its identifier, for a flow with a
Ref after a Settle that returned nil.
SOURCE: outbound.go:191-218, 312-463, writes.go:121-248 -/
theorem settles_accounted {cfg : Config} {max : ℕ} (hmax : 0 < max) {x : Sys × Ledger}
    (h : Reach watch (fun x a => Careful x.1 a) (· = (Sys.init cfg max, {})) x) :
    (∀ f, (x.1.calls.map Prod.snd).count f ≤ (x.2.given.map Prod.snd).count f) ∧
    (x.1.eng.failure = none → ∀ id p, Holds x.1 id (.flow p) → (x.1.eng.outs p).ref ≠ [] →
      adoptee x.1.eng (x.1.eng.outs p).ref = some p) ∧
    (∀ r p, adoptee x.1.eng r = some p →
      (x.1.eng.outs p).ref = r ∧ x.1.eng.ids.owner (x.1.eng.outs p).id = .publish) ∧
    (∀ a y, Careful x.1 a → watch x a = some y → a ≠ .restart → y.1.eng.failure = none →
      ∀ r p, adoptee x.1.eng r = some p →
        adoptee y.1.eng r = some p ∨ ∃ k, a = .finish k ∧ GivenUp x k p) ∧
    (∀ m recs y, x.1.loaded = some (m, recs) → restoreLocked x.1.eng m recs ≠ none →
      Careful x.1 .restore → watch x .restore = some y →
      ∀ rec ∈ recs, Returns y.1.eng.ids.max rec →
        ∃ p, adoptee y.1.eng rec.ref = some p ∧ (y.1.eng.outs p).id = rec.key.packetID) ∧
    (∀ y, Careful x.1 .restart → watch x .restart = some y →
      ∀ rec ∈ x.1.store.load.2, Returns y.1.eng.ids.max rec →
        ∃ p, adoptee y.1.eng rec.ref = some p ∧ (y.1.eng.outs p).id = rec.key.packetID) ∧
    (∀ p o, (p, o) ∈ x.2.told →
      (x.1.eng.outs p).finished = true ∧ (x.1.eng.outs p).err = o) ∧
    (∀ a y id, Careful x.1 a → watch x a = some y →
      x.1.store.records.get (outKey id) ≠ none → y.1.store.records.get (outKey id) = none →
      ∃ j rest p f o ref, x.1.eng.queues (outKey id) = j :: rest ∧ j.owner = .out p ∧
        j.kind = .settle f o ref ∧ (x.1.eng.outs p).ref = ref ∧ (ref ≠ [] → p ∈ x.2.nils)) := by
  have hb : Booked x := Booked.run hmax (fun _ _ ha => ha.1) h
  refine ⟨?_, fun hf id p => found_of_holds hb hf, ?_, ?_, ?_, ?_, ?_, ?_⟩
  · refine count_snd_le fun p f => ?_
    have hsum := hb.accounts.sum p f
    unfold made at hsum
    rw [List.count_append] at hsum
    omega
  · intro r p hr
    obtain ⟨href, -, -, howner⟩ := holds_of_found hb hr
    exact ⟨href, howner⟩
  · intro a y ha hstep hre hf r p hr
    have hdisc : a ≠ .discardLocked := by
      rintro rfl
      cases ha.2
    rcases (hb.step ha.1 hstep).2 hre hdisc hf r p hr with hkept |
      ⟨k, hk, j, rest, hq, howner, hend⟩
    · exact .inl hkept
    · refine Or.inr ⟨k, hk, j, rest, hq, howner, ?_⟩
      rcases hend with hput | ⟨f, o, ref, hkind, hstage⟩
      · exact .inl hput
      · obtain ⟨href, hne, -, -⟩ := holds_of_found hb hr
        have hmem := head_mem hq
        have hjob := hb.accounts.jobs k j hmem p f o ref howner hkind
        have hrefne : ref ≠ [] := by
          rw [← hjob.ref_eq, href]
          exact hne
        exact .inr ⟨⟨f, o, ref, hkind⟩, hstage,
          nil_returned hb hq howner hkind hrefne (.inr hstage)⟩
  · intro m recs y hloaded hres ha hstep rec hrec hreturns
    obtain ⟨t, hst, rfl⟩ := Option.map_eq_some_iff.mp hstep
    exact ((hb.restore ha.1 hst).2.2 m recs hloaded hres).found rec hrec hreturns
  · intro y ha hstep rec hrec hreturns
    obtain ⟨t, hst, rfl⟩ := Option.map_eq_some_iff.mp hstep
    exact (hb.restart ha.1 hst).2.found rec hrec hreturns
  · intro p o hmem
    obtain ⟨-, hfin, herr⟩ := hb.accounts.told (p, o) hmem
    exact ⟨hfin, herr⟩
  · intro a y id ha hstep hsome hnone
    obtain ⟨t, hst, rfl⟩ := Option.map_eq_some_iff.mp hstep
    by_cases hdo : ∃ k err applied, a = .doStore k err applied
    · obtain ⟨k, err, applied, rfl⟩ := hdo
      obtain ⟨rfl, j, rest, hq, hat, f, o, ref, hkind⟩ := removes hb.core hst hsome hnone
      obtain ⟨own, hown⟩ := hb.core.owners
      obtain ⟨p, hp, howner⟩ := hown.queue_owned hq
      have hmem := head_mem hq
      have hjob := hb.accounts.jobs _ j hmem p f o ref howner hkind
      exact ⟨j, rest, p, f, o, ref, hq, howner, hkind, hjob.ref_eq,
        fun href => nil_returned hb hq howner hkind href (.inl hat)⟩
    · have hsame := records_eq hst (fun k err applied heq => hdo ⟨k, err, applied, heq⟩) ?_
      · have hnone : t.store.records.get (outKey id) = none := hnone
        rw [hsame] at hnone
        exact absurd hnone hsome
      · rintro err rfl
        cases ha.2

/-- A (decidable) case of care: no new session, and no settle write that failed in the store. -/
def plainCare (s : Sys) : Event → Bool
  | .register m _ => m.ref = [] ∨ adoptee s.eng m.ref = none
  | .finish k => match s.eng.queues k with
    | ⟨_, _, _, .ran (some (.store _))⟩ :: _ => false
    | _ => true
  | .restore | .discard | .discardReset _ | .discardLocked | .discardCall | .restart => false
  | _ => true

/-- INTERNAL: It is care. -/
theorem careful_of_plainCare {s : Sys} {a : Event} (h : plainCare s a = true) : Careful s a := by
  cases a with
  | register m now =>
    refine ⟨fun href => ?_, rfl⟩
    simp only [plainCare, decide_eq_true_eq] at h
    exact h.resolve_left href
  | finish k =>
    refine ⟨?_, rfl⟩
    intro j rest f o ref p err hq _ _ hstage _ _
    rcases j with ⟨kind, owner, epoch, stage⟩
    simp only at hstage
    subst hstage
    simp [plainCare, hq] at h
  | restore | discard | discardReset | discardLocked | discardCall | restart => cases h
  | _ => exact ⟨trivial, rfl⟩

/-- A message with a Ref is registered, stored and sent, and the broker acknowledges it. -/
def publishOne : List Event :=
  [.connected { sessionPresent := false, receiveMaximum := 2, link := 7 } 0, .reserve,
    .take .publish,
    .register { id := 1, qos := 1, packet := [0x32, 0], ref := [7], settle := some 5 } 0,
    .doStore (outKey 1) none false, .finish (outKey 1), .report, .collect 1 9 0, .puback 1 0 none]

/-- Its Settle takes the outcome over, and the record is deleted. -/
def settleOne : List Event :=
  publishOne ++ [.callSettle (outKey 1), .settleReturn (outKey 1) none,
    .doStore (outKey 1) none false, .finish (outKey 1)]

/-- The account of `settleOne`: the Settle is called once, with the outcome. -/
theorem settles_accounted_one :
    ∃ x, execute watch (Sys.init { store := true } 3, {}) settleOne = some x ∧
      x.1.calls = [(0, 5)] ∧ x.2.given = [(0, 5)] ∧ x.2.told = [(0, none)] ∧ x.2.nils = [0] ∧
      adoptee x.1.eng [7] = none ∧
      (∀ f, (x.1.calls.map Prod.snd).count f ≤ (x.2.given.map Prod.snd).count f) ∧
      (x.1.eng.outs 0).finished = true ∧ (x.1.eng.outs 0).err = none := by
  obtain ⟨x, hx, hP⟩ := exists_of_execute
    (show (execute watch (Sys.init { store := true } 3, {}) settleOne).any
      (fun x => x.1.calls = [(0, 5)] ∧ x.2.given = [(0, 5)] ∧ x.2.told = [(0, none)] ∧
        x.2.nils = [0] ∧ adoptee x.1.eng [7] = none) = true by decide)
  simp only [decide_eq_true_eq] at hP
  obtain ⟨hcalls, hgiven, htold, hnils, hgone⟩ := hP
  have hreach : Reach watch (fun x a => Careful x.1 a)
      (· = (Sys.init { store := true } 3, {})) x :=
    Reach.of_execute (fun _ _ h => careful_of_plainCare h) (.start rfl)
      (show meets watch (fun x a => plainCare x.1 a) _ settleOne = true by decide) hx
  obtain ⟨hcount, -, -, -, -, -, houtcome, -⟩ := settles_accounted (by decide) hreach
  exact ⟨x, hx, hcalls, hgiven, htold, hnils, hgone, hcount, houtcome 0 none (by simp [htold])⟩

/-- The Settle takes the outcome over, but the delete of the record fails, which fails the session;
the failure calls the Settle of the flow again. -/
def settleTwice : List Event :=
  publishOne ++ [.callSettle (outKey 1), .settleReturn (outKey 1) none,
    .doStore (outKey 1) (some 1) false, .finish (outKey 1), .callDropped]

/-- A Settle that was given to one flow, once, is called twice. -/
theorem settle_called_twice :
    ∃ x, execute watch (Sys.init { store := true } 65535, {}) settleTwice = some x ∧
      x.2.given = [(0, 5)] ∧ x.2.nils = [0] ∧ x.1.calls = [(0, 5), (0, 5)] := by
  obtain ⟨x, hx, hP⟩ := exists_of_execute
    (show (execute watch (Sys.init { store := true } 65535, {}) settleTwice).any
      (fun x => x.2.given = [(0, 5)] ∧ x.2.nils = [0] ∧ x.1.calls = [(0, 5), (0, 5)]) = true
      by decide)
  simp only [decide_eq_true_eq] at hP
  exact ⟨x, hx, hP⟩

end Mqttv5.Guarantees
