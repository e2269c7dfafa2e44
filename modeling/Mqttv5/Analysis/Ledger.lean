import Mqttv5.Analysis.Told

/-!
# The ledger of the producers

A record, kept beside a run, of the Settle functions that Register and Adopt took over, of the
flows for which a Settle returned nil, and of the outcomes that the settle writes reported.
`Booked` says that it agrees with the engine; every step that the producers take with care keeps
it.
-/

set_option autoImplicit false

namespace Mqttv5.Analysis

open Mqttv5.Computation Model Program Interface List FiniteMap

/-- The Settles given to flows, the flows with a Settle that returned nil, and the outcomes that
settle writes passed on. -/
structure Ledger where
  given : List (OutPtr × SettleFn) := []
  nils : List OutPtr := []
  told : List (OutPtr × Option PubErr) := []

/-- What one move adds to the ledger. A new process starts a new one. -/
def book (l : Ledger) (s : Sys) : Event → Ledger
  | .register m _ => if s.eng.failure = none then
      { l with given := l.given ++ (m.settle.map fun f => (s.eng.nextOut, f)).toList }
    else l
  | .adopt ref f => { l with given := l.given ++ ((adoptee s.eng ref).map fun p => (p, f)).toList }
  | .callSettle k => match s.eng.queues k with
    | ⟨.settle _ o _, .out p, _, _⟩ :: _ => { l with told := l.told ++ [(p, o)] }
    | _ => l
  | .settleReturn k none => match s.eng.queues k with
    | ⟨_, .out p, _, _⟩ :: _ => { l with nils := l.nils ++ [p] }
    | _ => l
  | .restart => {}
  | _ => l

/-- One move of the system, with its entry in the ledger. -/
def watch (x : Sys × Ledger) (a : Event) : Option (Sys × Ledger) :=
  (x.1.step a).map fun t => (t, book x.2 x.1 a)

/-- The care that producers and store take: a Ref is registered when no flow is found under it; the
delete of a record does not fail after its Settle, unless somebody adopted the flow meanwhile;
Restore comes to a session that has failed or knows no Ref, with no write and no caller in between,
and loads records with different Refs; and no write is in progress when `Discard` ends the flows. -/
def Fair (s : Sys) : Event → Prop
  | .register m _ => m.ref ≠ [] → adoptee s.eng m.ref = none
  | .finish k => ∀ j rest f o ref p err, s.eng.queues k = j :: rest → j.kind = .settle f o ref →
      j.owner = .out p → j.stage = .ran (some (.store err)) → j.epoch = s.eng.epoch → ref ≠ [] →
      (s.eng.outs p).adopted = true
  | .restore => (s.eng.writes = 0 ∧ s.held = [] ∧ s.reserved = 0) ∧
      (s.eng.failure ≠ none ∨ ∀ r, adoptee s.eng r = none) ∧
      ∀ m recs, s.loaded = some (m, recs) → Distinct recs
  | .restart => Distinct s.store.load.2
  | .discardLocked => s.eng.writes = 0
  | _ => True

/-- The events but the steps of a `Discard`. -/
def keepsSession : Event → Bool
  | .discard | .discardReset _ | .discardLocked | .discardCall => false
  | _ => true

/-- Fair steps of a session that nobody discards. -/
def Careful (s : Sys) (a : Event) : Prop := Fair s a ∧ keepsSession a = true

/-- The calls of Settles that were made, and those that a `Discard` is about to make. -/
def made (s : Sys) : List (OutPtr × SettleFn) := s.calls ++ discardCalls s.discarding

/-- The ledger agrees with the engine. -/
structure Booked (x : Sys × Ledger) : Prop where
  session : Session False x.1
  accounts : Accounts x.1.eng (made x.1) x.2.given x.2.nils x.2.told
  find : x.1.eng.failure = none → Findable x.1.eng

/-- What a step leaves findable: all that was found, but for the flow whose write ended. -/
def Stands (s t : Sys) (a : Event) : Prop :=
  t.eng.failure = none → ∀ r p, adoptee s.eng r = some p →
    adoptee t.eng r = some p ∨ ∃ k, a = .finish k ∧ Ends s.eng k p

theorem atRest_of_fair {s : Sys} {a : Event} (h : Fair s a) : AtRest False s a := by
  cases a with
  | restore => exact ⟨h.1.1, h.1.2.1, h.1.2.2, fun hcon => hcon.elim⟩
  | discardLocked => exact ⟨h, fun hcon => hcon.elim⟩
  | _ => trivial

/-- One more call. -/
theorem count_call (s : Sys) (p q : OutPtr) (f g : SettleFn) :
    (s.calls ++ [(p, f)] ++ discardCalls s.discarding).count (q, g) =
      (made s).count (q, g) + if p = q ∧ f = g then 1 else 0 := by
  unfold made
  simp only [count_append, count_singleton, beq_iff_eq, Prod.mk.injEq]
  omega

theorem Accounts.of_count {e : Engine} {calls calls' given : List (OutPtr × SettleFn)}
    {nils : List OutPtr} {told : List (OutPtr × Option PubErr)}
      (h : Accounts e calls given nils told)
    (hcount : ∀ p f, calls'.count (p, f) ≤ calls.count (p, f)) :
    Accounts e calls' given nils told :=
  ⟨fun p f => (Nat.add_le_add_right (hcount p f) _).trans (h.sum p f), h.known, h.jobs, h.told,
    h.ready⟩

/-- A call of the failure that is made is no longer due. -/
theorem Accounts.dropped_tail {e : Engine} {calls given : List (OutPtr × SettleFn)}
    {nils : List OutPtr} {told : List (OutPtr × Option PubErr)}
      (h : Accounts e calls given nils told)
    {p : OutPtr} {f : SettleFn} {err : PubErr} {rest : List (OutPtr × SettleFn × PubErr)}
    (hdropped : e.dropped = (p, f, err) :: rest) :
    Accounts { e with dropped := rest } (calls ++ [(p, f)]) given nils told := by
  refine ⟨?_, h.known, ?_, h.told, h.ready⟩
  · intro q g
    have hsum := h.sum q g
    have htoDrop : toDrop e.dropped q g = toDrop rest q g + (if p = q ∧ f = g then 1 else 0) := by
      rw [hdropped]
      simp [toDrop, countP_cons]
    have hcount : (calls ++ [(p, f)]).count (q, g) =
        calls.count (q, g) + (if p = q ∧ f = g then 1 else 0) := by
      rw [count_append, count_singleton]
      simp
    have howed : owed { e with dropped := rest } q g = owed e q g := rfl
    unfold due at hsum ⊢
    rw [htoDrop] at hsum
    rw [howed, hcount]
    simp only at hsum ⊢
    omega
  · intro k j hj q g o ref howner hkind
    obtain ⟨hover, houtcome, href, hcalled, hreturned⟩ := h.jobs k j hj q g o ref howner hkind
    exact ⟨hover, houtcome, href, hcalled, hreturned⟩

/-! ### The calls of a Discard -/

/-- Each flow is told once. -/
theorem count_flatMap_settle (outs : OutPtr → Out) (l : List OutPtr) (hl : l.Nodup) (p : OutPtr)
    (f : SettleFn) : (l.flatMap (settleOf outs)).count (p, f) =
      if p ∈ l ∧ (outs p).settle = some f then 1 else 0 := by
  induction l with
  | nil => simp
  | cons q l ih =>
    obtain ⟨hq, hl⟩ := nodup_cons.mp hl
    rw [flatMap_cons, count_append, ih hl]
    by_cases hqp : q = p
    · subst hqp
      unfold settleOf
      cases hs : (outs q).settle with
      | none => simp
      | some g =>
        by_cases hg : g = f
        · simp [hg, hq]
        · simp [hg, hq]
    · have hzero : (settleOf outs q).count (p, f) = 0 :=
        count_eq_zero_of_not_mem fun hmem => hqp (mem_settleOf hmem).symm
      rw [hzero, Nat.zero_add]
      simp [Ne.symm hqp]

/-- INTERNAL: **The calls of a Discard**: the Settle of each flow of the session, once. -/
theorem discardLocked_calls {on : Prop} {s : Sys} (h : Core on s) (hw : s.eng.writes = 0) :
    (∀ q, ((discardLocked s.eng).1.outs q).settle = (s.eng.outs q).settle ∧
      ((discardLocked s.eng).1.outs q).adopted = (s.eng.outs q).adopted) ∧
    (∀ q, q ∉ s.eng.pub ++ s.eng.rel → (discardLocked s.eng).1.outs q = s.eng.outs q) ∧
    ∀ p f, (discardLocked s.eng).2.count (p, f) =
      if p ∈ s.eng.pub ++ s.eng.rel ∧ (s.eng.outs p).settle = some f then 1 else 0 := by
  obtain ⟨own, hown⟩ := h.owners
  have hidle := (h.counted.idle hw).1
  have hnone : ∀ r p, s.eng.orphans.get r = some p → (s.eng.outs p).settle = none := by
    intro r p hr
    by_cases hf : s.eng.failure = none
    · obtain ⟨hp, hfin, -, -⟩ := hown.orphan r p hr
      have hslot := hown.slot _ p hp hf
      rw [hidle] at hslot
      have hset : (s.eng.outs p).settling = false := by
        by_contra hcon
        obtain ⟨puts, last, heq, -⟩ := hslot.busy (by simpa using hcon)
        simp at heq
      exact (hslot.kept hfin hset).1
    · rw [(h.dead hf).orphans, get_empty] at hr
      cases hr
  have horphans : (s.eng.orphans.toList.flatMap fun x => settleOf s.eng.outs x.2) = [] := by
    rw [flatMap_eq_nil_iff]
    intro x hx
    rw [settleOf, hnone x.1 x.2 ((mem_toList _ _ _).mp hx)]
    rfl
  have hnodup : (s.eng.pub ++ s.eng.rel).Nodup := by
    have hnd := h.ordered.nodup
    simpa [SendQueue.listed] using hnd
  have hperm : (sortByPubSeq s.eng (s.eng.pub ++ s.eng.rel)).Perm (s.eng.pub ++ s.eng.rel) :=
    perm_insertionSort _ _
  obtain ⟨ids, stuck, out, refs, orphans, heq⟩ := discardLocked_eq s.eng
  rw [heq, horphans, append_nil]
  refine ⟨?_, fun q hq => if_neg hq, ?_⟩
  · intro q
    simp only
    split
    · exact ⟨rfl, rfl⟩
    · exact ⟨rfl, rfl⟩
  · intro p f
    refine (count_flatMap_settle s.eng.outs _ (hperm.nodup_iff.mpr hnodup) p f).trans ?_
    simp only [hperm.mem_iff]

namespace Booked

variable {x : Sys × Ledger} {t : Sys} {l : Ledger}

variable {a : Event} {k : RecordKey} {err : Option ℕ} {max : ℕ}

section

variable (h : Booked x)
include h

theorem core : Core False x.1 := h.session.core

section

variable (ha : AtRest False x.1 a)
include ha

/-- A step on flows that exist. -/
theorem flows (hstep : x.1.step a = some t) (heng : Evolves x.1.eng t.eng)
    (hcalls : made t = made x.1) : Booked (t, x.2) ∧ Stands x.1 t a := by
  have hrule := (settled_flowRule x.1.held x.1.reserved (made x.1) x.2.given x.2.nils x.2.told).and
    (findable_flowRule x.1.held x.1.reserved x.1.eng)
  obtain ⟨⟨-, -, hacc⟩, -, hfind⟩ := heng _ hrule
    ⟨⟨h.core.owners, sided_of_jobInv h.core.jobs, h.accounts⟩, h.core.owners,
      fun hf => ⟨h.find hf, Keeps.refl _⟩⟩
  refine ⟨⟨h.session.step ha hstep, ?_, fun hf => (hfind hf).1⟩, ?_⟩
  · rw [show made (t, x.2).1 = made x.1 from hcalls]
    exact hacc
  · exact fun hf r p hr => .inl ((hfind hf).2 r p hr)

/-- A step beside the flows and their writes. -/
theorem aside (hstep : x.1.step a = some t)
    (houts : t.eng.outs = x.1.eng.outs ∧ t.eng.nextOut = x.1.eng.nextOut)
    (hqueues : t.eng.queues = x.1.eng.queues)
    (hmaps : t.eng.out = x.1.eng.out ∧ t.eng.refs = x.1.eng.refs ∧ t.eng.orphans = x.1.eng.orphans)
    (hstat : t.eng.epoch = x.1.eng.epoch ∧ t.eng.failure = x.1.eng.failure)
    (hcalls : made t = made x.1 ∧ t.eng.dropped = x.1.eng.dropped) :
    Booked (t, x.2) ∧ Stands x.1 t a := by
  obtain ⟨hout, hrefs, horph⟩ := hmaps
  refine ⟨⟨h.session.step ha hstep, ?_, ?_⟩, ?_⟩
  · rw [show made (t, x.2).1 = made x.1 from hcalls.1]
    refine h.accounts.congr ?_ ?_ ?_ ?_ houts.2 hstat.1 hcalls.2
    · intro q
      show (t.eng.outs q).id = _ ∧ _
      rw [houts.1]
      exact ⟨rfl, rfl, rfl, rfl, rfl, rfl⟩
    · intro i
      exact congrFun hqueues _
    · intro i
      show ∀ j ∈ t.eng.queues (inKey i), _
      rw [hqueues]
      exact sided_of_jobInv h.core.jobs i
    · intro i
      show t.eng.out.get i = _
      rw [hout]
  · intro hf
    refine (h.find (hstat.2 ▸ hf)).congr hout hrefs horph (fun q => ?_) ?_
    · show (t.eng.outs q).finished = _ ∧ (t.eng.outs q).ref = _
      rw [houts.1]
      exact ⟨rfl, rfl⟩
    · intro i j hj p hjp
      have hj : j ∈ t.eng.queues (outKey i) := hj
      rw [hqueues] at hj
      exact .inl ⟨j, hj, hjp⟩
  · exact fun _ r p hr => .inl (Keeps.of_eq hrefs horph r p hr)

/-- A write reaches a later stage; what it has called and heard goes into the ledger. -/
theorem stage (hstep : x.1.step a = some t) {j : Job} {rest : List Job}
    {st : Stage} (hq : x.1.eng.queues k = j :: rest) (hst : st ≠ .queued)
    (heng : t.eng = setStage x.1.eng k st) (hgiven : l.given = x.2.given)
    (hcalls : ∀ p, j.owner = .out p → isOutbound j.kind = true →
      (∀ q f, (made t).count (q, f) ≤ (made x.1).count (q, f) +
        if q = p ∧ willCall p f j = true then 1 else 0) ∧
      (∀ q f, q ≠ p → (made t).count (q, f) = (made x.1).count (q, f)) ∧
      (∀ q ∈ x.2.nils, q ∈ l.nils) ∧
      (∀ f o ref, j.kind = .settle f o ref → ref ≠ [] → passed st → p ∈ l.nils) ∧
      (∀ y ∈ l.told, y ∈ x.2.told ∨ y.1 = p ∧ (x.1.eng.outs p).finished = true ∧
        (x.1.eng.outs p).err = y.2))
    (hin : isOutbound j.kind = false → made t = made x.1 ∧ l = x.2) :
    Booked (t, l) ∧ Stands x.1 t a := by
  obtain ⟨own, hown⟩ := h.core.owners
  have hside := sided_of_jobInv h.core.jobs
  have hmem := head_mem hq
  obtain ⟨queues, hset⟩ := setStage_eq x.1.eng k st
  refine ⟨⟨h.session.step ha hstep, ?_, ?_⟩, ?_⟩
  · show Accounts t.eng (made t) l.given l.nils l.told
    rw [heng, hgiven]
    rcases Owners.key_cases k with hk | hk
    · obtain ⟨p, hp, howner⟩ := hown.queue_owned (hk ▸ hq)
      have hout : isOutbound j.kind = true := (h.core.jobs.side k j hmem).mpr (by rw [hk]; rfl)
      obtain ⟨h1, h2, h3, h4, h5⟩ := hcalls p howner hout
      rw [hk] at hq ⊢
      exact h.accounts.stage hown hp hst hq h1 h2 h3 h4 h5
    · have hno := hside k.packetID j (hk ▸ hmem)
      obtain ⟨hc, hl⟩ := hin hno
      rw [hk] at hq ⊢
      rw [hc, hl]
      exact h.accounts.stage_inbound hside _ st hq
  · intro hf
    have hf : x.1.eng.failure = none := by
      have hf : t.eng.failure = none := hf
      rw [heng, hset] at hf
      exact hf
    show Findable t.eng
    rw [heng]
    refine (h.find hf).congr ?_ ?_ ?_ ?_ ?_
    · rw [hset]
    · rw [hset]
    · rw [hset]
    · intro q
      rw [hset]
      exact ⟨rfl, rfl⟩
    · intro i j' hj' p hjp
      obtain ⟨i', hi', -, howner, -⟩ := subJobs_setStage x.1.eng k st _ j' hj'
      exact .inl ⟨i', hi', howner.trans hjp⟩
  · intro _ r p hr
    refine Or.inl (Keeps.of_eq ?_ ?_ r p hr)
    · rw [heng, hset]
    · rw [heng, hset]

end

/-- A session that has failed finds nothing. -/
theorem adoptee_failed (hf : x.1.eng.failure ≠ none) (r : Bytes) : adoptee x.1.eng r = none := by
  have hd := h.core.dead hf
  rw [adoptee_none, hd.refs, hd.orphans]
  simp

theorem register {m : Message} {now : Time} (ha : Fair x.1 (.register m now))
    (hstep : x.1.step (.register m now) = some t) :
    Booked (t, book x.2 x.1 (.register m now)) ∧ Stands x.1 t (.register m now) := by
  have hrest := atRest_of_fair ha
  cases (stepped hstep).2
  rename_i hheld
  by_cases hf : x.1.eng.failure = none
  · obtain ⟨own, hown⟩ := h.core.owners
    have hnote : book x.2 x.1 (.register m now) = { x.2 with
        given := x.2.given ++ (m.settle.map fun f => (x.1.eng.nextOut, f)).toList } := if_pos hf
    obtain ⟨hfind, hkeep⟩ := (h.find hf).register hown m now hf hheld h.core.ordered ha
    rw [hnote]
    exact ⟨⟨h.session.step hrest hstep, h.accounts.register (sided_of_jobInv h.core.jobs) hown m now
      hf hheld, fun _ => hfind⟩, fun _ r p hr => .inl (hkeep r p hr)⟩
  · -- The session has failed: the identifier is released, and nothing taken over.
    have hnote : book x.2 x.1 (.register m now) = x.2 := if_neg hf
    have hsome : x.1.eng.failure.isSome = true := Option.isSome_iff_ne_none.mpr hf
    obtain ⟨ids, stuck, hrel⟩ := releaseLocked_eq x.1.eng m.id .publish
    have heq : (Program.register x.1.eng m now).1 =
      { x.1.eng with ids := ids, stuck := stuck } := by
      unfold Program.register
      rw [if_pos hsome]
      exact hrel
    rw [hnote]
    refine h.aside hrest hstep ?_ ?_ ?_ ?_ ?_
    · simp only [heq]
      exact ⟨trivial, trivial⟩
    · simp only [heq]
    · simp only [heq]
      exact ⟨trivial, trivial, trivial⟩
    · simp only [heq]
      exact ⟨trivial, trivial⟩
    · simp only [heq]
      exact ⟨rfl, trivial⟩

theorem adopt {ref : Bytes} {f : SettleFn} (hstep : x.1.step (.adopt ref f) = some t) :
    Booked (t, book x.2 x.1 (.adopt ref f)) ∧ Stands x.1 t (.adopt ref f) := by
  have hrest : AtRest False x.1 (.adopt ref f) := trivial
  cases (stepped hstep).2
  by_cases hf : x.1.eng.failure = none
  · obtain ⟨own, hown⟩ := h.core.owners
    obtain ⟨hfind, hkeep⟩ := (h.find hf).adopt hown h.core.ordered ref f
    exact ⟨⟨h.session.step hrest hstep, h.accounts.adopt h.core.ordered hown hf ref f,
      fun _ => hfind⟩,
      fun _ r p hr => .inl (hkeep r p hr)⟩
  · have hnote : book x.2 x.1 (.adopt ref f) = x.2 := by
      simp only [book, h.adoptee_failed hf]
      simp
    have heq := h.core.adopt_failed hf ref f
    rw [hnote]
    refine h.aside hrest hstep ?_ ?_ ?_ ?_ ?_
    · simp only [heq]
      exact ⟨trivial, trivial⟩
    · simp only [heq]
    · simp only [heq]
      exact ⟨trivial, trivial, trivial⟩
    · simp only [heq]
      exact ⟨trivial, trivial⟩
    · simp only [heq]
      exact ⟨trivial, trivial⟩

theorem callSettle (hstep : x.1.step (.callSettle k) = some t) :
    Booked (t, book x.2 x.1 (.callSettle k)) ∧ Stands x.1 t (.callSettle k) := by
  have hrest : AtRest False x.1 (.callSettle k) := trivial
  cases (stepped hstep).2
  rename_i f o ref p ep rest hq
  have hnote : book x.2 x.1 (.callSettle k) = { x.2 with told := x.2.told ++ [(p, o)] } := by
    simp only [book, hq]
  have hmem : (⟨.settle (some f) o ref, .out p, ep, .queued⟩ : Job) ∈ x.1.eng.queues k := by
    rw [hq]
    exact mem_cons_self
  have hjob := h.accounts.jobs k _ hmem p (some f) o ref rfl rfl
  rw [hnote]
  refine h.stage hrest hstep hq (by simp) rfl rfl ?_ ?_
  · intro p' howner _
    cases howner
    refine ⟨?_, ?_, fun _ hq => hq, fun _ _ _ _ _ hpass => hpass.elim, ?_⟩
    · intro q g
      refine Nat.le_trans ((count_call x.1 p q f g).le) (Nat.add_le_add_left ?_ _)
      by_cases hqg : p = q ∧ f = g
      · obtain ⟨rfl, rfl⟩ := hqg
        simp [willCall]
      · simp [hqg]
    · intro q g hqp
      refine (count_call x.1 p q f g).trans ?_
      simp [Ne.symm hqp]
    · intro y hy
      rcases mem_append.mp hy with hy | hy
      · exact .inl hy
      · cases mem_singleton.mp hy
        exact .inr ⟨rfl, hjob.ended, hjob.outcome⟩
  · intro hcon
    cases hcon

theorem settleReturn (hstep : x.1.step (.settleReturn k err) = some t) :
    Booked (t, book x.2 x.1 (.settleReturn k err)) ∧ Stands x.1 t (.settleReturn k err) := by
  have hrest : AtRest False x.1 (.settleReturn k err) := trivial
  have hst := hstep
  unfold Sys.step at hstep
  rw [if_neg (by simp [h.core.running])] at hstep
  simp only at hstep
  split at hstep
  · rename_i f o ref q ep rest hq
    obtain ⟨own, hown⟩ := h.core.owners
    have hmem : (⟨.settle f o ref, q, ep, .settling⟩ : Job) ∈ x.1.eng.queues k := by
      rw [hq]
      exact mem_cons_self
    have hkey : k = outKey k.packetID := by
      rcases Owners.key_cases k with hk | hk
      · exact hk
      · have hno := sided_of_jobInv h.core.jobs k.packetID _ (hk ▸ hmem)
        cases hno
    obtain ⟨p, hp, howner⟩ := hown.queue_owned (hkey ▸ hq)
    simp only at howner
    subst howner
    have hidle : ∀ g, willCall p g ⟨.settle f o ref, .out p, ep, .settling⟩ = false := by
      intro g
      simp [willCall]
    have hgo : ∀ (st : Stage) (l : Ledger), st ≠ .queued → t.eng = setStage x.1.eng k st →
        made t = made x.1 → l.given = x.2.given → (∀ q ∈ x.2.nils, q ∈ l.nils) →
        (ref ≠ [] → passed st → p ∈ l.nils) → l.told = x.2.told →
        Booked (t, l) ∧ Stands x.1 t (.settleReturn k err) := by
      intro st l hne heng hcalls hgiven hnils hpassed htold
      refine h.stage hrest hst hq hne heng hgiven ?_ (fun hcon => by cases hcon)
      intro p' howner _
      cases howner
      refine ⟨?_, ?_, hnils, ?_, ?_⟩
      · intro q g
        rw [hcalls]
        exact Nat.le_add_right _ _
      · intro q g _
        rw [hcalls]
      · intro f' o' ref' hkind href hpass
        simp only [JobKind.settle.injEq] at hkind
        obtain ⟨-, -, rfl⟩ := hkind
        exact hpassed href hpass
      · intro y hy
        rw [htold] at hy
        exact .inl hy
    split at hstep
    · rename_i c
      have hnote : book x.2 x.1 (.settleReturn k (some c)) = x.2 := rfl
      rw [hnote]
      split at hstep
      · cases hstep
        exact hgo _ x.2 (by simp) rfl rfl rfl (fun _ hq => hq) (fun _ hpass => hpass.elim) rfl
      · rename_i href
        cases hstep
        exact hgo _ x.2 (by simp) rfl rfl rfl (fun _ hq => hq)
          (fun hcon => absurd hcon (by simpa using href)) rfl
    · have hnote : book x.2 x.1 (.settleReturn k none) = { x.2 with nils := x.2.nils ++ [p] } := by
        simp only [book, hq]
      cases hstep
      rw [hnote]
      exact hgo _ _ (by simp) rfl rfl rfl (fun q hq => mem_append_left _ hq)
        (fun _ _ => mem_append_right _ (mem_singleton.mpr rfl)) rfl
  · cases hstep

theorem doStore {applied : Bool} (hstep : x.1.step (.doStore k err applied) = some t) :
    Booked (t, x.2) ∧ Stands x.1 t (.doStore k err applied) := by
  have hrest : AtRest False x.1 (.doStore k err applied) := trivial
  obtain ⟨hcalls, j, rest, st, hq, hat, hne, heng⟩ : made t = made x.1 ∧ ∃ j rest st,
      x.1.eng.queues k = j :: rest ∧ Sys.atStore j = true ∧ st ≠ .queued ∧
      t.eng = setStage x.1.eng k st := by
    cases (stepped hstep).2 with
    | ranAlone _ _ _ j rest hq hat | ranStore _ _ _ j rest hq hat =>
      exact ⟨rfl, j, rest, _, hq, hat, by simp, rfl⟩
  have hmem := head_mem hq
  refine h.stage hrest hstep hq hne heng rfl ?_ (fun _ => ⟨hcalls, rfl⟩)
  intro p howner _
  refine ⟨?_, ?_, fun _ hq => hq, ?_, fun _ hy => .inl hy⟩
  · intro q g
    rw [hcalls]
    exact Nat.le_add_right _ _
  · intro q g _
    rw [hcalls]
  · intro f o ref hkind href _
    have hjob := h.accounts.jobs k j hmem p f o ref howner hkind
    obtain ⟨g, hg⟩ := Option.ne_none_iff_exists'.mp (hjob.called href)
    refine hjob.returned href ?_
    unfold Sys.atStore at hat
    rw [hkind, hg] at hat
    simp only [decide_eq_true_eq] at hat
    rw [hat]
    trivial

theorem finish (ha : Fair x.1 (.finish k)) (hstep : x.1.step (.finish k) = some t) :
    Booked (t, x.2) ∧ Stands x.1 t (.finish k) := by
  have hrest := atRest_of_fair ha
  cases (stepped hstep).2
  rename_i j rest res hstage hq
  refine ⟨⟨h.session.step hrest hstep, ?_, ?_⟩, ?_⟩
  · refine h.accounts.finish h.core hq hstage ?_
    intro f o ref p err hkind howner hres hep href
    exact ha j rest f o ref p err hq hkind howner (by rw [hstage, hres]) hep href
  · intro hf
    exact (Findable.finish h.core h.find hq hstage hf).1
  · intro hf r p hr
    rcases (Findable.finish h.core h.find hq hstage hf).2 r p hr with hr' | hends
    · exact .inl hr'
    · exact .inr ⟨k, rfl, hends⟩

theorem callDropped (hstep : x.1.step .callDropped = some t) :
    Booked (t, x.2) ∧ Stands x.1 t .callDropped := by
  have hrest : AtRest False x.1 .callDropped := trivial
  cases (stepped hstep).2
  rename_i p f err rest hdropped
  refine ⟨⟨h.session.step hrest hstep, ?_, ?_⟩, fun _ r q hr => .inl hr⟩
  · refine (h.accounts.dropped_tail hdropped).of_count ?_
    intro q g
    refine ((count_call x.1 p q f g).trans ?_).le
    simp [count_append, count_singleton]
  · intro hf
    have hfind := h.find hf
    exact ⟨hfind.live, hfind.refs, hfind.apart, hfind.kept⟩

/-- A failed write of the meta fails the session. -/
theorem setMetaReturn (hstep : x.1.step .setMetaReturn = some t) :
    Booked (t, x.2) ∧ Stands x.1 t .setMetaReturn := by
  have hrest : AtRest False x.1 .setMetaReturn := trivial
  cases (stepped hstep).2 with
  | setMetaDone => exact h.aside hrest hstep ⟨rfl, rfl⟩ rfl ⟨rfl, rfl, rfl⟩ ⟨rfl, rfl⟩ ⟨rfl, rfl⟩
  | setMetaFailed m err =>
    have hfailed : (failLocked x.1.eng (setMetaError err)).failure ≠ none :=
      (failLocked_frame _ _).1
    refine ⟨⟨h.session.step hrest hstep, ?_, fun hf => absurd hf hfailed⟩,
      fun hf => absurd hf hfailed⟩
    by_cases hf : x.1.eng.failure = none
    · obtain ⟨own, hown⟩ := h.core.owners
      exact h.accounts.fail_owned hown hf h.core.ordered
        (fun k j hj => (h.core.jobs.current hf k j hj).le) _
    · have heq : failLocked x.1.eng (setMetaError err) = x.1.eng := by
        unfold failLocked
        rw [if_pos (Option.isSome_iff_ne_none.mpr hf)]
      show Accounts (failLocked x.1.eng (setMetaError err)) _ _ _ _
      rw [heq]
      exact h.accounts

/-- Restore rebuilds the session. -/
theorem restore (ha : Fair x.1 .restore) (hstep : x.1.step .restore = some t) :
    Booked (t, x.2) ∧ Stands x.1 t .restore ∧
    ∀ m recs, x.1.loaded = some (m, recs) → restoreLocked x.1.eng m recs ≠ none →
      Regained recs t.eng := by
  have hrest := atRest_of_fair ha
  obtain ⟨⟨hw, -, -⟩, hknown, hdistinct⟩ := ha
  obtain ⟨who, hk⟩ := h.session.known
  have hnone : ∀ r, adoptee x.1.eng r = none := by
    rcases hknown with hf | hnone
    · exact h.adoptee_failed hf
    · exact hnone
  have hstands : Stands x.1 t .restore := by
    intro _ r p hr
    rw [hnone] at hr
    cases hr
  have hst := hstep
  unfold Sys.step at hstep
  rw [if_neg (by simp [h.core.running])] at hstep
  simp only at hstep
  split at hstep
  · rename_i m recs hloaded
    have hl := (hk.loaded m recs hloaded).1
    split at hstep
    · rename_i e he
      cases hstep
      have hidle := (h.core.counted.idle hw).1
      have hregain := Regained.restored hidle h.core.running h.core.max_pos h.core.send.steady
        h.core.inbox hl (hdistinct m recs hloaded) he
      refine ⟨⟨h.session.step hrest hst, ?_, fun _ => hregain.find⟩, hstands, ?_⟩
      · exact h.accounts.rebuilt hidle (h.core.restored hw hl he) he
      · intro m' recs' heq _
        rw [hloaded] at heq
        cases heq
        exact hregain
    · rename_i hres
      cases hstep
      obtain ⟨hbooked, -⟩ := h.aside hrest hst ⟨rfl, rfl⟩ rfl ⟨rfl, rfl, rfl⟩ ⟨rfl, rfl⟩ ⟨rfl, rfl⟩
      refine ⟨hbooked, hstands, ?_⟩
      intro m' recs' heq hcon
      rw [hloaded] at heq
      cases heq
      exact absurd hres hcon
  · cases hstep

end

/-- An engine with no session. -/
theorem new_accounts (cfg : Config) (max : ℕ) : Accounts (new cfg max) [] [] [] [] := by
  refine ⟨?_, by simp, ?_, by simp, ?_⟩
  · intro p f
    have hbusy : busy (new cfg max) p = false := rfl
    have howed : owed (new cfg max) p f = 0 := by
      unfold owed
      rw [hbusy]
      simp [new, get_empty]
    unfold due
    rw [howed]
    exact Nat.le_refl 0
  · intro k j hj
    cases hj
  · intro p hp
    cases hp

/-- A new process. -/
theorem restart (h : Booked x) (ha : Fair x.1 .restart) (hstep : x.1.step .restart = some t) :
    Booked (t, {}) ∧ Regained x.1.store.load.2 t.eng := by
  have hrest := atRest_of_fair ha
  obtain ⟨who, hk⟩ := h.session.known
  cases (stepped hstep).2
  rename_i hfresh
  obtain ⟨hr, heq⟩ := fresh_rebuilt h.core.max_pos hk.loadable hfresh
  obtain ⟨e, he, rfl⟩ := Option.map_eq_some_iff.mp hfresh
  have hcore := core_init x.1.eng.cfg x.1.eng.ids.max h.core.max_pos
  have hidle : ∀ k, (new x.1.eng.cfg x.1.eng.ids.max).queues k = [] := fun _ => rfl
  have hregain : Regained x.1.store.load.2 e :=
    Regained.restored hidle hcore.running hcore.max_pos hcore.send.steady hcore.inbox hk.loadable
      ha he
  exact ⟨⟨h.session.step hrest hstep, (new_accounts _ _).rebuilt hidle hr he,
    fun _ => hregain.find⟩,
    hregain⟩

/-- The ledger of the first process starts empty. -/
theorem init (cfg : Config) (hmax : 0 < max) : Booked (Sys.init cfg max, {}) := by
  refine ⟨(Session.init cfg hmax).mono fun _ => trivial, new_accounts cfg max, fun _ => ?_⟩
  refine ⟨?_, ?_, ?_, ?_⟩
  · intro id p hp
    rw [show (Sys.init cfg max).eng.out = ∅ from rfl, get_empty] at hp
    cases hp
  · intro r p hp
    rw [show (Sys.init cfg max).eng.refs = ∅ from rfl, get_empty] at hp
    cases hp
  · intro r p hp
    rw [show (Sys.init cfg max).eng.orphans = ∅ from rfl, get_empty] at hp
    cases hp
  · intro id j hj
    cases hj

/-- INTERNAL: `Discard` ends the flows of a session with no write in progress. -/
theorem discardLocked (h : Booked x) (hw : x.1.eng.writes = 0)
    (hstep : x.1.step .discardLocked = some t) : Booked (t, x.2) := by
  have hsession := h.session.step (a := .discardLocked) ⟨hw, fun hcon => hcon.elim⟩ hstep
  have hc := h.core
  have hidle := (hc.counted.idle hw).1
  cases (stepped hstep).2
  rename_i hcond
  obtain ⟨hd, -, horph, -⟩ := hc.discarded hw
  obtain ⟨hdropped, hnext, -⟩ := discardLocked_keeps x.1.eng
  obtain ⟨hkeep, hother, hcount⟩ := discardLocked_calls hc hw
  have hempty : ∀ k, (Program.discardLocked x.1.eng).1.queues k = [] :=
    fun k => (congrFun hd.jobs.1 k).trans (hidle k)
  have hnolive : ∀ p, ¬ (sendQueue (Program.discardLocked x.1.eng).1).Live p := by
    intro p hp
    have hmem := (hd.ordered.mem p).mpr hp
    simp [SendQueue.listed, hd.drained.1, hd.drained.2] at hmem
  have hnoout : ∀ i q, (Program.discardLocked x.1.eng).1.out.get i ≠ some q :=
    fun i q hi => hnolive q (hd.ordered.live_of_get hi)
  have hmade : made x.1 = x.1.calls := by
    unfold made
    rw [hcond]
    exact append_nil _
  refine ⟨hsession, ⟨?_, ?_, ?_, ?_, ?_⟩, fun _ => ⟨?_, ?_, ?_, ?_⟩⟩
  · intro p f
    have hsum := h.accounts.sum p f
    rw [hmade] at hsum
    have hdue : due (Program.discardLocked x.1.eng).1 p f = toDrop x.1.eng.dropped p f := by
      have hbusy : busy (Program.discardLocked x.1.eng).1 p = false := by
        unfold busy
        rw [hempty]
        rfl
      have howed : owed (Program.discardLocked x.1.eng).1 p f = 0 := by
        unfold owed
        rw [hbusy, if_neg]
        rintro ⟨-, hout | ⟨-, hcon⟩⟩
        · exact hnoout _ _ hout
        · cases hcon
      unfold due
      rw [howed, hempty, hdropped]
      simp
    have hlive : (if p ∈ x.1.eng.pub ++ x.1.eng.rel ∧ (x.1.eng.outs p).settle = some f then 1
        else 0) ≤ owed x.1.eng p f := by
      split
      · rename_i hp
        have hl := (hc.ordered.mem p).mp (by simpa [SendQueue.listed] using hp.1)
        unfold owed
        rw [if_pos ⟨hp.2, .inl ((hc.ordered.get _ p).mpr ⟨hl, rfl⟩)⟩]
      · exact Nat.zero_le _
    show (x.1.calls ++ (Program.discardLocked x.1.eng).2).count (p, f) +
      due (Program.discardLocked x.1.eng).1 p f ≤ x.2.given.count (p, f)
    rw [count_append, hcount, hdue]
    unfold due at hsum
    omega
  · intro y hy
    exact (h.accounts.known y hy).trans_le hnext.ge
  · intro k j hj
    have hj : j ∈ (Program.discardLocked x.1.eng).1.queues k := hj
    rw [hempty] at hj
    cases hj
  · intro y hy
    obtain ⟨hlt, hfin, herr⟩ := h.accounts.told y hy
    have hsame : (Program.discardLocked x.1.eng).1.outs y.1 = x.1.eng.outs y.1 := by
      refine hother y.1 fun hmem => ?_
      have hl := (hc.ordered.mem y.1).mp (by simpa [SendQueue.listed] using hmem)
      have hcon : (x.1.eng.outs y.1).finished = false := hl.2
      rw [hfin] at hcon
      cases hcon
    refine ⟨hlt.trans_le hnext.ge, ?_, ?_⟩
    · show ((Program.discardLocked x.1.eng).1.outs y.1).finished = true
      rw [hsame]
      exact hfin
    · show ((Program.discardLocked x.1.eng).1.outs y.1).err = y.2
      rw [hsame]
      exact herr
  · intro p hp
    have hp : ((Program.discardLocked x.1.eng).1.outs p).adopted = true := hp
    show ((Program.discardLocked x.1.eng).1.outs p).settle ≠ none
    rw [(hkeep p).1]
    exact h.accounts.ready p ((hkeep p).2 ▸ hp)
  · intro id p hp
    exact absurd hp (hnoout id p)
  · intro r p hr
    exact absurd (hd.ordered.refs r p hr).1 (hnolive p)
  · intro r p hr
    have hr : (Program.discardLocked x.1.eng).1.orphans.get r = some p := hr
    rw [horph] at hr
    cases hr
  · intro id j hj
    have hj : j ∈ (Program.discardLocked x.1.eng).1.queues (outKey id) := hj
    rw [hempty] at hj
    cases hj

/-- INTERNAL: **Every fair step keeps the ledger**, and within one process leaves what was
found where it was. -/
theorem step {y : Sys × Ledger} (h : Booked x) (ha : Fair x.1 a) (hstep : watch x a = some y) :
    Booked y ∧ (a ≠ .restart → a ≠ .discardLocked → Stands x.1 y.1 a) := by
  obtain ⟨t, hst, rfl⟩ := Option.map_eq_some_iff.mp hstep
  have hrest := atRest_of_fair ha
  suffices hboth : a ≠ .restart → a ≠ .discardLocked → Booked (t, book x.2 x.1 a) ∧
    Stands x.1 t a by
    by_cases hre : a = .restart
    · subst hre
      exact ⟨(h.restart ha hst).1, fun hcon => absurd rfl hcon⟩
    by_cases hdisc : a = .discardLocked
    · subst hdisc
      exact ⟨h.discardLocked ha hst, fun _ hcon => absurd rfl hcon⟩
    · exact ⟨(hboth hre hdisc).1, fun _ _ => (hboth hre hdisc).2⟩
  intro hre hdisc
  by_cases hon : onFlows a = true
  · obtain ⟨heng, hsame⟩ := h.core.evolves hon hst
    have hmade : made t = made x.1 := by
      rw [hsame]
      rfl
    -- Nothing is noted of them.
    have hnote : book x.2 x.1 a = x.2 := by
      cases a <;> first | rfl | cases hon
    rw [hnote]
    exact h.flows hrest hst heng hmade
  -- The steps of a Discard that make no call.
  have hquiet : ∀ t : Sys, discardCalls x.1.discarding = [] → t.calls = x.1.calls →
      discardCalls t.discarding = [] → made t = made x.1 := by
    intro t hbefore hcalls hafter
    unfold made
    rw [hbefore, hafter, hcalls]
  cases (stepped hst).2 with
  | releaseID id o =>
    obtain ⟨ids, stuck, heq⟩ := releaseLocked_eq x.1.eng id o
    refine h.aside hrest hst ?_ ?_ ?_ ?_ ⟨rfl, ?_⟩ <;> simp only [heq, and_self]
  | register => exact h.register ha hst
  | adopt => exact h.adopt hst
  | callSettle => exact h.callSettle hst
  | settleFailed | settled => exact h.settleReturn hst
  | ranAlone | ranStore => exact h.doStore hst
  | finish => exact h.finish ha hst
  | callDropped => exact h.callDropped hst
  | setMetaDone | setMetaFailed => exact h.setMetaReturn hst
  | restored | notRestored =>
    obtain ⟨hbooked, hstands, -⟩ := h.restore ha hst
    exact ⟨hbooked, hstands⟩
  | discard hidle =>
    exact h.aside hrest hst ⟨rfl, rfl⟩ rfl ⟨rfl, rfl, rfl⟩ ⟨rfl, rfl⟩
      ⟨hquiet _ (by rw [hidle.2]; rfl) rfl rfl, rfl⟩
  | resetAlone err hdis | reset hdis | resetFailed c hdis | discardDone hdis =>
    exact h.aside hrest hst ⟨rfl, rfl⟩ rfl ⟨rfl, rfl, rfl⟩ ⟨rfl, rfl⟩
      ⟨hquiet _ (by rw [hdis]; rfl) rfl rfl, rfl⟩
  | discardCall y rest hdis =>
    refine h.aside hrest hst ⟨rfl, rfl⟩ rfl ⟨rfl, rfl, rfl⟩ ⟨rfl, rfl⟩ ⟨?_, rfl⟩
    unfold made
    rw [hdis]
    simp [discardCalls]
  | discardLocked => exact absurd rfl hdisc
  | restart => exact absurd rfl hre
  | reserve | take | report | setMetaSame | setMetaStarts | setMetaAlone | setMetaStore | load =>
    exact h.aside hrest hst ⟨rfl, rfl⟩ rfl ⟨rfl, rfl, rfl⟩ ⟨rfl, rfl⟩ ⟨rfl, rfl⟩
  | _ => exact absurd rfl hon

/-- INTERNAL: **The ledger through a run.** -/
theorem run {cfg : Config} (hmax : 0 < max) {ok : Sys × Ledger → Event → Prop}
    (hok : ∀ x a, ok x a → Fair x.1 a) (h : Reach watch ok (· = (Sys.init cfg max, {})) x) :
    Booked x := by
  refine h.invariant Booked ?_ ?_
  · rintro x rfl
    exact init cfg hmax
  · intro x a y hx ha hstep
    exact (hx.step (hok x a ha) hstep).1

end Booked

end Mqttv5.Analysis
