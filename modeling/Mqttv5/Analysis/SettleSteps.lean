import Mqttv5.Analysis.Settles

/-!
# The account through the store writes

What a piece of a store write does to the account of the Settle functions: the call of a Settle
moves it from the write to the calls made, the end of a write frees it or hands it to the next
one, and a failure of the session turns what is still owed into calls to make.
-/

set_option autoImplicit false

namespace Mqttv5.Analysis

open Mqttv5.Computation Model Program Interface List
open Function (update_of_ne update_self)

variable {st : Stage}

variable {own : PacketID → Option OutPtr} {held : List (PacketID × Owner)}

section Stages

variable {held : List (PacketID × Owner)} {reserved : ℕ} {own : PacketID → Option OutPtr}
  {calls given : List (OutPtr × SettleFn)} {nils : List OutPtr}
  {told : List (OutPtr × Option PubErr)} {e : Engine} {p : OutPtr} {id : PacketID} {j : Job}
  {rest : List Job}

/-- A write that has left the queue's first stage calls nothing any more. -/
theorem willCall_stage (h : st ≠ .queued) (p : OutPtr) (f : SettleFn) (j : Job) :
    willCall p f { j with stage := st } = false := by
  unfold willCall
  cases j.kind with
  | settle g o ref => simp [h]
  | _ => rfl

/-- A write moves on: what it was about to call is no longer due. -/
theorem due_setStage (hst : st ≠ .queued) (hid : (e.outs p).id = id)
    (hq : e.queues (outKey id) = j :: rest) (f : SettleFn) :
    due (setStage e (outKey id) st) p f + (if willCall p f j then 1 else 0) = due e p f := by
  have hqueue := setStage_self e (outKey id) st hq
  obtain ⟨queues, heq⟩ := setStage_eq e (outKey id) st
  have houts : (setStage e (outKey id) st).outs = e.outs := by rw [heq]
  have hout : (setStage e (outKey id) st).out = e.out := by rw [heq]
  have hepoch : (setStage e (outKey id) st).epoch = e.epoch := by rw [heq]
  have hdropped : (setStage e (outKey id) st).dropped = e.dropped := by rw [heq]
  have hbusy : busy (setStage e (outKey id) st) p = busy e p := by
    unfold busy
    rw [houts, hid, hqueue, hepoch, hq]
    simp only [any_cons]
  have howed : owed (setStage e (outKey id) st) p f = owed e p f := by
    unfold owed
    rw [houts, hout, hbusy]
  unfold due
  rw [howed, houts, hdropped, hid, hqueue, hq, countP_cons, countP_cons,
    willCall_stage hst]
  simp only [Bool.false_eq_true, if_false]
  omega

theorem setStage_solo (hp : own id = some p) (hown : Owners e held reserved own)
    (hq : e.queues (outKey id) = j :: rest) : Solo e (setStage e (outKey id) st) p id := by
  have ht := Touches.setStage e p id st
  obtain ⟨queues, heq⟩ := setStage_eq e (outKey id) st
  refine Solo.of_touches ht (fun _ => by rw [heq]) ?_ (by rw [heq])
  intro i hi
  rw [setStage_self e _ st hq] at hi
  rcases mem_cons.mp hi with rfl | hi
  · exact hown.jobs id p hp j (head_mem hq)
  · exact hown.jobs id p hp i (by rw [hq]; exact .tail _ hi)

/-- A write of an inbound record is no part of the account. -/
theorem Accounts.stage_inbound (h : Accounts e calls given nils told) (hside : Sided e)
    (i : PacketID) (st : Stage) (hq : e.queues (inKey i) = j :: rest) :
    Accounts (setStage e (inKey i) st) calls given nils told := by
  have hqueue := setStage_self e (inKey i) st hq
  have hother : ∀ k, k ≠ inKey i → (setStage e (inKey i) st).queues k = e.queues k := by
    intro k hk
    unfold setStage
    split
    · rfl
    · simp only [update_of_ne hk]
  have hin : ∀ i', ∀ j ∈ (setStage e (inKey i) st).queues (inKey i'),
    isOutbound j.kind = false := by
    intro i' j' hj'
    by_cases hi : inKey i' = inKey i
    · rw [hi, hqueue] at hj'
      rcases mem_cons.mp hj' with rfl | hj'
      · exact hside i j (head_mem hq)
      · exact hside i j' (by rw [hq]; exact .tail _ hj')
    · rw [hother _ hi] at hj'
      exact hside i' j' hj'
  obtain ⟨queues, heq⟩ := setStage_eq e (inKey i) st
  rw [heq] at hin hother ⊢
  exact h.congr (fun _ => ⟨rfl, rfl, rfl, rfl, rfl, rfl⟩)
    (fun i' => hother _ (Owners.outKey_ne_inKey i' i)) hin (fun _ => rfl) rfl rfl rfl

/-- A write reaches a later stage. -/
theorem Accounts.stage {calls' : List (OutPtr × SettleFn)} {nils' : List OutPtr}
    {told' : List (OutPtr × Option PubErr)} (h : Accounts e calls given nils told)
    (hown : Owners e held reserved own) (hp : own id = some p) (hst : st ≠ .queued)
    (hq : e.queues (outKey id) = j :: rest)
    (hcalls : ∀ q f, calls'.count (q, f) ≤ calls.count (q, f) +
      if q = p ∧ willCall p f j = true then 1 else 0)
    (hsame : ∀ q f, q ≠ p → calls'.count (q, f) = calls.count (q, f))
    (hnils : ∀ q ∈ nils, q ∈ nils')
    (hreturned : ∀ f o ref, j.kind = .settle f o ref → ref ≠ [] → passed st → p ∈ nils')
    (htold : ∀ x ∈ told', x ∈ told ∨ x.1 = p ∧ (e.outs p).finished = true ∧
      (e.outs p).err = x.2) :
    Accounts (setStage e (outKey id) st) calls' given nils' told' := by
  have hid := (hown.ptr id p hp).2
  have hjob : ∀ i ∈ e.queues (outKey id), i.owner = .out p := hown.jobs id p hp
  obtain ⟨queues, heq⟩ := setStage_eq e (outKey id) st
  have houts : (setStage e (outKey id) st).outs = e.outs := by rw [heq]
  refine h.solo (setStage_solo hp hown hq) (hown.ptr id p hp).1 hsame (fun _ _ _ => rfl)
    (fun _ hx => .inl hx) ?_ hnils ?_ (by rw [houts]; exact htold) (by rw [houts]; exact h.ready p)
  · intro f
    have hsum := h.sum p f
    have hdue := due_setStage hst hid hq f
    have hcount := hcalls p f
    simp only [true_and] at hcount
    omega
  · intro i hi f o ref hkind
    rw [setStage_self e _ st hq] at hi
    rcases mem_cons.mp hi with rfl | hi
    · have hmem := head_mem hq
      have hold := h.jobs _ j hmem p f o ref (hjob j hmem) hkind
      refine ⟨?_, ?_, ?_, hold.called, fun href hpass => hreturned f o ref hkind href hpass⟩
      all_goals rw [houts]
      · exact hold.ended
      · exact hold.outcome
      · exact hold.ref_eq
    · have hmem : i ∈ e.queues (outKey id) := by rw [hq]; exact .tail _ hi
      have hold := h.jobs _ i hmem p f o ref (hjob i hmem) hkind
      refine ⟨?_, ?_, ?_, hold.called, fun href hpass => hnils p (hold.returned href hpass)⟩
      all_goals rw [houts]
      · exact hold.ended
      · exact hold.outcome
      · exact hold.ref_eq

end Stages

/-! ### The end of a write -/

section Ends

variable {held : List (PacketID × Owner)} {reserved : ℕ} {own : PacketID → Option OutPtr}
  {calls given : List (OutPtr × SettleFn)} {nils : List OutPtr}
  {told : List (OutPtr × Option PubErr)} {e : Engine} {p : OutPtr} {id : PacketID} {j : Job}
  {rest : List Job}

/-- A write that has run leaves its queue. -/
theorem Accounts.pop (h : Accounts e calls given nils told) (hown : Owners e held reserved own)
    (hp : own id = some p) (hq : e.queues (outKey id) = j :: rest) :
    Accounts (popJob e (outKey id)) calls given nils told := by
  have hid := (hown.ptr id p hp).2
  have hself : (popJob e (outKey id)).queues (outKey id) = rest := by rw [popJob_self, hq]; rfl
  have hmem : ∀ i ∈ rest, i ∈ e.queues (outKey id) := by
    intro i hi
    rw [hq]
    exact .tail _ hi
  refine h.still (Solo.of_touches (Touches.popJob e p id) (fun _ => rfl) ?_ rfl)
    (hown.ptr id p hp).1 ?_ ?_ (h.ready p)
  · intro i hi
    rw [hself] at hi
    exact hown.jobs id p hp i (hmem i hi)
  · intro f
    refine due_le rfl ?_ ?_ le_rfl
    · intro hsettle hplace
      refine ⟨hsettle, ?_⟩
      rcases hplace with hlive | ⟨had, hbusy⟩
      · exact .inl hlive
      · refine Or.inr ⟨had, ?_⟩
        unfold busy at hbusy ⊢
        rw [show (popJob e (outKey id)).outs = e.outs from rfl, hid, hself] at hbusy
        rw [hid, hq, any_cons, Bool.or_eq_true]
        exact .inr hbusy
    · rw [hid, hself, hq]
      exact (sublist_cons_self j rest).countP_le
  · intro i hi f o ref hkind
    rw [hself] at hi
    have hold := h.jobs _ i (hmem i hi) p f o ref (hown.jobs id p hp i (hmem i hi)) hkind
    exact ⟨hold.ended, hold.outcome, hold.ref_eq, hold.called, hold.returned⟩

theorem Accounts.pop_inbound (h : Accounts e calls given nils told) (hside : Sided e)
    (i : PacketID) : Accounts (popJob e (inKey i)) calls given nils told := by
  have hother : ∀ k, k ≠ inKey i → (popJob e (inKey i)).queues k = e.queues k := by
    intro k hk
    simp only [popJob, update_of_ne hk]
  refine h.congr (fun _ => ⟨rfl, rfl, rfl, rfl, rfl, rfl⟩)
    (fun i' => hother _ (Owners.outKey_ne_inKey i' i)) ?_ (fun _ => rfl) rfl rfl rfl
  intro i' j' hj'
  by_cases hi : inKey i' = inKey i
  · rw [hi, popJob_self] at hj'
    exact hside i j' (mem_of_mem_tail hj')
  · rw [hother _ hi] at hj'
    exact hside i' j' hj'

/-- A flow with no write and no place in the session is owed nothing. -/
theorem due_gone {e' : Engine} (hid : (e'.outs p).id = (e.outs p).id)
    (hempty : e'.queues (outKey (e.outs p).id) = []) (hout : e'.out.get (e.outs p).id ≠ some p)
    (hdropped : e'.dropped = e.dropped) (f : SettleFn) : due e' p f ≤ due e p f := by
  refine due_le hid ?_ (by rw [hempty]; exact Nat.zero_le _) (by rw [hdropped])
  rintro - (hlive | ⟨-, hbusy⟩)
  · exact absurd hlive hout
  · unfold busy at hbusy
    rw [hid, hempty] at hbusy
    cases hbusy

theorem dropNew_refs (e : Engine) (p : OutPtr) (err : ℕ) : (dropNew e p err).refs =
    if (e.outs p).ref ≠ [] then e.refs.del (e.outs p).ref else e.refs := by
  have hcancel : ∀ d : Engine,
      (cancelLocked d (outKey (e.outs p).id) (.out p)).refs = d.refs := by
    intro d
    unfold cancelLocked
    split <;> rfl
  have hrelease : ∀ (d : Engine) i o, (releaseLocked d i o).refs = d.refs := by
    intro d i o
    obtain ⟨ids, stuck, heq⟩ := releaseLocked_eq d i o
    rw [heq]
  unfold dropNew
  simp only
  rw [hrelease]
  split
  · simp only [setOut, unlinkLocked]
    exact congrArg (FiniteMap.del · _) (hcancel _)
  · simp only [setOut, unlinkLocked]
    exact hcancel _

/-- A failed first Put takes the flow, its Settle and its writes back. -/
theorem Accounts.dropNew (h : Accounts e calls given nils told) (hown : Owners e held reserved own)
    (hp : own id = some p) (hf : e.failure = none) (hq : e.queues (outKey id) = j :: rest)
    (err : ℕ) :
    Accounts (popJob (dropNew e p err) (outKey id)) calls given nils told := by
  have hid := (hown.ptr id p hp).2
  have hafter := hown.dropNew hp hf hq err
  have hempty : (popJob (Program.dropNew e p err) (outKey id)).queues (outKey id) = [] :=
    hafter.empty id (update_self ..)
  obtain ⟨d, heq, ht, hout, hself, -, -, -⟩ := dropNew_eq e p err
  have hdropped := (Acts.dropNew e p err).dropped
  rw [hid] at heq ht hout
  obtain ⟨ids, stuck, hrel⟩ := releaseLocked_eq d id .publish
  have hfields : (popJob (Program.dropNew e p err) (outKey id)).outs = d.outs ∧
      (popJob (Program.dropNew e p err) (outKey id)).out = d.out := by
    rw [heq, hrel]
    exact ⟨rfl, rfl⟩
  have hsolo : Solo e (popJob (Program.dropNew e p err) (outKey id)) p id := by
    refine ⟨?_, ?_, ?_, ?_, ?_, ?_, ?_, ?_, ?_, ?_⟩
    · rw [hfields.1]
      exact ht.outs
    · rw [hfields.1]
      exact ht.id_eq
    · rw [hfields.1]
      exact ht.ref_eq
    · intro hfin
      rw [hfields.1, hself]
      exact ⟨rfl, rfl⟩
    · intro k hk
      rw [heq, hrel]
      simp only [popJob, update_of_ne hk]
      exact ht.queues k hk
    · intro i hi
      rw [hempty] at hi
      cases hi
    · rw [hfields.2]
      exact ht.out
    · rw [heq, hrel]
      exact ht.nextOut
    · rw [heq, hrel]
      exact congrArg Statics.epoch ht.statics
    · exact hdropped
  refine h.still hsolo (hown.ptr id p hp).1 ?_ ?_ ?_
  · refine due_gone (by rw [hfields.1]; exact ht.id_eq) (by rw [hid]; exact hempty) ?_ hdropped
    rw [hid, hfields.2, hout]
    simp
  · intro i hi
    rw [hempty] at hi
    cases hi
  · rw [hfields.1, hself]
    exact h.ready p

/-- The settle-and-delete at the head of a queue is of this epoch, so its adopter is
still owed an outcome. -/
theorem owed_adopted (hid : (e.outs p).id = id) (hq : e.queues (outKey id) = [j])
    (howner : j.owner = .out p) (hep : j.epoch = e.epoch) (had : (e.outs p).adopted = true)
    {f : SettleFn} (hs : (e.outs p).settle = some f) : owed e p f = 1 := by
  unfold owed
  refine if_pos ⟨hs, .inr ⟨had, ?_⟩⟩
  unfold busy
  rw [hid, hq]
  simp [howner, hep]

section

variable (h : Accounts e calls given nils told) (hown : Owners e held reserved own)
  (hp : own id = some p)
include h hown hp

/-- A settle-and-delete for an adopter follows the one that ended. -/
theorem Accounts.resettle (hq : e.queues (outKey id) = [j]) (hep : j.epoch = e.epoch)
    (hfin : (e.outs p).finished = true) (hout : e.out.get id ≠ some p)
    (had : (e.outs p).adopted = true) {d : Engine} (ht : Touches e d p id) (extra : List Job)
    (hqd : d.queues (outKey id) = j :: extra)
    (hextra : ∀ i ∈ extra, isSettle i.kind = false ∧ i.owner = .out p)
    (hd : (d.outs p).settle = (e.outs p).settle ∧ (d.outs p).err = (e.outs p).err)
    (hkeep : d.dropped = e.dropped) :
    Accounts (popJob (settleLocked (setOut d p fun o => { o with adopted := false }) p) (outKey id))
      calls given nils told := by
  have hid := (hown.ptr id p hp).2
  have howner : j.owner = .out p := hown.jobs id p hp j (head_mem hq)
  obtain ⟨g, hg⟩ : ∃ g, setOut d p (fun o => { o with adopted := false }) = g := ⟨_, rfl⟩
  have hgp : g.outs p = { d.outs p with adopted := false } := by rw [← hg]; simp [setOut]
  have hgid : (g.outs p).id = id := by rw [hgp]; exact ht.id_eq.trans hid
  have hgq : g.queues = d.queues := by rw [← hg]; rfl
  have htg : Touches e g p id := by
    rw [← hg]
    exact ht.trans (Touches.setOut d p id (fun o => { o with adopted := false }) rfl rfl
      (fun h => h))
  obtain ⟨hself, hqueue⟩ := settleLocked_self g p
  rw [hgid, hgq, hqd] at hqueue
  rw [hgp] at hself hqueue
  have hts := Touches.settleLocked g p
  rw [hgid] at hts
  rw [hg]
  have hpop : (popJob (settleLocked g p) (outKey id)).queues (outKey id) = extra ++
      [⟨.settle (e.outs p).settle (e.outs p).err (e.outs p).ref, .out p, g.epoch, .queued⟩] := by
    rw [popJob_self, hqueue, cons_append, tail_cons]
    simp only [hd.1, hd.2, ht.ref_eq]
  have houts : (popJob (settleLocked g p) (outKey id)).outs p =
      { d.outs p with adopted := false, settling := true } := hself
  have hdrop : (popJob (settleLocked g p) (outKey id)).dropped = e.dropped := by
    show (settleLocked g p).dropped = e.dropped
    rw [(settleLocked_keeps g p).2.2.2, ← hg]
    exact hkeep
  have hmem : ∀ i ∈ (popJob (settleLocked g p) (outKey id)).queues (outKey id),
    i.owner = .out p := by
    intro i hi
    rw [hpop] at hi
    rcases mem_append.mp hi with hi | hi
    · exact (hextra i hi).2
    · cases mem_singleton.mp hi
      rfl
  refine h.still (Solo.of_touches ((htg.trans hts).trans (Touches.popJob _ p id))
    (fun _ => by rw [houts]; exact hd.2) hmem hdrop) (hown.ptr id p hp).1 ?_ ?_ ?_
  · refine due_settled hid (by rw [houts]; exact ht.id_eq.trans hid)
      (fun f hs => owed_adopted hid hq howner hep had hs) ?_ (by rw [houts])
      (fun i hi => (hextra i hi).1) hpop hdrop
    intro hcon
    exact hout (((htg.trans hts).trans (Touches.popJob _ p id)).out id p hcon)
  · intro i hi f o ref hkind
    rw [hpop] at hi
    rcases mem_append.mp hi with hi | hi
    · have hno := (hextra i hi).1
      rw [hkind] at hno
      cases hno
    · cases mem_singleton.mp hi
      simp only [JobKind.settle.injEq] at hkind
      obtain ⟨rfl, rfl, rfl⟩ := hkind
      refine ⟨?_, ?_, ?_, fun _ => h.ready p had, fun _ hpass => hpass.elim⟩
      all_goals rw [houts]
      · exact ht.finished hfin
      · exact hd.2
      · exact ht.ref_eq
  · rw [houts]
    intro hcon
    cases hcon

/-- The settle-and-delete of a flow ended, and nothing of the flow is owed any more. -/
theorem Accounts.ended {d : Engine} (hs : Solo e d p id)
    (hq : ∀ i ∈ d.queues (outKey id), isSettle i.kind = false) (hout : e.out.get id ≠ some p)
    (had : (d.outs p).adopted = false) : Accounts d calls given nils told := by
  have hid := (hown.ptr id p hp).2
  refine h.still_idle hs (hown.ptr id p hp).1 hid hq (fun f => ?_) (by simp [had])
  have hzero : owed d p f = 0 := by
    unfold owed
    rw [if_neg]
    rintro ⟨-, hlive | ⟨hcon, -⟩⟩
    · rw [hs.id_eq, hid] at hlive
      exact hout (hs.out id p hlive)
    · rw [had] at hcon
      cases hcon
  omega

/-- The end of a settle-and-delete. -/
theorem Accounts.settled (hq : e.queues (outKey id) = [j]) (hep : j.epoch = e.epoch)
    (hfin : (e.outs p).finished = true) (hout : e.out.get id ≠ some p) (failed : Bool) :
    Accounts (popJob (settleAfter (setOut e p fun o => { o with settling := false }) p failed)
      (outKey id)) calls given nils told := by
  obtain ⟨d, extra, hw, hnil, heq⟩ := settleAfter_woundUp (hown.ptr id p hp).2 hq failed
  obtain ⟨phase, outcome, hdp⟩ := hw.flow
  rw [heq]
  by_cases had : (e.outs p).adopted = true
  · rw [if_pos had]
    exact h.resettle hown hp hq hep hfin hout had hw.touches extra hw.queue hw.puts
      (by rw [hdp]; exact ⟨rfl, rfl⟩) hw.dropped
  have had' : (d.outs p).adopted = false := by rw [hdp]; simpa using had
  -- Given up or kept, the flow has no write left that calls anything.
  have hpop : ∀ g : Engine, Touches d g p id → g.queues = d.queues → g.dropped = d.dropped →
      (g.outs p).err = (d.outs p).err → Solo e (popJob g (outKey id)) p id ∧
        ∀ i ∈ (popJob g (outKey id)).queues (outKey id), isSettle i.kind = false := by
    intro g ht hqueues hdropped herr
    have hextra : (popJob g (outKey id)).queues (outKey id) = extra := by
      rw [popJob_self, hqueues, hw.queue, tail_cons]
    refine ⟨Solo.of_touches ((hw.touches.trans ht).trans (Touches.popJob _ p id)) (fun _ => ?_) ?_
      (hdropped.trans hw.dropped), ?_⟩
    · exact herr.trans (by rw [hdp])
    · rw [hextra]
      exact fun i hi => (hw.puts i hi).2
    · rw [hextra]
      exact fun i hi => (hw.puts i hi).1
  rw [if_neg had]
  cases failed with
  | false =>
    obtain ⟨orphans, hgive, htd, -⟩ :=
      popJob_giveUp (hw.touches.id_eq.trans (hown.ptr id p hp).2) (outKey id)
    obtain ⟨ids, stuck, hrel⟩ :=
      releaseLocked_eq (popJob { d with orphans := orphans } (outKey id)) id .publish
    obtain ⟨hsolo, hno⟩ := hpop _ htd rfl rfl rfl
    rw [if_neg Bool.false_ne_true, hgive]
    refine h.ended hown hp (hsolo.release id .publish) ?_ hout ?_
    · rw [hrel]
      exact hno
    · rw [hrel]
      exact had'
  | true =>
    obtain ⟨hsolo, hno⟩ := hpop (setOut d p fun o => { o with settle := none })
      (Touches.setOut d p id _ rfl rfl (fun h => h)) rfl rfl (by simp [setOut])
    exact h.ended hown hp hsolo hno hout (by simpa [popJob, setOut] using had')

end

end Ends

/-! ### The failure of the session -/

section Fails

variable {calls given : List (OutPtr × SettleFn)} {nils : List OutPtr}
  {told : List (OutPtr × Option PubErr)} {e : Engine}

theorem failLocked_dropped (err : StoreError) (h : e.failure = none) :
    (failLocked e err).dropped = e.dropped ++ failDrops e err := by
  rw [failLocked_eq e err h]

theorem toDrop_append (l l' : List (OutPtr × SettleFn × PubErr)) (p : OutPtr) (f : SettleFn) :
    toDrop (l ++ l') p f = toDrop l p f + toDrop l' p f := countP_append

theorem toDrop_filterMap (g : OutPtr → Option SettleFn) (err : PubErr) (p : OutPtr) (f : SettleFn)
    (l : List OutPtr) : toDrop (l.filterMap fun q => (g q).map fun f => (q, f, err)) p f =
      if g p = some f then l.count p else 0 := by
  induction l with
  | nil => simp [toDrop]
  | cons q rest ih =>
    have hcount : (q :: rest).count p = rest.count p + if q = p then 1 else 0 := by
      rw [count_cons]
      simp
    rw [filterMap_cons, hcount]
    cases hg : g q with
    | none =>
      simp only [Option.map_none]
      rw [ih]
      by_cases hq : q = p
      · subst hq
        simp [hg]
      · simp [hq]
    | some f' =>
      simp only [Option.map_some]
      rw [show toDrop ((q, f', err) :: rest.filterMap fun q => (g q).map fun f => (q, f, err)) p f =
        toDrop (rest.filterMap fun q => (g q).map fun f => (q, f, err)) p f +
          if q = p ∧ f' = f then 1 else 0 by simp [toDrop, countP_cons], ih]
      by_cases hq : q = p
      · subst hq
        rw [hg]
        by_cases hf : f' = f
        · simp [hf]
        · simp [hf]
      · simp [hq]

/-- A map whose values have one key each is ranged over without repetition. -/
theorem count_vals_le (m : FiniteMap Bytes OutPtr) (p : OutPtr)
    (hinj : ∀ r r', m.get r = some p → m.get r' = some p → r = r') : m.vals.count p ≤ 1 := by
  have hkeys : (m.toList.map Prod.fst).Nodup := m.nodup_keys
  have hmem : ∀ x ∈ m.toList, x.2 = p → m.get x.1 = some p := by
    rintro ⟨r, q⟩ hx rfl
    exact (m.mem_toList r q).mp hx
  unfold FiniteMap.vals
  generalize m.toList = l at hkeys hmem
  induction l with
  | nil => simp
  | cons x rest ih =>
    rw [map_cons, nodup_cons] at hkeys
    rw [map_cons, count_cons]
    by_cases hx : x.2 = p
    · have hzero : (rest.map Prod.snd).count p = 0 := by
        rw [count_eq_zero, mem_map]
        rintro ⟨y, hy, hyp⟩
        have hkey := hinj x.1 y.1 (hmem x mem_cons_self hx)
          (hmem y (.tail _ hy) hyp)
        exact hkeys.1 (hkey ▸ mem_map_of_mem hy)
      rw [hzero]
      simp [hx]
    · have := ih hkeys.2 fun y hy => hmem y (.tail _ hy)
      simp [hx, this]

/-- The calls a failure makes for one flow. -/
def failCalls (e : Engine) (p : OutPtr) (f : SettleFn) : ℕ :=
  if (e.outs p).settle = some f ∧ (e.out.get (e.outs p).id = some p ∨
    e.orphans.get (e.outs p).ref = some p ∧
      ((e.outs p).adopted = true ∨ (e.outs p).settling = false)) then 1 else 0

/-- A failure has to call the Settle of a flow at most once. -/
theorem toDrop_failLocked (hf : e.failure = none) (ho : (sendQueue e).Ordered [])
    (horph : ∀ r p, e.orphans.get r = some p → (e.outs p).finished = true ∧ (e.outs p).ref = r)
    (err : StoreError) (p : OutPtr) (f : SettleFn) :
    toDrop (failLocked e err).dropped p f ≤ toDrop e.dropped p f + failCalls e p f := by
  rw [failLocked_dropped err hf, failDrops, toDrop_append, toDrop_append, toDrop_filterMap,
    toDrop_filterMap]
  have hperm : (sortByPubSeq e (e.pub ++ e.rel)).Perm (e.pub ++ e.rel) :=
    perm_insertionSort _ _
  rw [hperm.count_eq]
  have hnodup : (e.pub ++ e.rel).Nodup := by
    have := ho.nodup
    rwa [SendQueue.listed, append_nil] at this
  have hlive : p ∈ e.pub ++ e.rel → e.out.get (e.outs p).id = some p ∧
    (e.outs p).finished = false := by
    intro hmem
    have hl : (sendQueue e).Live p := (ho.mem p).mp (by
      rw [SendQueue.listed, append_nil]
      exact hmem)
    exact ⟨(ho.get _ p).mpr ⟨hl, rfl⟩, hl.2⟩
  have hvals : e.orphans.vals.count p ≤ 1 := count_vals_le _ p fun r r' hr hr' =>
    (horph r p hr).2.symm.trans (horph r' p hr').2
  unfold failCalls orphanSettle
  by_cases hmem : p ∈ e.pub ++ e.rel
  · -- A live flow has not ended, so it is not kept as well.
    obtain ⟨hget, hfin⟩ := hlive hmem
    have hzero : e.orphans.vals.count p = 0 := by
      rw [count_eq_zero, FiniteMap.mem_vals]
      rintro ⟨r, hr⟩
      have := (horph r p hr).1
      rw [hfin] at this
      cases this
    rw [count_eq_one_of_mem hnodup hmem, hzero]
    by_cases hs : (e.outs p).settle = some f
    · simp [hs, hget]
    · simp [hs]
  · rw [count_eq_zero_of_not_mem hmem]
    by_cases hin : p ∈ e.orphans.vals
    · obtain ⟨r, hr⟩ := (FiniteMap.mem_vals _ p).mp hin
      have href : e.orphans.get (e.outs p).ref = some p := by rw [(horph r p hr).2]; exact hr
      by_cases hs : (e.outs p).settle = some f
      · by_cases hwait : (e.outs p).adopted = true ∨ (e.outs p).settling = false
        · have hcond : (e.outs p).adopted = true ∨ ¬ (e.outs p).settling = true := by
            simpa using hwait
          rw [if_pos hcond]
          simp only [hs, if_true, true_and]
          rw [if_pos (.inr ⟨href, hwait⟩)]
          omega
        · have hcond : ¬ ((e.outs p).adopted = true ∨ ¬ (e.outs p).settling = true) := by
            simpa using hwait
          rw [if_neg hcond]
          simp
      · have hno : (if (e.outs p).adopted = true ∨ ¬ (e.outs p).settling = true then
            (e.outs p).settle else none) ≠ some f := by
          split
          · exact hs
          · simp
        rw [if_neg hno]
        simp
    · rw [count_eq_zero_of_not_mem hin]
      simp

theorem Accounts.fail (h : Accounts e calls given nils told) (hf : e.failure = none)
    (ho : (sendQueue e).Ordered [])
    (horph : ∀ r p, e.orphans.get r = some p → (e.outs p).finished = true ∧ (e.outs p).ref = r)
    (hep : ∀ k, ∀ j ∈ e.queues k, j.epoch ≤ e.epoch)
    (hcalls : ∀ p f, calls.count (p, f) + failCalls e p f +
      (e.queues (outKey (e.outs p).id)).countP (willCall p f) + toDrop e.dropped p f ≤
        given.count (p, f)) (err : StoreError) :
    Accounts (failLocked e err) calls given nils told := by
  have hdrop := toDrop_failLocked hf ho horph err
  have heq := failLocked_eq e err hf
  have hout : ∀ q, (failLocked e err).outs q = if q ∈ e.pub ++ e.rel then
      failedFlow err ((e.pub ++ e.rel).count q) (e.outs q) else e.outs q := by
    intro q
    rw [heq]
  have hover : ∀ q, (e.outs q).finished = true → (failLocked e err).outs q = e.outs q := by
    intro q hfin
    rw [hout, if_neg]
    intro hmem
    have hl : (sendQueue e).Live q := (ho.mem q).mp (by
      rw [SendQueue.listed, append_nil]
      exact hmem)
    have hlive : (e.outs q).finished = false := hl.2
    rw [hfin] at hlive
    cases hlive
  have hsame : ∀ q, ((failLocked e err).outs q).id = (e.outs q).id ∧
      ((failLocked e err).outs q).settle = (e.outs q).settle ∧
      ((failLocked e err).outs q).adopted = (e.outs q).adopted := by
    intro q
    rw [hout]
    split
    · exact ⟨rfl, rfl, rfl⟩
    · exact ⟨rfl, rfl, rfl⟩
  have hqueues : (failLocked e err).queues = e.queues := by rw [heq]
  have hepoch : (failLocked e err).epoch = e.epoch + 1 := by rw [heq]
  refine ⟨?_, ?_, ?_, ?_, ?_⟩
  · intro p f
    have howed : owed (failLocked e err) p f = 0 := by
      unfold owed
      rw [if_neg]
      rintro ⟨-, hlive | ⟨-, hbusy⟩⟩
      · rw [heq] at hlive
        simp at hlive
      · unfold busy at hbusy
        rw [hqueues, hepoch] at hbusy
        obtain ⟨j, hj, hcond⟩ := any_eq_true.mp hbusy
        have hle := hep _ j hj
        have hcond := of_decide_eq_true hcond
        omega
    have hd := hdrop p f
    have hc := hcalls p f
    unfold due
    rw [howed, (hsame p).1, hqueues]
    omega
  · intro x hx
    rw [heq]
    exact h.known x hx
  · intro k j hj p f o ref howner hkind
    rw [hqueues] at hj
    have hold := h.jobs k j hj p f o ref howner hkind
    refine ⟨?_, ?_, ?_, hold.called, hold.returned⟩
    all_goals rw [hover p hold.ended]
    · exact hold.ended
    · exact hold.outcome
    · exact hold.ref_eq
  · intro x hx
    obtain ⟨hlt, hfin, herr⟩ := h.told x hx
    rw [hover x.1 hfin]
    refine ⟨?_, hfin, herr⟩
    rw [heq]
    exact hlt
  · intro p
    rw [(hsame p).2.1, (hsame p).2.2]
    exact h.ready p

/-- What a failure calls was owed. -/
theorem failCalls_le {reserved : ℕ} (hown : Owners e held reserved own) (hf : e.failure = none)
    (p : OutPtr) (f : SettleFn) : failCalls e p f ≤ owed e p f := by
  unfold failCalls
  split
  · rename_i hcond
    obtain ⟨hs, hplace⟩ := hcond
    unfold owed
    rw [if_pos]
    refine ⟨hs, ?_⟩
    rcases hplace with hlive | ⟨hr, hwait⟩
    · exact .inl hlive
    · obtain ⟨hp, hfin, -, -⟩ := hown.orphan _ p hr
      have hslot := hown.slot _ p hp hf
      cases hset : (e.outs p).settling with
      | false =>
        rw [(hslot.kept hfin hset).1] at hs
        cases hs
      | true =>
        rw [hset] at hwait
        refine Or.inr ⟨hwait.resolve_right (by simp), ?_⟩
        obtain ⟨puts, last, hq, -, -⟩ := hslot.busy hset
        have hlast : last ∈ e.queues (outKey (e.outs p).id) := by
          rw [hq]
          simp
        unfold busy
        rw [any_eq_true]
        exact ⟨last, hlast, decide_eq_true ⟨hslot.owner last hlast, hslot.epoch last hlast⟩⟩
  · exact Nat.zero_le _

/-- The session fails while its flows and their writes are as they are between writes. -/
theorem Accounts.fail_owned {reserved : ℕ} (h : Accounts e calls given nils told)
    (hown : Owners e held reserved own) (hf : e.failure = none) (ho : (sendQueue e).Ordered [])
    (hep : ∀ k, ∀ j ∈ e.queues k, j.epoch ≤ e.epoch) (err : StoreError) :
    Accounts (failLocked e err) calls given nils told := by
  refine h.fail hf ho (fun r p hr => ?_) hep (fun p f => ?_) err
  · obtain ⟨-, hfin, href, -⟩ := hown.orphan r p hr
    exact ⟨hfin, href⟩
  · have hsum := h.sum p f
    have hle := failCalls_le hown hf p f
    unfold due at hsum
    omega

end Fails

/-! ### A whole write -/

/-- The writes of inbound records are apart from those of outbound ones. -/
theorem sided_of_jobInv {e : Engine} (h : JobInv e) : Sided e := by
  intro i j hj
  rw [Bool.eq_false_iff]
  intro hcon
  have hdir := (h.side _ j hj).mp hcon
  cases hdir

section Writes

variable {on : Prop} {s : Sys} {calls given : List (OutPtr × SettleFn)} {nils : List OutPtr}
  {told : List (OutPtr × Option PubErr)} {k : RecordKey} {j : Job} {rest : List Job}
  {res : Option JobErr}

/-- The end of a settle-and-delete whose delete failed, for a flow that has no Ref or that
an adopter waits for. -/
theorem Accounts.deleteFailed {e : Engine} {reserved : ℕ} {p : OutPtr} {id : PacketID}
    (h : Accounts e calls given nils told) (hown : Owners e held reserved own)
    (hp : own id = some p) (hf : e.failure = none) (ho : (sendQueue e).Ordered [])
    (hep : ∀ k, ∀ j ∈ e.queues k, j.epoch = e.epoch) (hq : e.queues (outKey id) = [j])
    (hfin : (e.outs p).finished = true)
    (hcare : (e.outs p).ref ≠ [] → (e.outs p).adopted = true) (err : StoreError) :
    Accounts (failLocked (popJob (setOut e p fun o => { o with settling := false })
      (outKey id)) err)
      calls given nils told := by
  have hid := (hown.ptr id p hp).2
  have hjown : j.owner = .out p := hown.jobs id p hp j (head_mem hq)
  have hnotlive : e.out.get id ≠ some p := by
    intro hcon
    have hlive : (e.outs p).finished = false := (ho.live_of_get hcon).2
    rw [hfin] at hlive
    cases hlive
  obtain ⟨d, hd⟩ : ∃ d, popJob (setOut e p fun o => { o with settling := false }) (outKey id) = d :=
    ⟨_, rfl⟩
  have hdp : d.outs p = { e.outs p with settling := false } := by rw [← hd]; simp [popJob, setOut]
  have hdo : ∀ q, q ≠ p → d.outs q = e.outs q := by
    intro q hne
    rw [← hd]
    simp [popJob, setOut, hne]
  have hempty : d.queues (outKey id) = [] := by
    rw [← hd, popJob_self]
    show (e.queues (outKey id)).tail = []
    rw [hq]
    rfl
  have hother : ∀ k, k ≠ outKey id → d.queues k = e.queues k := by
    intro k hk
    rw [← hd]
    simp only [popJob, update_of_ne hk]
    rfl
  have hmaps : d.out = e.out ∧ d.orphans = e.orphans ∧ d.dropped = e.dropped ∧ d.epoch = e.epoch ∧
      d.failure = e.failure := by
    rw [← hd]
    exact ⟨rfl, rfl, rfl, rfl, rfl⟩
  have ht : Touches e d p id := by
    rw [← hd]
    exact (Touches.setOut e p id (fun o => { o with settling := false }) rfl rfl (fun h => h)).trans
      (Touches.popJob _ p id)
  have hsolo : Solo e d p id := Solo.of_touches ht (fun _ => by rw [hdp])
    (by rw [hempty]; simp) hmaps.2.2.1
  have hacc : Accounts d calls given nils told := by
    refine h.still hsolo (hown.ptr id p hp).1 ?_ (by rw [hempty]; simp) ?_
    · refine due_gone ht.id_eq (by rw [hid]; exact hempty) ?_ hmaps.2.2.1
      rw [hid, hmaps.1]
      exact hnotlive
    · rw [hdp]
      exact h.ready p
  rw [hd]
  refine hacc.fail (hmaps.2.2.2.2.trans hf) ?_ ?_ ?_ ?_ err
  · rw [← hd]
    have hview : sendQueue (popJob (setOut e p fun o => { o with settling := false }) (outKey id)) =
        sendQueue e := by
      show sendQueue (setOut e p fun o => { o with settling := false }) = sendQueue e
      exact sendQueue_setOut_same e p _ rfl
    rw [hview]
    exact ho
  · intro r q hr
    rw [hmaps.2.1] at hr
    obtain ⟨-, hqfin, hqref, -⟩ := hown.orphan r q hr
    by_cases hqp : q = p
    · subst hqp
      rw [hdp]
      exact ⟨hqfin, hqref⟩
    · rw [hdo q hqp]
      exact ⟨hqfin, hqref⟩
  · intro k i hi
    rw [hmaps.2.2.2.1]
    by_cases hk : k = outKey id
    · rw [hk, hempty] at hi
      cases hi
    · rw [hother k hk] at hi
      exact (hep k i hi).le
  · intro q f
    have hsum := h.sum q f
    have hle := failCalls_le hown hf q f
    unfold due at hsum
    by_cases hqp : q = p
    · subst hqp
      rw [hdp, hmaps.2.2.1]
      simp only [hid, hempty, countP_nil]
      rw [hid, hq] at hsum
      have howed : failCalls d q f ≤ owed e q f := by
        unfold failCalls
        split
        · rename_i hcond
          rw [hdp] at hcond
          obtain ⟨hs, hlive | ⟨hr, -⟩⟩ := hcond
          · rw [hmaps.1] at hlive
            simp only [hid] at hlive
            exact absurd hlive hnotlive
          · rw [hmaps.2.1] at hr
            have href : (e.outs q).ref ≠ [] := (hown.orphan _ q hr).2.2.2
            rw [owed_adopted hid hq hjown (hep _ j (head_mem hq))
              (hcare href) hs]
        · exact Nat.zero_le _
      omega
    · have hsame : failCalls d q f = failCalls e q f := by
        unfold failCalls
        rw [hdo q hqp, hmaps.1, hmaps.2.1]
      have hcount : (d.queues (outKey (d.outs q).id)).countP (willCall q f) ≤
          (e.queues (outKey (e.outs q).id)).countP (willCall q f) := by
        rw [hdo q hqp]
        by_cases hk : outKey (e.outs q).id = outKey id
        · rw [hk, hempty]
          exact Nat.zero_le _
        · rw [hother _ hk]
      rw [hsame, hmaps.2.2.1]
      omega

/-- INTERNAL: **The end of a write**. The one case left out is a delete that failed after its
Settle, for a flow with a Ref that nobody adopted. -/
theorem Accounts.finish (hc : Core on s) (h : Accounts s.eng calls given nils told)
    (hq : s.eng.queues k = j :: rest) (hstage : j.stage = .ran res)
    (hcare : ∀ f o ref p err, j.kind = .settle f o ref → j.owner = .out p →
      res = some (.store err) → j.epoch = s.eng.epoch → ref ≠ [] → (s.eng.outs p).adopted = true) :
    Accounts (finishJob s.eng k j res) calls given nils told := by
  obtain ⟨own, hown⟩ := hc.owners
  have hside := sided_of_jobInv hc.jobs
  have hpop : Accounts (popJob s.eng k) calls given nils told := by
    rcases Owners.key_cases k with hk | hk
    · rw [hk] at hq ⊢
      obtain ⟨p, hp, -⟩ := hown.queue_owned hq
      exact h.pop hown hp hq
    · rw [hk]
      exact h.pop_inbound hside _
  have hfail : s.eng.failure = none → isSettle j.kind = false → ∀ err,
      Accounts (failLocked (popJob s.eng k) err) calls given nils told := by
    intro hf hj err
    refine hpop.fail_owned (hown.popped hq fun _ => hj) hf hc.ordered ?_ err
    intro k' i hi
    obtain ⟨i', hi', -, -, hie⟩ := subJobs_popJob s.eng k k' i hi
    exact (hie ▸ hc.jobs.current hf k' i' hi').le
  have hcases := hc.finished hown hq hstage
  generalize finishJob s.eng k j res = e' at hcases
  cases hcases with
  | gone => exact hpop
  | failed err hf hj => exact hfail hf hj err
  | dropNew err hf hp => exact h.dropNew hown hp hf hq err
  | settled failed hf hs =>
    exact h.settled hown hs.holder hs.queue hs.epoch hs.finished (by rw [hs.out]; simp) failed
  | deleteFailed c err hf hs =>
    obtain ⟨f, o, hkind⟩ := hs.kind
    exact h.deleteFailed hown hs.holder hf hc.ordered (hc.jobs.current hf) hs.queue hs.finished
      (hcare f o _ _ c hkind hs.owner rfl hs.epoch) err

end Writes

end Mqttv5.Analysis
