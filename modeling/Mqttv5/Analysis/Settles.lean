import Mqttv5.Analysis.Session

/-!
# The account of the Settle functions

A Settle that was given to a flow is still owed to it (the flow is live, or adopted while it is
being settled), waits in a write, or is to be called because the session failed. `due` counts
these places; together with the calls already made they are never more than the times the
Settle was given to the flow. The writes carry the outcome of their flow, and the delete of a
record with a Ref comes after its Settle has returned nil.
-/

set_option autoImplicit false

namespace Mqttv5.Analysis

open Mqttv5.Computation Model Program Interface List
open Function (update_of_ne update_self)

variable {p : OutPtr} {f : SettleFn}

/-- A write that will call Settle `f` for the flow at `p`. -/
def willCall (p : OutPtr) (f : SettleFn) (j : Job) : Bool :=
  match j.kind with
  | .settle g _ _ => j.owner = .out p ∧ j.stage = .queued ∧ g = some f
  | _ => false

/-- The flow at `p` has a write of the present session. -/
def busy (e : Engine) (p : OutPtr) : Bool :=
  (e.queues (outKey (e.outs p).id)).any fun j => j.owner = .out p ∧ j.epoch = e.epoch

/-- Settle `f` is the flow's and no write has taken it yet. -/
def owed (e : Engine) (p : OutPtr) (f : SettleFn) : ℕ :=
  if (e.outs p).settle = some f ∧ (e.out.get (e.outs p).id = some p ∨
    (e.outs p).adopted = true ∧ busy e p = true) then 1 else 0

/-- The calls of a failure that has happened. -/
def toDrop (l : List (OutPtr × SettleFn × PubErr)) (p : OutPtr) (f : SettleFn) : ℕ :=
  l.countP fun d => d.1 = p ∧ d.2.1 = f

/-- How often Settle `f` may still be called for the flow at `p`. -/
def due (e : Engine) (p : OutPtr) (f : SettleFn) : ℕ :=
  owed e p f + (e.queues (outKey (e.outs p).id)).countP (willCall p f) + toDrop e.dropped p f

/-- The Settle of the write has returned nil. -/
def passed : Stage → Prop
  | .settled => True
  | .ran none => True
  | .ran (some (.store _)) => True
  | _ => False

/-- What a write that settles the flow at `p` carries. -/
structure Settling (e : Engine) (nils : List OutPtr) (p : OutPtr) (j : Job) (f : Option SettleFn)
    (o : Option PubErr) (ref : Bytes) : Prop where
  ended : (e.outs p).finished = true
  outcome : (e.outs p).err = o
  ref_eq : (e.outs p).ref = ref
  called : ref ≠ [] → f ≠ none
  returned : ref ≠ [] → passed j.stage → p ∈ nils

/-- The account: `calls` were made, `given` are the Settles the flows were given, `nils` the
flows for which one has returned nil, and `told` the outcomes the writes have reported. -/
structure Accounts (e : Engine) (calls given : List (OutPtr × SettleFn)) (nils : List OutPtr)
    (told : List (OutPtr × Option PubErr)) : Prop where
  sum : ∀ p f, calls.count (p, f) + due e p f ≤ given.count (p, f)
  known : ∀ x ∈ given, x.1 < e.nextOut
  jobs : ∀ k, ∀ j ∈ e.queues k, ∀ p f o ref, j.owner = .out p → j.kind = .settle f o ref →
    Settling e nils p j f o ref
  told : ∀ x ∈ told, x.1 < e.nextOut ∧ (e.outs x.1).finished = true ∧ (e.outs x.1).err = x.2
  ready : ∀ p, (e.outs p).adopted = true → (e.outs p).settle ≠ none

theorem willCall_eq_false {j : Job} (h : isSettle j.kind = false) :
    willCall p f j = false := by
  unfold willCall
  cases hk : j.kind <;> first | rfl | (rw [hk] at h; cases h)

theorem willCall_of_owner {p q : OutPtr} {j : Job} (h : j.owner = .out p)
    (hq : q ≠ p) : willCall q f j = false := by
  unfold willCall
  cases j.kind with
  | settle g o ref =>
    simp only [h, FlowPtr.out.injEq, decide_eq_false_iff_not, not_and]
    intro hcon
    exact absurd hcon.symm hq
  | _ => rfl

/-- The writes of a flow that is not being settled call no Settle. -/
theorem countP_idle {l : List Job} (h : ∀ j ∈ l, isSettle j.kind = false) (p : OutPtr)
    (f : SettleFn) : l.countP (willCall p f) = 0 := by
  rw [countP_eq_zero]
  intro j hj
  simp [willCall_eq_false (h j hj)]

/-- Only the flow's own part of the state counts. -/
theorem due_le {e e' : Engine} (hid : (e'.outs p).id = (e.outs p).id)
    (howed : (e'.outs p).settle = some f → (e'.out.get (e.outs p).id = some p ∨
      (e'.outs p).adopted = true ∧ busy e' p = true) → (e.outs p).settle = some f ∧
      (e.out.get (e.outs p).id = some p ∨ (e.outs p).adopted = true ∧ busy e p = true))
    (hqueue : (e'.queues (outKey (e.outs p).id)).countP (willCall p f) ≤
      (e.queues (outKey (e.outs p).id)).countP (willCall p f))
    (hdropped : toDrop e'.dropped p f ≤ toDrop e.dropped p f) : due e' p f ≤ due e p f := by
  have hone : owed e' p f ≤ owed e p f := by
    unfold owed
    rw [hid]
    by_cases hcond : (e'.outs p).settle = some f ∧ (e'.out.get (e.outs p).id = some p ∨
        (e'.outs p).adopted = true ∧ busy e' p = true)
    · rw [if_pos hcond, if_pos (howed hcond.1 hcond.2)]
    · rw [if_neg hcond]
      exact Nat.zero_le _
  unfold due
  rw [hid]
  omega

/-- `e'` is `e` after a change of the flow at `p` and of the writes of its record. -/
structure Solo (e e' : Engine) (p : OutPtr) (id : PacketID) : Prop where
  outs : ∀ q, q ≠ p → e'.outs q = e.outs q
  id_eq : (e'.outs p).id = (e.outs p).id
  ref_eq : (e'.outs p).ref = (e.outs p).ref
  ended : (e.outs p).finished = true → (e'.outs p).finished = true ∧
    (e'.outs p).err = (e.outs p).err
  queues : ∀ k, k ≠ outKey id → e'.queues k = e.queues k
  owner : ∀ j ∈ e'.queues (outKey id), j.owner = .out p
  out : ∀ i q, e'.out.get i = some q → e.out.get i = some q
  nextOut : e'.nextOut = e.nextOut
  epoch : e'.epoch = e.epoch
  dropped : e'.dropped = e.dropped

namespace Solo

variable {e e' : Engine} {p q : OutPtr} {id : PacketID} {f : SettleFn}

theorem of_touches (h : Touches e e' p id)
    (hover : (e.outs p).finished = true → (e'.outs p).err = (e.outs p).err)
    (howner : ∀ j ∈ e'.queues (outKey id), j.owner = .out p) (hdropped : e'.dropped = e.dropped) :
    Solo e e' p id :=
  ⟨h.outs, h.id_eq, h.ref_eq, fun hfin => ⟨h.finished hfin, hover hfin⟩, h.queues, howner, h.out,
    h.nextOut,
    same_epoch h.statics, hdropped⟩

/-- A release of an identifier is no part of the account. -/
theorem release (h : Solo e e' p id) (i : PacketID) (o : Owner) :
    Solo e (releaseLocked e' i o) p id := by
  obtain ⟨ids, stuck, heq⟩ := releaseLocked_eq e' i o
  rw [heq]
  exact ⟨h.outs, h.id_eq, h.ref_eq, h.ended, h.queues, h.owner, h.out, h.nextOut, h.epoch,
    h.dropped⟩

/-- Nothing changes for another flow. -/
theorem due_other (h : Solo e e' p id) (hq : q ≠ p) : due e' q f ≤ due e q f := by
  have hsame := h.outs q hq
  have hown : ∀ j ∈ e'.queues (outKey id), willCall q f j = false := fun j hj =>
    willCall_of_owner (h.owner j hj) hq
  refine due_le (by rw [hsame]) ?_ ?_ (by rw [h.dropped])
  · intro hsettle hplace
    rw [hsame] at hsettle hplace
    refine ⟨hsettle, ?_⟩
    rcases hplace with hlive | ⟨had, hbusy⟩
    · exact .inl (h.out _ _ hlive)
    · refine Or.inr ⟨had, ?_⟩
      unfold busy at hbusy ⊢
      rw [hsame, h.epoch] at hbusy
      by_cases hk : outKey (e.outs q).id = outKey id
      · rw [hk] at hbusy
        obtain ⟨j, hj, hcond⟩ := any_eq_true.mp hbusy
        simp only [h.owner j hj, FlowPtr.out.injEq, decide_eq_true_eq] at hcond
        exact absurd hcond.1.symm hq
      · rwa [h.queues _ hk] at hbusy
  · by_cases hk : outKey (e.outs q).id = outKey id
    · rw [hk]
      have hzero : (e'.queues (outKey id)).countP (willCall q f) = 0 := by
        rw [countP_eq_zero]
        intro j hj
        simp [hown j hj]
      rw [hzero]
      exact Nat.zero_le _
    · rw [h.queues _ hk]

end Solo

namespace Accounts

variable {e e' : Engine} {calls given calls' given' : List (OutPtr × SettleFn)}
  {nils nils' : List OutPtr} {told told' : List (OutPtr × Option PubErr)} {p : OutPtr}
  {id : PacketID}

section

variable (h : Accounts e calls given nils told)
include h

/-- A change of one flow, of its writes and of what is recorded about it. -/
theorem solo (hs : Solo e e' p id) (hp : p < e.nextOut)
    (hcalls : ∀ q f, q ≠ p → calls'.count (q, f) = calls.count (q, f))
    (hgiven : ∀ q f, q ≠ p → given'.count (q, f) = given.count (q, f))
    (hknown : ∀ x ∈ given', x ∈ given ∨ x.1 = p)
    (hsum : ∀ f, calls'.count (p, f) + due e' p f ≤ given'.count (p, f))
    (hnils : ∀ q ∈ nils, q ∈ nils')
    (hjobs : ∀ j ∈ e'.queues (outKey id), ∀ f o ref, j.kind = .settle f o ref →
      Settling e' nils' p j f o ref)
    (htold : ∀ x ∈ told', x ∈ told ∨ x.1 = p ∧ (e'.outs p).finished = true ∧
      (e'.outs p).err = x.2) (hready : (e'.outs p).adopted = true → (e'.outs p).settle ≠ none) :
    Accounts e' calls' given' nils' told' := by
  have hover : ∀ q, (e.outs q).finished = true →
      (e'.outs q).finished = true ∧ (e'.outs q).err = (e.outs q).err := by
    intro q hfin
    by_cases hq : q = p
    · rw [hq] at hfin ⊢
      exact hs.ended hfin
    · rw [hs.outs q hq]
      exact ⟨hfin, rfl⟩
  refine ⟨?_, ?_, ?_, ?_, ?_⟩
  · intro q f
    by_cases hq : q = p
    · rw [hq]
      exact hsum f
    · have hold := h.sum q f
      have hdue := hs.due_other (f := f) hq
      rw [hcalls q f hq, hgiven q f hq]
      omega
  · intro x hx
    rw [hs.nextOut]
    rcases hknown x hx with hx | hx
    · exact h.known x hx
    · rw [hx]
      exact hp
  · intro k j hj q f o ref howner hkind
    by_cases hk : k = outKey id
    · rw [hk] at hj
      have hself := hs.owner j hj
      rw [howner] at hself
      cases hself
      exact hjobs j hj f o ref hkind
    · rw [hs.queues k hk] at hj
      have hold := h.jobs k j hj q f o ref howner hkind
      obtain ⟨hfin, herr⟩ := hover q hold.ended
      refine ⟨hfin, herr.trans hold.outcome, ?_, hold.called,
        fun href hpass => hnils q (hold.returned href hpass)⟩
      by_cases hq : q = p
      · rw [hq, hs.ref_eq, ← hq]
        exact hold.ref_eq
      · rw [hs.outs q hq]
        exact hold.ref_eq
  · intro x hx
    rw [hs.nextOut]
    rcases htold x hx with hx | ⟨heq, hfin, herr⟩
    · obtain ⟨hlt, hfin, herr⟩ := h.told x hx
      obtain ⟨hfin', herr'⟩ := hover x.1 hfin
      exact ⟨hlt, hfin', herr'.trans herr⟩
    · rw [heq]
      exact ⟨hp, hfin, herr⟩
  · intro q
    by_cases hq : q = p
    · rw [hq]
      exact hready
    · rw [hs.outs q hq]
      exact h.ready q

/-- A change of one flow that takes no call and gives no Settle. -/
theorem still (hs : Solo e e' p id) (hp : p < e.nextOut) (hdue : ∀ f, due e' p f ≤ due e p f)
    (hjobs : ∀ j ∈ e'.queues (outKey id), ∀ f o ref, j.kind = .settle f o ref →
      Settling e' nils p j f o ref)
    (hready : (e'.outs p).adopted = true → (e'.outs p).settle ≠ none) :
    Accounts e' calls given nils told := by
  refine h.solo hs hp (fun _ _ _ => rfl) (fun _ _ _ => rfl) (fun _ hx => .inl hx) ?_
    (fun _ hq => hq) hjobs (fun _ hx => .inl hx) hready
  intro f
  have hold := h.sum p f
  have hnew := hdue f
  omega

/-- A change of one flow after which it has no write that calls. -/
theorem still_idle (hs : Solo e e' p id) (hp : p < e.nextOut) (hid : (e.outs p).id = id)
    (hidle : ∀ j ∈ e'.queues (outKey id), isSettle j.kind = false)
    (howed : ∀ f, owed e' p f ≤ owed e p f)
    (hready : (e'.outs p).adopted = true → (e'.outs p).settle ≠ none) :
    Accounts e' calls given nils told := by
  refine h.still hs hp (fun f => ?_) (fun j hj f o ref hkind => ?_) hready
  · have hle := howed f
    unfold due
    rw [hs.id_eq, hid, countP_idle hidle, hs.dropped]
    omega
  · have hno := hidle j hj
    rw [hkind] at hno
    cases hno

/-- What no account depends on. -/
theorem congr
    (houts : ∀ q, (e'.outs q).id = (e.outs q).id ∧ (e'.outs q).settle = (e.outs q).settle ∧
      (e'.outs q).adopted = (e.outs q).adopted ∧ (e'.outs q).finished = (e.outs q).finished ∧
      (e'.outs q).err = (e.outs q).err ∧ (e'.outs q).ref = (e.outs q).ref)
    (hqueues : ∀ i, e'.queues (outKey i) = e.queues (outKey i))
    (hin : ∀ i, ∀ j ∈ e'.queues (inKey i), isOutbound j.kind = false)
    (hout : ∀ i, e'.out.get i = e.out.get i) (hnext : e'.nextOut = e.nextOut)
    (hepoch : e'.epoch = e.epoch) (hdropped : e'.dropped = e.dropped) :
    Accounts e' calls given nils told := by
  have hdue : ∀ q f, due e' q f = due e q f := by
    intro q f
    obtain ⟨hid, hsettle, had, -, -, -⟩ := houts q
    unfold due owed busy
    rw [hid, hsettle, had, hqueues, hout, hepoch, hdropped]
  refine ⟨?_, ?_, ?_, ?_, ?_⟩
  · intro q f
    rw [hdue]
    exact h.sum q f
  · rw [hnext]
    exact h.known
  · intro k j hj q f o ref howner hkind
    rcases Owners.key_cases k with hk | hk
    · rw [hk, hqueues] at hj
      have hold := h.jobs _ j hj q f o ref howner hkind
      obtain ⟨-, -, -, hfin, herr, href⟩ := houts q
      exact ⟨hfin.trans hold.ended, herr.trans hold.outcome, href.trans hold.ref_eq, hold.called,
        hold.returned⟩
    · rw [hk] at hj
      have hside := hin _ j hj
      rw [hkind] at hside
      cases hside
  · intro x hx
    obtain ⟨hlt, hfin, herr⟩ := h.told x hx
    obtain ⟨-, -, -, hfin', herr', -⟩ := houts x.1
    rw [hnext]
    exact ⟨hlt, hfin'.trans hfin, herr'.trans herr⟩
  · intro q had
    obtain ⟨-, hsettle, hadopted, -, -, -⟩ := houts q
    rw [hsettle]
    exact h.ready q (hadopted ▸ had)

end

end Accounts

/-! ### Operations on flows that exist -/

theorem settleLocked_keeps (e : Engine) (p : OutPtr) :
    (settleLocked e p).out = e.out ∧ (settleLocked e p).refs = e.refs ∧
    (settleLocked e p).orphans = e.orphans ∧ (settleLocked e p).dropped = e.dropped :=
  ⟨rfl, rfl, rfl, rfl⟩

theorem orphaned_keeps (e : Engine) (p : OutPtr) :
    (orphaned e p).out = e.out ∧ (orphaned e p).refs = e.refs ∧
    (orphaned e p).dropped = e.dropped := by
  unfold orphaned
  split
  · exact ⟨rfl, rfl, rfl⟩
  · exact ⟨rfl, rfl, rfl⟩

/-- The account of a flow whose Settle a new write takes over. -/
theorem due_settled {e e' : Engine} {id : PacketID} {puts : List Job} {ep : ℕ}
    {o : Option PubErr} {ref : Bytes} (hid : (e.outs p).id = id) (hid' : (e'.outs p).id = id)
    (howed : ∀ f, (e.outs p).settle = some f → owed e p f = 1)
    (hnone : e'.out.get id ≠ some p) (had : (e'.outs p).adopted = false)
    (hputs : ∀ j ∈ puts, isSettle j.kind = false) (hq : e'.queues (outKey id) =
      puts ++ [⟨.settle (e.outs p).settle o ref, .out p, ep, .queued⟩])
    (hdropped : e'.dropped = e.dropped) (f : SettleFn) : due e' p f ≤ due e p f := by
  have hzero : owed e' p f = 0 := by
    unfold owed
    rw [if_neg]
    rintro ⟨-, hlive | ⟨hcon, -⟩⟩
    · rw [hid'] at hlive
      exact hnone hlive
    · rw [had] at hcon
      cases hcon
  have hcount : (e'.queues (outKey id)).countP (willCall p f) ≤ owed e p f := by
    rw [hq, countP_append, countP_idle hputs, Nat.zero_add]
    by_cases hsettle : (e.outs p).settle = some f
    · rw [howed f hsettle]
      exact countP_le_length
    · rw [countP_eq_zero.mpr]
      · exact Nat.zero_le _
      · intro j hj
        cases mem_singleton.mp hj
        simp [willCall, hsettle]
  unfold due
  rw [hzero, hid', hid, hdropped]
  omega

/-- The writes of inbound records are not for outbound flows. -/
def Sided (e : Engine) : Prop := ∀ i, ∀ j ∈ e.queues (inKey i), isOutbound j.kind = false

/-- The account, with the holders of the identifiers. -/
def Settled (held : List (PacketID × Owner)) (reserved : ℕ)
    (calls given : List (OutPtr × SettleFn)) (nils : List OutPtr)
    (told : List (OutPtr × Option PubErr)) (e : Engine) : Prop :=
  (∃ own, Owners e held reserved own) ∧ Sided e ∧ Accounts e calls given nils told

section Flows

variable {held : List (PacketID × Owner)} {reserved : ℕ} {own : PacketID → Option OutPtr}
  {calls given : List (OutPtr × SettleFn)} {nils : List OutPtr}
  {told : List (OutPtr × Option PubErr)} {e d : Engine} {p : OutPtr} {id : PacketID}

theorem Sided.quiet {e' : Engine} (h : Sided e) (hq : Quiet e e') : Sided e' := by
  intro i j hj
  rcases hq.jobs.mem_cases hj with hj | hnew
  · exact h i j hj
  · by_contra hcon
    have hout := hnew.2.1.side.mp (by simpa using hcon)
    cases hout

theorem Sided.touch {e' : Engine} (h : Sided e) (ht : Touches e e' p id) : Sided e' := by
  intro i j hj
  rw [ht.queues _ (Owners.outKey_ne_inKey id i).symm] at hj
  exact h i j hj

theorem Accounts.quiet {e' : Engine} (h : Accounts e calls given nils told) (hside : Sided e)
    (hq : Quiet e e') : Accounts e' calls given nils told := by
  refine h.congr ?_ hq.queues (hside.quiet hq) (fun i => by rw [hq.out]) hq.nextOut hq.epoch
    hq.dropped
  intro q
  have hs := hq.outs q
  exact ⟨hs.id, hs.settle, hs.adopted, hs.finished, hs.err, hs.ref⟩

/-- The writes of a flow that has ended are its own. -/
theorem retire_owner (hown : Owners e held reserved own) (hf : e.failure = none)
    (hl : LiveFlow e p id) (hd : Ended e d p id) :
    ∀ j ∈ (retireLocked d p).queues (outKey id), j.owner = .out p := by
  have hp := hown.live id p hl.get
  have hafter := hown.retire hp hf hl.live hd
  intro j hj
  by_cases hcond : (e.outs p).ref = [] ∧ (e.outs p).settle = none ∧ e.cfg.store = false
  · rw [if_pos hcond] at hafter
    rw [hafter.empty id (update_self ..)] at hj
    cases hj
  · rw [if_neg hcond] at hafter
    exact hafter.jobs id p hp j hj

/-- The end of a flow: its Settle goes over to a write. -/
theorem Accounts.retire (h : Accounts e calls given nils told)
    (hown : Owners e held reserved own) (hf : e.failure = none) (hl : LiveFlow e p id)
    (hd : Ended e d p id) : Accounts (retireLocked d p) calls given nils told := by
  have hp := hown.live id p hl.get
  have hslot := hown.slot id p hp hf
  obtain ⟨hset, had⟩ := hslot.live hl.live
  have hidd : (d.outs p).id = id := by rw [hd.touches.id_eq]; exact hl.id_eq
  have hepoch : d.epoch = e.epoch := same_epoch hd.touches.statics
  have hidle := hslot.idle hset
  have howner := retire_owner hown hf hl hd
  have howed : ∀ f, (e.outs p).settle = some f → owed e p f = 1 := by
    intro f hsettle
    unfold owed
    rw [if_pos ⟨hsettle, .inl (by rw [hl.id_eq]; exact hl.get)⟩]
  have hnotover : ∀ {P : Prop}, (e.outs p).finished = true → P := by
    intro P hcon
    rw [hl.live] at hcon
    cases hcon
  have hlt := (hown.ptr id p hp).1
  have hto := hd.touches.trans (Touches.orphaned d p id hd.finished)
  obtain ⟨hkout, hkrefs, -⟩ := orphaned_keeps d p
  have hdropped := (Acts.retireLocked d p).dropped.trans hd.dropped
  have hoid : ((orphaned d p).outs p).id = id := by rw [orphaned_outs]; exact hidd
  rcases retireLocked_cases d p with ⟨-, hsettle, heq⟩ | ⟨-, hsettle, -, heq⟩ | ⟨hbusy, heq⟩
  · -- Nobody has asked for the outcome: it is stored.
    obtain ⟨extra, hq, ⟨-, hextra⟩, ⟨phase, outcome, hout⟩, hcout, -⟩ :=
      completeLocked_keeps (orphaned d p) p
    have htc := Touches.completeLocked (orphaned d p) p
    rw [hoid] at hq htc
    rw [orphaned_outs] at hout
    rw [orphaned_queues, hd.queues] at hq
    have hnosettle : ∀ j ∈ (retireLocked d p).queues (outKey id), isSettle j.kind = false := by
      intro j hj
      rw [heq, hq] at hj
      rcases mem_append.mp hj with hj | hj
      · exact hidle j hj
      · exact (hextra j hj).1
    refine h.still_idle (Solo.of_touches (heq ▸ hto.trans htc) hnotover howner hdropped) hlt
      hl.id_eq hnosettle (fun f => ?_) ?_
    · simp [owed, heq, hout, hsettle]
    · rw [heq, hout]
      intro hcon
      exact absurd (hd.adopted ▸ hcon) (by simp [had])
  · -- Nobody waits for anything: the identifier is free.
    obtain ⟨ids, stuck, hrel⟩ := releaseLocked_eq d (d.outs p).id .publish
    have hsolo : Solo e (retireLocked d p) p id := by
      have hsolo : Solo e d p id := Solo.of_touches hd.touches hnotover (by
        intro j hj
        rw [heq, hrel] at howner
        exact howner j hj) hd.dropped
      rw [heq]
      exact hsolo.release _ _
    refine h.still_idle hsolo hlt hl.id_eq ?_ (fun f => ?_) ?_
    · rw [heq, hrel]
      simp only [hd.queues]
      exact hidle
    · simp [owed, heq, hrel, hsettle]
    · rw [heq, hrel]
      intro hcon
      exact absurd (hd.adopted ▸ hcon) (by simp [had])
  · -- A write takes the Settle and the outcome over.
    obtain ⟨hself, hq⟩ := settleLocked_self (orphaned d p) p
    have hts := Touches.settleLocked (orphaned d p) p
    rw [hoid] at hq hts
    rw [orphaned_outs] at hself hq
    rw [orphaned_queues, hd.queues] at hq
    have hsame : (retireLocked d p).queues (outKey id) = e.queues (outKey id) ++
        [⟨.settle (e.outs p).settle (d.outs p).err (d.outs p).ref, .out p, (orphaned d p).epoch,
          .queued⟩] := by
      rw [heq, hq, hd.settle]
    refine h.still (Solo.of_touches (heq ▸ hto.trans hts) hnotover howner hdropped) hlt ?_ ?_ ?_
    · refine due_settled hl.id_eq ?_ howed ?_ ?_ hidle hsame hdropped
      · rw [heq, hself]
        exact hidd
      · rw [heq, (settleLocked_keeps (orphaned d p) p).1, hkout, hd.out]
        simp
      · rw [heq, hself]
        simp only [hd.adopted]
        exact had
    · intro j hj f o ref hkind
      rw [hsame] at hj
      rcases mem_append.mp hj with hj | hj
      · have hno := hidle j hj
        rw [hkind] at hno
        cases hno
      · cases mem_singleton.mp hj
        simp only [JobKind.settle.injEq] at hkind
        obtain ⟨rfl, rfl, rfl⟩ := hkind
        rw [heq]
        refine ⟨?_, ?_, ?_, ?_, ?_⟩
        · rw [hself]
          exact hd.finished
        · rw [hself]
        · rw [hself]
        · intro href
          rcases hbusy with hsettle | ⟨hcon, -⟩
          · rw [← hd.settle]
            exact hsettle
          · exact absurd hcon href
        · intro _ hpass
          exact hpass.elim
    · rw [heq, hself]
      intro hcon
      exact absurd (hd.adopted ▸ hcon) (by simp [had])

/-- A live flow and its record change. -/
theorem Accounts.rewrite (h : Accounts e calls given nils told)
    (hown : Owners e held reserved own) (hf : e.failure = none) (hl : LiveFlow e p id)
    (hd : Rewritten e d p id) : Accounts (putOutLocked d p) calls given nils told := by
  have hp := hown.live id p hl.get
  have hslot := hown.slot id p hp hf
  have hidle := hslot.idle (hslot.live hl.live).1
  have hafter := hown.rewrite hp hf hl.live hd.touches hd.queues hd.finished hd.settling hd.adopted
    hd.settle hd.ref
  have hidd : (d.outs p).id = id := by rw [hd.touches.id_eq]; exact hl.id_eq
  have htp := Touches.putOutLocked d p
  rw [hidd] at htp
  have hdropped := (Acts.putOutLocked d p).dropped.trans hd.dropped
  have hout : (putOutLocked d p).outs = d.outs ∧ (putOutLocked d p).out = d.out := by
    unfold putOutLocked
    split
    · exact ⟨rfl, rfl⟩
    · exact ⟨rfl, rfl⟩
  have hnosettle : ∀ j ∈ (putOutLocked d p).queues (outKey id), isSettle j.kind = false := by
    have hslot' := hafter.slot id p hp
      ((same_failure ((hd.touches.trans htp).statics)).trans hf)
    refine hslot'.idle ?_
    rw [hout.1, hd.settling]
    exact (hslot.live hl.live).1
  refine h.still_idle (Solo.of_touches (hd.touches.trans htp) ?_ (hafter.jobs id p hp) hdropped)
    (hown.ptr id p hp).1 hl.id_eq hnosettle (fun f => ?_) ?_
  · intro hcon
    rw [hl.live] at hcon
    cases hcon
  · unfold owed
    rw [hout.1, hd.settle]
    split
    · rename_i hcond
      rw [if_pos ⟨hcond.1, .inl (by rw [hl.id_eq]; exact hl.get)⟩]
    · exact Nat.zero_le _
  · rw [hout.1, hd.adopted, hd.settle]
    exact h.ready p

theorem settled_flowRule (held : List (PacketID × Owner)) (reserved : ℕ)
    (calls given : List (OutPtr × SettleFn)) (nils : List OutPtr)
    (told : List (OutPtr × Option PubErr)) :
    FlowRule (Settled held reserved calls given nils told) := by
  have hrule := owners_flowRule held reserved
  refine ⟨?_, ?_, ?_⟩
  · rintro e e' ⟨hown, hside, h⟩ hq
    exact ⟨hrule.quiet e e' hown hq, hside.quiet hq, h.quiet hside hq⟩
  · rintro e d p id ⟨⟨own, hown⟩, hside, h⟩ hf hl hd
    refine ⟨hrule.retire e d p id ⟨own, hown⟩ hf hl hd, ?_, h.retire hown hf hl hd⟩
    intro i j hj
    rcases (adds_retireLocked d p).mem_cases hj with hj | hnew
    · rw [hd.queues_eq] at hj
      exact hside i j hj
    · by_contra hcon
      have hout := hnew.1.1.side.mp (by simpa using hcon)
      cases hout
  · rintro e d p id ⟨⟨own, hown⟩, hside, h⟩ hf hl hd
    refine ⟨hrule.rewrite e d p id ⟨own, hown⟩ hf hl hd, ?_, h.rewrite hown hf hl hd⟩
    have htp := Touches.putOutLocked d p
    rw [show (d.outs p).id = id by rw [hd.touches.id_eq]; exact hl.id_eq] at htp
    exact hside.touch (hd.touches.trans htp)

end Flows

/-! ### Register and Adopt -/

section Producers

variable {held : List (PacketID × Owner)} {reserved : ℕ} {own : PacketID → Option OutPtr}
  {calls given : List (OutPtr × SettleFn)} {nils : List OutPtr}
  {told : List (OutPtr × Option PubErr)} {e : Engine}

/-- A flow that is not there yet has no account. -/
theorem Accounts.unknown (h : Accounts e calls given nils told) (hp : e.nextOut ≤ p)
    (f : SettleFn) : calls.count (p, f) = 0 ∧ given.count (p, f) = 0 ∧ due e p f = 0 := by
  have hgiven : given.count (p, f) = 0 := by
    rw [count_eq_zero]
    intro hmem
    have hlt := h.known _ hmem
    exact absurd hlt (Nat.not_lt_of_le hp)
  have hsum := h.sum p f
  omega

theorem Accounts.register (h : Accounts e calls given nils told) (hside : Sided e)
    (hown : Owners e held reserved own) (m : Message) (now : Time) (hf : e.failure = none)
    (hheld : (m.id, Owner.publish) ∈ held) :
    Accounts (register e m now).1 calls
      (given ++ (m.settle.map fun f => (e.nextOut, f)).toList) nils told := by
  obtain ⟨-, houts, hout, -, -, hdropped, hnext, hepoch, hother, extra, hq, hextra⟩ :=
    register_keeps (e := e) m now hf
  have hempty : e.queues (outKey m.id) = [] := hown.empty m.id (hown.caller m.id _ hheld).1
  have hold : ∀ q, q < e.nextOut → (Program.register e m now).1.outs q = e.outs q := by
    intro q hlt
    rw [houts, update_of_ne hlt.ne]
  have hself : (Program.register e m now).1.outs e.nextOut = newOut e m now := by
    rw [houts, update_self]
  have hnosettle : ∀ j ∈ (Program.register e m now).1.queues (outKey m.id),
      isSettle j.kind = false := by
    intro j hj
    rw [hq, hempty, nil_append] at hj
    rcases hextra with rfl | ⟨-, rfl⟩
    · cases hj
    · cases mem_singleton.mp hj
      rfl
  have hsub : ∀ k, ∀ j ∈ (Program.register e m now).1.queues k, isSettle j.kind = true →
      j ∈ e.queues k := by
    intro k j hj hset
    by_cases hk : k = outKey m.id
    · rw [hk] at hj
      rw [hnosettle j hj] at hset
      cases hset
    · rwa [hother k hk] at hj
  refine ⟨?_, ?_, ?_, ?_, ?_⟩
  · intro p f
    rw [count_append]
    by_cases hp : p = e.nextOut
    · subst hp
      obtain ⟨hcalls, -, hdue⟩ := h.unknown le_rfl f
      have hdrop : toDrop e.dropped e.nextOut f = 0 := by
        unfold due at hdue
        omega
      unfold due
      rw [hcalls, Nat.zero_add, hself, hdropped, hdrop, show (newOut e m now).id = m.id from rfl,
        countP_idle hnosettle, Nat.add_zero]
      unfold owed
      rw [hself]
      split
      · rename_i hcond
        have hsettle : m.settle = some f := hcond.1
        rw [hsettle]
        simp
      · exact Nat.zero_le _
    · -- The new flow leaves the others' places as they are.
      have hsame : (Program.register e m now).1.outs p = e.outs p := by
        rw [houts, update_of_ne hp]
      have hdue : due (Program.register e m now).1 p f ≤ due e p f := by
        refine due_le (by rw [hsame]) ?_ ?_ (by rw [hdropped])
        · intro hsettle hplace
          rw [hsame] at hsettle hplace
          refine ⟨hsettle, ?_⟩
          rcases hplace with hlive | ⟨had, hbusy⟩
          · rw [hout, FiniteMap.get_set] at hlive
            split at hlive
            · exact absurd (Option.some.inj hlive).symm hp
            · exact .inl hlive
          · refine Or.inr ⟨had, ?_⟩
            unfold busy at hbusy ⊢
            rw [hsame, hepoch] at hbusy
            by_cases hk : outKey (e.outs p).id = outKey m.id
            · rw [hk, hq, hempty, nil_append] at hbusy
              rcases hextra with rfl | ⟨-, rfl⟩
              · cases hbusy
              · simp only [any_cons, any_nil, Bool.or_false, FlowPtr.out.injEq,
                  decide_eq_true_eq] at hbusy
                exact absurd hbusy.1.symm hp
            · rwa [hother _ hk] at hbusy
        · by_cases hk : outKey (e.outs p).id = outKey m.id
          · rw [hk, countP_idle hnosettle]
            exact Nat.zero_le _
          · rw [hother _ hk]
      have hsum := h.sum p f
      omega
  · intro x hx
    rw [hnext]
    rcases mem_append.mp hx with hx | hx
    · exact Nat.lt_succ_of_lt (h.known x hx)
    · cases hs : m.settle with
      | none =>
        rw [hs] at hx
        cases hx
      | some f =>
        rw [hs] at hx
        cases mem_singleton.mp hx
        exact Nat.lt_succ_self _
  · intro k j hj p f o ref howner hkind
    have hin := hsub k j hj (by rw [hkind]; rfl)
    have hold' := h.jobs k j hin p f o ref howner hkind
    have hlt : p < e.nextOut := by
      rcases Owners.key_cases k with hk | hk
      · rw [hk] at hin
        cases hid : own k.packetID with
        | none =>
          rw [hown.empty _ hid] at hin
          cases hin
        | some q =>
          have hq := hown.jobs _ q hid j hin
          rw [howner] at hq
          cases hq
          exact (hown.ptr _ p hid).1
      · rw [hk] at hin
        have hcon := hside _ j hin
        rw [hkind] at hcon
        cases hcon
    refine ⟨?_, ?_, ?_, hold'.called, hold'.returned⟩
    all_goals rw [hold p hlt]
    · exact hold'.ended
    · exact hold'.outcome
    · exact hold'.ref_eq
  · intro x hx
    obtain ⟨hlt, hfin, herr⟩ := h.told x hx
    rw [hnext, hold x.1 hlt]
    exact ⟨Nat.lt_succ_of_lt hlt, hfin, herr⟩
  · intro p
    by_cases hp : p = e.nextOut
    · rw [hp, hself]
      intro hcon
      cases hcon
    · rw [houts, update_of_ne hp]
      exact h.ready p

/-- The flow an Adopt of `ref` finds. -/
def adoptee (e : Engine) (ref : Bytes) : Option OutPtr :=
  match e.refs.get ref with
  | some p => some p
  | none => e.orphans.get ref

/-- What Adopt does to the flow it finds: a live one gets the Settle, one being settled
gets it next, and one whose outcome was kept is settled with it. -/
theorem adopt_cases (ho : (sendQueue e).Ordered []) (ref : Bytes) (f : SettleFn) :
    (adoptee e ref = none ∧ adopt e ref f = (e, false)) ∨
    (∃ p, adoptee e ref = some p ∧ e.out.get (e.outs p).id = some p ∧
      adopt e ref f = (setOut e p fun o => { o with settle := some f }, true)) ∨
    (∃ p, adoptee e ref = some p ∧ e.orphans.get ref = some p ∧ (e.outs p).settling = true ∧
      adopt e ref f = (setOut (setOut e p fun o => { o with settle := some f }) p fun o =>
        { o with adopted := true }, true)) ∨
    ∃ p, adoptee e ref = some p ∧ e.orphans.get ref = some p ∧ (e.outs p).settling = false ∧
      adopt e ref f = (settleLocked (setOut e p fun o => { o with settle := some f }) p, true) := by
  unfold adoptee Program.adopt
  cases hrefs : e.refs.get ref with
  | some p =>
    obtain ⟨hlive, -⟩ := ho.refs ref p hrefs
    exact .inr (.inl ⟨p, rfl, (ho.get _ p).mpr ⟨hlive, rfl⟩, rfl⟩)
  | none =>
    cases horph : e.orphans.get ref with
    | none => exact .inl ⟨rfl, rfl⟩
    | some p =>
      have hset : ((setOut e p fun o => { o with settle := some f }).outs p).settling =
          (e.outs p).settling := by
        simp [setOut]
      by_cases hsettling : (e.outs p).settling = true
      · refine Or.inr (.inr (.inl ⟨p, rfl, rfl, hsettling, ?_⟩))
        simp only [hset, hsettling, if_true]
      · have hno : (e.outs p).settling = false := by simpa using hsettling
        refine Or.inr (.inr (.inr ⟨p, rfl, rfl, hno, ?_⟩))
        simp only [hset, hno, Bool.false_eq_true, if_false]

theorem count_given (given : List (OutPtr × SettleFn)) (p : OutPtr) (f g : SettleFn) :
    (given ++ [(p, f)]).count (p, g) = given.count (p, g) + if g = f then 1 else 0 := by
  rw [count_append, count_singleton]
  by_cases hg : g = f
  · simp [hg]
  · simp [hg, Ne.symm hg]

theorem count_given_ne (given : List (OutPtr × SettleFn)) {p q : OutPtr} (f g : SettleFn)
    (h : q ≠ p) : (given ++ [(p, f)]).count (q, g) = given.count (q, g) := by
  rw [count_append, count_singleton]
  simp [Ne.symm h]

theorem mem_given {given : List (OutPtr × SettleFn)} :
    ∀ x ∈ given ++ [(p, f)], x ∈ given ∨ x.1 = p := by
  intro x hx
  rcases mem_append.mp hx with hx | hx
  · exact .inl hx
  · cases mem_singleton.mp hx
    exact .inr rfl

/-- A flow is given a Settle that no write takes yet. -/
theorem Accounts.give (h : Accounts e calls given nils told) (hown : Owners e held reserved own)
    (hp : own (e.outs p).id = some p) (g : Out → Out)
    (hsettle : (g (e.outs p)).settle = some f) (hid : (g (e.outs p)).id = (e.outs p).id)
    (hover : (g (e.outs p)).finished = (e.outs p).finished ∧
      (g (e.outs p)).err = (e.outs p).err) (href : (g (e.outs p)).ref = (e.outs p).ref) :
    Accounts (setOut e p g) calls (given ++ [(p, f)]) nils told := by
  have hself : (setOut e p g).outs p = g (e.outs p) := by simp [setOut]
  have ht := Touches.setOut e p (e.outs p).id g hid href (fun hfin => hover.1.trans hfin)
  refine h.solo (Solo.of_touches ht (fun _ => by rw [hself]; exact hover.2) (hown.jobs _ p hp) rfl)
    (hown.ptr _ p hp).1 (fun _ _ _ => rfl) (fun q g hq => count_given_ne given f g hq) mem_given ?_
    (fun _ hq => hq) ?_ (fun _ hx => .inl hx) (fun _ => by rw [hself, hsettle]; simp)
  · intro f'
    have hsum := h.sum p f'
    have howed : owed (setOut e p g) p f' ≤ if f' = f then 1 else 0 := by
      unfold owed
      rw [hself, hsettle]
      by_cases hf : f' = f
      · rw [if_pos hf]
        split
        · exact le_rfl
        · exact Nat.zero_le _
      · rw [if_neg hf, if_neg]
        rintro ⟨hcon, -⟩
        exact hf (Option.some.inj hcon).symm
    have hrest : due (setOut e p g) p f' = owed (setOut e p g) p f' +
        (e.queues (outKey (e.outs p).id)).countP (willCall p f') + toDrop e.dropped p f' := by
      unfold due
      rw [hself, hid]
      rfl
    rw [count_given, hrest]
    unfold due at hsum
    omega
  · intro j hj f' o r hkind
    have hold := h.jobs _ j hj p f' o r (hown.jobs _ p hp j hj) hkind
    refine ⟨?_, ?_, ?_, hold.called, hold.returned⟩
    all_goals rw [hself]
    · exact hover.1.trans hold.ended
    · exact hover.2.trans hold.outcome
    · exact href.trans hold.ref_eq

theorem Accounts.adopt (h : Accounts e calls given nils told)
    (ho : (sendQueue e).Ordered []) (hown : Owners e held reserved own) (hf : e.failure = none)
    (ref : Bytes) (f : SettleFn) :
    Accounts (adopt e ref f).1 calls
      (given ++ ((adoptee e ref).map fun p => (p, f)).toList) nils told := by
  have horphan : ∀ p, e.orphans.get ref = some p → own (e.outs p).id = some p ∧
      (e.outs p).finished = true ∧ (e.outs p).ref ≠ [] := by
    intro p hp
    obtain ⟨hown', hfin, href, hne⟩ := hown.orphan ref p hp
    exact ⟨hown', hfin, href ▸ hne⟩
  rcases adopt_cases ho ref f with ⟨hnone, heq⟩ | ⟨p, hp, hlive, heq⟩ |
    ⟨p, hp, hget, hset, heq⟩ | ⟨p, hp, hget, hset, heq⟩
  · rw [heq, hnone]
    simpa using h
  · rw [heq, hp]
    exact h.give hown (hown.live _ p hlive) (fun o => { o with settle := some f }) rfl rfl
      ⟨rfl, rfl⟩ rfl
  · obtain ⟨hownp, -, -⟩ := horphan p hget
    have hone : setOut (setOut e p fun o => { o with settle := some f }) p
        (fun o => { o with adopted := true }) =
        setOut e p fun o => { o with settle := some f, adopted := true } := by
      simp [setOut]
    rw [heq, hp, hone]
    exact h.give hown hownp (fun o => { o with settle := some f, adopted := true }) rfl rfl
      ⟨rfl, rfl⟩ rfl
  · obtain ⟨hownp, hfin, href⟩ := horphan p hget
    obtain ⟨d, hd⟩ : ∃ d, setOut e p (fun o => { o with settle := some f }) = d := ⟨_, rfl⟩
    have hdp : d.outs p = { e.outs p with settle := some f } := by rw [← hd]; simp [setOut]
    have hdq : d.queues = e.queues := by rw [← hd]; rfl
    have hde : d.epoch = e.epoch := by rw [← hd]; rfl
    have hdo : d.out = e.out := by rw [← hd]; rfl
    have hdd : d.dropped = e.dropped := by rw [← hd]; rfl
    have hdid : (d.outs p).id = (e.outs p).id := by rw [hdp]
    have hslot := hown.slot _ p hownp hf
    have hidle := hslot.idle hset
    obtain ⟨hself, hq⟩ := settleLocked_self d p
    rw [hdid, hdq] at hq
    rw [hdp] at hself hq
    have ht : Touches e (settleLocked d p) p (e.outs p).id := by
      have hts := Touches.settleLocked d p
      rw [hdid] at hts
      refine Touches.trans ?_ hts
      rw [← hd]
      exact Touches.setOut e p (e.outs p).id (fun o => { o with settle := some f }) rfl rfl
        (fun hfin => hfin)
    rw [heq, hp, hd]
    dsimp only
    have hnotlive : e.out.get (e.outs p).id ≠ some p := by
      intro hcon
      have hlive := (ho.live_of_get hcon).2
      have hlive : (e.outs p).finished = false := hlive
      rw [hfin] at hlive
      cases hlive
    refine h.solo (Solo.of_touches ht ?_ ?_ ?_) (hown.ptr _ p hownp).1
      (fun _ _ _ => rfl) (fun q g hq => count_given_ne given f g hq) mem_given ?_
      (fun _ hq => hq) ?_ (fun _ hx => .inl hx) (fun _ => by rw [hself]; simp)
    · intro _
      rw [hself]
    · intro j hj
      rw [hq] at hj
      rcases mem_append.mp hj with hj | hj
      · exact hown.jobs _ p hownp j hj
      · cases mem_singleton.mp hj
        rfl
    · rw [(settleLocked_keeps d p).2.2.2, hdd]
    · intro g
      have hsum := h.sum p g
      have hzero : owed (settleLocked d p) p g = 0 := by
        unfold owed
        rw [if_neg]
        rintro ⟨-, hlive | ⟨had, -⟩⟩
        · rw [hself, (settleLocked_keeps d p).1, hdo] at hlive
          exact hnotlive hlive
        · rw [hself] at had
          simp only [(hslot.kept hfin hset).2.2] at had
          cases had
      have hcount : ((settleLocked d p).queues (outKey ((settleLocked d p).outs p).id)).countP
          (willCall p g) ≤ if g = f then 1 else 0 := by
        rw [hself]
        simp only
        rw [hq, countP_append, countP_idle hidle, Nat.zero_add]
        by_cases hg : g = f
        · rw [if_pos hg]
          exact countP_le_length
        · rw [if_neg hg, Nat.le_zero, countP_eq_zero]
          intro j hj
          cases mem_singleton.mp hj
          simp [willCall, Ne.symm hg]
      show _ ≤ (given ++ [(p, f)]).count (p, g)
      rw [count_given]
      have hdrop : toDrop (settleLocked d p).dropped p g = toDrop e.dropped p g := by
        rw [(settleLocked_keeps d p).2.2.2, hdd]
      unfold due at hsum ⊢
      rw [hzero, hdrop]
      omega
    · intro j hj g o r hkind
      rw [hq] at hj
      rcases mem_append.mp hj with hj | hj
      · have hno := hidle j hj
        rw [hkind] at hno
        cases hno
      · cases mem_singleton.mp hj
        simp only [JobKind.settle.injEq] at hkind
        obtain ⟨rfl, rfl, rfl⟩ := hkind
        refine ⟨?_, ?_, ?_, fun _ => by simp, fun _ hpass => hpass.elim⟩
        all_goals rw [hself]
        exact hfin

end Producers

end Mqttv5.Analysis
