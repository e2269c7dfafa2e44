import Mqttv5.Analysis.IDTable
import Mqttv5.Analysis.Inward

/-!
# Who holds an identifier

`own id` is the flow that holds identifier `id`: live, being settled, or kept for a producer.
`Owners` ties it to the identifier table, the map of live flows, the orphans and the write
queues, and keeps the callers that hold an identifier apart from the flows.
-/

set_option autoImplicit false

namespace Mqttv5.Analysis

open Mqttv5.Computation Model Program FiniteMap
open Function (update_of_ne update_self)

/-- A release changes the identifier table and nothing else. -/
theorem releaseLocked_eq (e : Engine) (id : PacketID) (o : Owner) :
    ∃ ids stuck, releaseLocked e id o = { e with ids := ids, stuck := stuck } := by
  unfold releaseLocked
  split
  · exact ⟨_, _, rfl⟩
  · exact ⟨_, _, rfl⟩

/-- What holds whether the session has failed or not. -/
structure Claims (e : Engine) (held : List (PacketID × Owner)) (reserved : ℕ)
    (own : PacketID → Option OutPtr) : Prop where
  table : Balanced e.ids reserved
  running : e.stuck = false
  ptr : ∀ id p, own id = some p → p < e.nextOut ∧ (e.outs p).id = id
  jobs : ∀ id p, own id = some p → ∀ j ∈ e.queues (outKey id), j.owner = .out p
  empty : ∀ id, own id = none → e.queues (outKey id) = []
  live : ∀ id p, e.out.get id = some p → own id = some p
  orphan : ∀ r p, e.orphans.get r = some p →
    own (e.outs p).id = some p ∧ (e.outs p).finished = true ∧ (e.outs p).ref = r ∧ r ≠ []
  owner : ∀ id p, own id = some p → e.ids.owner id = .publish
  caller : ∀ id o, (id, o) ∈ held → own id = none ∧ e.ids.owner id = o ∧ o ≠ .none
  callers : (held.map Prod.fst).Nodup

structure Owners (e : Engine) (held : List (PacketID × Owner)) (reserved : ℕ)
    (own : PacketID → Option OutPtr) : Prop extends Claims e held reserved own where
  slot : ∀ id p, own id = some p → e.failure = none →
    SlotOf e.cfg.store e.epoch p (e.outs p) (e.queues (outKey id))

/-- `e'` is `e` after a change of the flow at `p`, holder of `id`, and of its writes. -/
structure Touches (e e' : Engine) (p : OutPtr) (id : PacketID) : Prop where
  ids : e'.ids = e.ids
  stuck : e'.stuck = e.stuck
  statics : statics e' = statics e
  nextOut : e'.nextOut = e.nextOut
  outs : ∀ q, q ≠ p → e'.outs q = e.outs q
  id_eq : (e'.outs p).id = (e.outs p).id
  ref_eq : (e'.outs p).ref = (e.outs p).ref
  finished : (e.outs p).finished = true → (e'.outs p).finished = true
  queues : ∀ k, k ≠ outKey id → e'.queues k = e.queues k
  out : ∀ i q, e'.out.get i = some q → e.out.get i = some q
  orphans : ∀ r q, e'.orphans.get r = some q → e.orphans.get r = some q ∨
    q = p ∧ (e'.outs p).finished = true ∧ (e'.outs p).ref = r ∧ r ≠ []

namespace Touches

variable {e e' e'' : Engine} {p : OutPtr} {id : PacketID}

theorem refl (e : Engine) (p : OutPtr) (id : PacketID) : Touches e e p id :=
  ⟨rfl, rfl, rfl, rfl, fun _ _ => rfl, rfl, rfl, fun h => h, fun _ _ => rfl, fun _ _ h => h,
    fun _ _ h => .inl h⟩

theorem trans (h : Touches e e' p id) (h' : Touches e' e'' p id) : Touches e e'' p id := by
  refine ⟨h'.ids.trans h.ids, h'.stuck.trans h.stuck, h'.statics.trans h.statics,
    h'.nextOut.trans h.nextOut, ?_, h'.id_eq.trans h.id_eq, h'.ref_eq.trans h.ref_eq,
    fun hf => h'.finished (h.finished hf), ?_, fun i q hq => h.out i q (h'.out i q hq), ?_⟩
  · intro q hq
    rw [h'.outs q hq, h.outs q hq]
  · intro k hk
    rw [h'.queues k hk, h.queues k hk]
  · intro r q hq
    rcases h'.orphans r q hq with hq | hq
    · rcases h.orphans r q hq with hq | ⟨rfl, hf, href⟩
      · exact .inl hq
      · exact .inr ⟨rfl, h'.finished hf, by rw [h'.ref_eq]; exact href⟩
    · exact .inr hq

section

variable (e : Engine) (p : OutPtr)

theorem setOut (id : PacketID) (f : Out → Out) (hid : (f (e.outs p)).id = (e.outs p).id)
    (href : (f (e.outs p)).ref = (e.outs p).ref)
    (hfin : (e.outs p).finished = true → (f (e.outs p)).finished = true) :
    Touches e (setOut e p f) p id := by
  refine ⟨rfl, rfl, rfl, rfl, ?_, ?_, ?_, ?_, fun _ _ => rfl, fun _ _ h => h,
    fun _ _ h => .inl h⟩
  · intro q hq
    simp [Program.setOut, hq]
  · simp [Program.setOut, hid]
  · simp [Program.setOut, href]
  · simpa [Program.setOut] using hfin

theorem queueLocked (id : PacketID) (o : FlowPtr) (j : JobKind) :
    Touches e (queueLocked e (outKey id) o j) p id := by
  refine ⟨rfl, rfl, rfl, rfl, fun _ _ => rfl, rfl, rfl, fun h => h, ?_, fun _ _ h => h,
    fun _ _ h => .inl h⟩
  intro k hk
  simp [Program.queueLocked, hk]

theorem unlinkLocked (id : PacketID) : Touches e (unlinkLocked e p) p id :=
  ⟨rfl, rfl, rfl, rfl, fun _ _ => rfl, rfl, rfl, fun h => h, fun _ _ => rfl, fun _ _ h => h,
    fun _ _ h => .inl h⟩

theorem delOut (id i : PacketID) : Touches e { e with out := e.out.del i } p id := by
  refine ⟨rfl, rfl, rfl, rfl, fun _ _ => rfl, rfl, rfl, fun h => h, fun _ _ => rfl, ?_,
    fun _ _ h => .inl h⟩
  intro j q hq
  exact (of_get_del hq).1

theorem delOrphan (id : PacketID) (r : Bytes) :
    Touches e { e with orphans := e.orphans.del r } p id := by
  refine ⟨rfl, rfl, rfl, rfl, fun _ _ => rfl, rfl, rfl, fun h => h, fun _ _ => rfl,
    fun _ _ h => h, ?_⟩
  intro s q hq
  exact .inl (of_get_del hq).1

theorem finishLocked (id : PacketID) (err : Option PubErr) :
    Touches e (finishLocked e p err) p id := by
  have hset := (delOut e p id (e.outs p).id).trans
    (setOut { e with out := e.out.del (e.outs p).id } p id
    (fun o => { o with finished := true, err := err, done := o.done + 1 }) rfl rfl (fun _ => rfl))
  unfold Program.finishLocked
  simp only
  split
  · exact hset.trans ⟨rfl, rfl, rfl, rfl, fun _ _ => rfl, rfl, rfl, fun h => h, fun _ _ => rfl,
      fun _ _ h => h, fun _ _ h => .inl h⟩
  · exact hset

theorem creditLocked (id : PacketID) : Touches e (creditLocked e p) p id := by
  unfold Program.creditLocked
  split
  · exact (setOut e p id (fun o => { o with counted := false }) rfl rfl (fun h => h)).trans
      ⟨rfl, rfl, rfl, rfl, fun _ _ => rfl, rfl, rfl, fun h => h, fun _ _ => rfl, fun _ _ h => h,
        fun _ _ h => .inl h⟩
  · exact refl e p id

theorem putOutLocked : Touches e (putOutLocked e p) p (e.outs p).id := by
  unfold Program.putOutLocked
  split
  · exact queueLocked e p _ _ _
  · exact refl e p _

theorem completeLocked : Touches e (completeLocked e p) p (e.outs p).id := by
  unfold Program.completeLocked
  split
  · exact refl e p _
  · split
    · exact refl e p _
    · rename_i c _
      have hput := putOutLocked
        (Program.setOut e p fun o => { o with phase := .completed, outcome := c }) p
      have hid : ((Program.setOut e p fun o =>
          { o with phase := .completed, outcome := c }).outs p).id = (e.outs p).id := by
        simp [Program.setOut]
      rw [hid] at hput
      exact (setOut e p _ (fun o => { o with phase := .completed, outcome := c }) rfl rfl
        (fun h => h)).trans hput

theorem settleLocked : Touches e (settleLocked e p) p (e.outs p).id := by
  have hid : ((Program.setOut e p fun o => { o with settling := true }).outs p).id =
      (e.outs p).id := by
    simp [Program.setOut]
  unfold Program.settleLocked
  simp only [hid]
  exact (setOut e p _ (fun o => { o with settling := true }) rfl rfl (fun h => h)).trans
    (queueLocked _ p _ _ _)

/-- A finished flow goes to the orphans. -/
theorem setOrphan (id : PacketID) (h : (e.outs p).finished = true) (href : (e.outs p).ref ≠ []) :
    Touches e { e with orphans := e.orphans.set (e.outs p).ref p } p id := by
  refine ⟨rfl, rfl, rfl, rfl, fun _ _ => rfl, rfl, rfl, fun h => h, fun _ _ => rfl,
    fun _ _ h => h, ?_⟩
  intro r q hq
  rcases of_get_set hq with hq | ⟨rfl, rfl⟩
  · exact .inl hq
  · exact .inr ⟨rfl, h, rfl, href⟩

end

end Touches

theorem outKey_injective {i j : PacketID} (h : outKey i = outKey j) : i = j := by
  simpa [outKey] using h

theorem outKey_ne {i j : PacketID} (h : i ≠ j) : outKey i ≠ outKey j :=
  fun heq => h (outKey_injective heq)

namespace Claims

variable {e e' : Engine} {held : List (PacketID × Owner)} {reserved : ℕ}
  {own : PacketID → Option OutPtr} {id : PacketID} {p : OutPtr}

section

variable (h : Claims e held reserved own)
include h

section

variable (hown : own id = some p)
include hown

/-- Two identifiers have two holders. -/
theorem ne_of_ne {i : PacketID} {q : OutPtr} (hi : i ≠ id) (hq : own i = some q) : q ≠ p := by
  intro hqp
  have := (h.ptr i q hq).2
  rw [hqp, (h.ptr id p hown).2] at this
  exact hi this.symm

theorem touch (ht : Touches e e' p id) (hjobs : ∀ j ∈ e'.queues (outKey id), j.owner = .out p) :
    Claims e' held reserved own := by
  have hids : ∀ q, (e'.outs q).id = (e.outs q).id := by
    intro q
    by_cases hq : q = p
    · rw [hq, ht.id_eq]
    · rw [ht.outs q hq]
  constructor
  · rw [ht.ids]; exact h.table
  · rw [ht.stuck]; exact h.running
  · intro i q hq
    rw [ht.nextOut, hids]
    exact h.ptr i q hq
  · intro i q hq
    by_cases hi : i = id
    · subst hi
      rw [hown] at hq
      cases hq
      exact hjobs
    · rw [ht.queues _ (outKey_ne hi)]
      exact h.jobs i q hq
  · intro i hi
    have hne : i ≠ id := by
      intro heq
      rw [heq, hown] at hi
      cases hi
    rw [ht.queues _ (outKey_ne hne)]
    exact h.empty i hi
  · exact fun i q hq => h.live i q (ht.out i q hq)
  · intro r q hq
    rcases ht.orphans r q hq with hq | ⟨rfl, hfin⟩
    · obtain ⟨howner, hfin, href⟩ := h.orphan r q hq
      rw [hids]
      refine ⟨howner, ?_⟩
      by_cases hqp : q = p
      · rw [hqp] at hfin href ⊢
        rw [ht.ref_eq]
        exact ⟨ht.finished hfin, href⟩
      · rw [ht.outs q hqp]
        exact ⟨hfin, href⟩
    · exact ⟨by rw [ht.id_eq, (h.ptr id q hown).2]; exact hown, hfin⟩
  · rw [ht.ids]; exact h.owner
  · rw [ht.ids]; exact h.caller
  · exact h.callers

/-- The holder of an identifier gives it up, with no write left to do. -/
theorem release (ht : Touches e e' p id) (hqueue : e'.queues (outKey id) = [])
    (hout : e'.out.get id = none) (horphan : ∀ r, e'.orphans.get r ≠ some p) :
    Claims (releaseLocked e' id .publish) held reserved (Function.update own id none) := by
  have hids : ∀ q, (e'.outs q).id = (e.outs q).id := by
    intro q
    by_cases hq : q = p
    · rw [hq, ht.id_eq]
    · rw [ht.outs q hq]
  have hpub : e'.ids.owner id = .publish := by rw [ht.ids]; exact h.owner id p hown
  have hbal : Balanced e'.ids reserved := by rw [ht.ids]; exact h.table
  obtain ⟨htable, hstuck, howner⟩ := balanced_release hbal hpub (by simp)
  obtain ⟨ids, stuck, hrel⟩ := releaseLocked_eq e' id .publish
  rw [hrel] at htable hstuck howner ⊢
  simp only at htable hstuck howner
  have hne : ∀ i q, Function.update own id none i = some q → i ≠ id ∧ own i = some q := by
    intro i q hq
    by_cases hi : i = id
    · rw [hi, update_self] at hq
      cases hq
    · rw [update_of_ne hi] at hq
      exact ⟨hi, hq⟩
  constructor
  · exact htable
  · rw [hstuck, ht.stuck]; exact h.running
  · intro i q hq
    obtain ⟨hi, hq⟩ := hne i q hq
    simp only
    rw [ht.nextOut, hids]
    exact h.ptr i q hq
  · intro i q hq
    obtain ⟨hi, hq⟩ := hne i q hq
    simp only
    rw [ht.queues _ (outKey_ne hi)]
    exact h.jobs i q hq
  · intro i hi
    by_cases hiid : i = id
    · rw [hiid]; exact hqueue
    · rw [update_of_ne hiid] at hi
      simp only
      rw [ht.queues _ (outKey_ne hiid)]
      exact h.empty i hi
  · intro i q hq
    have hi : i ≠ id := by
      intro hi
      rw [hi] at hq
      simp only [hout] at hq
      cases hq
    rw [update_of_ne hi]
    exact h.live i q (ht.out i q hq)
  · intro r q hq
    have hqp : q ≠ p := fun hqp => horphan r (hqp ▸ hq)
    rcases ht.orphans r q hq with hq | ⟨hcon, _⟩
    · obtain ⟨hown', hfin⟩ := h.orphan r q hq
      simp only
      rw [hids, ht.outs q hqp]
      refine ⟨?_, hfin⟩
      have hi : (e.outs q).id ≠ id := by
        intro hi
        rw [hi, hown] at hown'
        exact hqp (Option.some.inj hown').symm
      rw [update_of_ne hi]
      exact hown'
    · exact absurd hcon hqp
  · intro i q hq
    obtain ⟨hi, hq⟩ := hne i q hq
    simp only [howner, update_of_ne hi, ht.ids]
    exact h.owner i q hq
  · intro i o hio
    obtain ⟨h1, h2, h3⟩ := h.caller i o hio
    have hi : i ≠ id := by
      intro hi
      rw [hi, hown] at h1
      cases h1
    simp only [howner, update_of_ne hi, ht.ids]
    exact ⟨h1, h2, h3⟩
  · exact h.callers

end

/-- What no claim depends on. -/
theorem congr (hids : e'.ids = e.ids) (hstuck : e'.stuck = e.stuck) (hnext : e'.nextOut = e.nextOut)
    (houts : ∀ q, (e'.outs q).id = (e.outs q).id)
    (hqueues : ∀ i, e'.queues (outKey i) = e.queues (outKey i))
    (hout : ∀ i q, e'.out.get i = some q → e.out.get i = some q)
    (horphans : ∀ r q, e'.orphans.get r = some q → e.orphans.get r = some q ∧
      (e'.outs q).finished = (e.outs q).finished ∧ (e'.outs q).ref = (e.outs q).ref) :
    Claims e' held reserved own := by
  constructor
  · rw [hids]; exact h.table
  · rw [hstuck]; exact h.running
  · intro i q hq
    rw [hnext, houts q]
    exact h.ptr i q hq
  · intro i q hq
    rw [hqueues]
    exact h.jobs i q hq
  · intro i hi
    rw [hqueues]
    exact h.empty i hi
  · exact fun i q hq => h.live i q (hout i q hq)
  · intro r q hq
    obtain ⟨hq, hfin, href⟩ := horphans r q hq
    rw [houts q, hfin, href]
    exact h.orphan r q hq
  · rw [hids]; exact h.owner
  · rw [hids]; exact h.caller
  · exact h.callers

end

end Claims

namespace Owners

variable {e e' : Engine} {held : List (PacketID × Owner)} {reserved : ℕ}
  {own : PacketID → Option OutPtr} {id : PacketID} {p : OutPtr}

section

variable (h : Owners e held reserved own)
include h

/-- A change of one flow and of its writes. -/
theorem touch (hown : own id = some p) (ht : Touches e e' p id)
    (hslot : SlotOf e.cfg.store e.epoch p (e'.outs p) (e'.queues (outKey id))) :
    Owners e' held reserved own := by
  have hcfg : e'.cfg = e.cfg := same_cfg ht.statics
  have hepoch : e'.epoch = e.epoch := same_epoch ht.statics
  have hfail : e'.failure = e.failure := same_failure ht.statics
  refine ⟨h.toClaims.touch hown ht hslot.owner, ?_⟩
  intro i q hq hf
  rw [hcfg, hepoch]
  by_cases hi : i = id
  · subst hi
    rw [hown] at hq
    cases hq
    exact hslot
  · rw [ht.outs q (h.ne_of_ne hown hi hq), ht.queues _ (outKey_ne hi)]
    exact h.slot i q hq (hfail ▸ hf)

/-- The holder of an identifier gives it up, with no write left to do. -/
theorem release (hown : own id = some p)
    (ht : Touches e e' p id) (hqueue : e'.queues (outKey id) = [])
    (hout : e'.out.get id = none) (horphan : ∀ r, e'.orphans.get r ≠ some p) :
    Owners (releaseLocked e' id .publish) held reserved (Function.update own id none) := by
  have hcfg : e'.cfg = e.cfg := same_cfg ht.statics
  have hepoch : e'.epoch = e.epoch := same_epoch ht.statics
  have hfail : e'.failure = e.failure := same_failure ht.statics
  refine ⟨h.toClaims.release hown ht hqueue hout horphan, ?_⟩
  intro i q hq hf
  obtain ⟨ids, stuck, hrel⟩ := releaseLocked_eq e' id .publish
  rw [hrel] at hf ⊢
  have hi : i ≠ id := by
    rintro rfl
    rw [update_self] at hq
    cases hq
  rw [update_of_ne hi] at hq
  simp only
  rw [hcfg, hepoch, ht.outs q (h.ne_of_ne hown hi hq), ht.queues _ (outKey_ne hi)]
  exact h.slot i q hq (hfail ▸ hf)

/-- What no identifier depends on. -/
theorem congr (hids : e'.ids = e.ids)
    (hstuck : e'.stuck = e.stuck) (hstat : e'.cfg = e.cfg ∧ e'.epoch = e.epoch ∧
      e'.failure = e.failure) (hnext : e'.nextOut = e.nextOut)
    (houts : ∀ q, (e'.outs q).id = (e.outs q).id ∧ (e'.outs q).finished = (e.outs q).finished ∧
      (e'.outs q).settling = (e.outs q).settling ∧ (e'.outs q).adopted = (e.outs q).adopted ∧
      (e'.outs q).settle = (e.outs q).settle ∧ (e'.outs q).ref = (e.outs q).ref)
    (hqueues : ∀ i, e'.queues (outKey i) = e.queues (outKey i))
    (hout : ∀ i q, e'.out.get i = some q → e.out.get i = some q)
    (horphans : ∀ r q, e'.orphans.get r = some q → e.orphans.get r = some q) :
    Owners e' held reserved own := by
  obtain ⟨hcfg, hepoch, hfail⟩ := hstat
  refine ⟨h.toClaims.congr hids hstuck hnext (fun q => (houts q).1) hqueues hout ?_, ?_⟩
  · intro r q hq
    obtain ⟨_, hfin, _, _, _, href⟩ := houts q
    exact ⟨horphans r q hq, hfin, href⟩
  · intro i q hq hf
    rw [hcfg, hepoch, hqueues]
    obtain ⟨_, h1, h2, h3, h4, h5⟩ := houts q
    exact (h.slot i q hq (hfail ▸ hf)).congr h1 h2 h3 h4 h5

end

end Owners

end Mqttv5.Analysis
