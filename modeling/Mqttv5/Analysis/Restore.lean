import Mqttv5.Analysis.Core

/-!
# Rebuilding a session from its records

`Restore` goes through the records in the order the store loads them. `Rebuilding seen e rel`
is what holds after the records `seen`: each flow comes from one of them, `rel` are those that
wait for their PUBCOMP, still to be put in PUBREC order, and every identifier in use belongs
to one of them.
-/

set_option autoImplicit false

namespace Mqttv5.Analysis

open Mqttv5.Computation Model Program Interface List FiniteMap
open Function (update_of_ne update_self)

variable {e e' : Engine} {id : PacketID} {recs : List Record} {ids : IDTable}

/-- The record of a flow that a new process goes on with. -/
structure Continues (r : Record) : Prop where
  dir : r.key.dir = .outbound
  valid : r.phase.valid .outbound = true
  qos : r.qos = 1 ∨ r.qos = 2
  phase : r.phase ≠ .completed
  packet : r.packet ≠ []

/-- Records as a store that holds what an engine wrote loads them: one for each key, the flows
in the order they were first sent, and no two PUBRECs in one place. -/
structure Loadable (recs : List Record) : Prop where
  keys : (recs.map Record.key).Nodup
  sorted : recs.Pairwise fun a b => Continues a → Continues b → a.seq < b.seq
  places : recs.Pairwise fun a b => Continues a → Continues b → a.phase = .awaitPubcomp →
    b.phase = .awaitPubcomp → a.pubrecSeq ≠ b.pubrecSeq

/-- What is loaded first is loadable on its own. -/
theorem Loadable.left {l l' : List Record} (h : Loadable (l ++ l')) : Loadable l := by
  have hkeys := h.keys
  rw [map_append, nodup_append] at hkeys
  exact ⟨hkeys.1, (pairwise_append.mp h.sorted).1, (pairwise_append.mp h.places).1⟩

/-- An ended flow, back among the orphans. -/
def buried (e : Engine) (ids : IDTable) (r : Record) (err : Option PubErr) : Engine :=
  { allocOut { e with ids := ids } (restoredOrphan r err) with
    orphans := e.orphans.set r.ref e.nextOut
    nextSeq := max e.nextSeq (r.seq + 1) }

/-- A flow of an earlier process, back in the session. -/
def revived (e : Engine) (ids : IDTable) (r : Record) : Engine :=
  { allocOut { e with ids := ids } (restoredOut r) with
    out := e.out.set r.key.packetID e.nextOut
    refs := if r.ref ≠ [] then e.refs.set r.ref e.nextOut else e.refs
    nextSeq := max e.nextSeq (max (r.seq + 1) (r.pubrecSeq + 1)) }

/-- An inbound flow that waits for its PUBREL. -/
def recalled (e : Engine) (id : PacketID) : Engine :=
  { e with
    nextIn := e.nextIn + 1
    ins := Function.update e.ins e.nextIn { id := id, qos := 2, state := .awaitPubrel }
    inn := e.inn.set id e.nextIn }

/-- What `Restore` makes of one record. -/
theorem restoreRecord_cases (e : Engine) (rel : List OutPtr) (r : Record) :
    (restoreRecord (e, rel) r = (e, rel) ∧
      (Continues r → claim e.ids r.key.packetID .publish = none)) ∨
    (¬ Continues r ∧ r.key.dir = .outbound ∧ r.ref ≠ [] ∧ ∃ ids err,
      claim e.ids r.key.packetID .publish = some ids ∧
      restoreRecord (e, rel) r = (buried e ids r err, rel)) ∨
    (Continues r ∧ ∃ ids, claim e.ids r.key.packetID .publish = some ids ∧
      restoreRecord (e, rel) r = if r.phase = .awaitPubcomp then
        (revived e ids r, rel ++ [e.nextOut])
      else ({ revived e ids r with pub := e.pub ++ [e.nextOut] }, rel)) ∨
    (¬ Continues r ∧ r.key.dir = .inbound ∧
      restoreRecord (e, rel) r = (recalled e r.key.packetID, rel)) := by
  unfold restoreRecord
  simp only
  split
  · rename_i hbad
    left
    refine ⟨rfl, ?_⟩
    intro hc
    exfalso
    rcases hbad with hbad | ⟨h1, h2⟩
    · rw [hc.dir, hc.valid] at hbad
      exact hbad rfl
    · rcases hc.qos with hq | hq
      · exact h1 hq
      · exact h2 hq
  · rename_i hgood
    have hqos : r.qos = 1 ∨ r.qos = 2 := by
      by_contra hcon
      exact hgood (.inr ⟨fun h => hcon (.inl h), fun h => hcon (.inr h)⟩)
    split
    · rename_i hdir
      have hvalid : r.phase.valid .outbound = true := by
        by_contra hcon
        exact hgood (.inl (by rw [hdir]; exact hcon))
      split
      · rename_i hcompleted
        have hnot : ¬ Continues r := fun hc => hc.phase hcompleted
        split
        · exact .inl ⟨rfl, fun hc => absurd hc hnot⟩
        · rename_i err _
          split
          · exact .inl ⟨rfl, fun hc => absurd hc hnot⟩
          · rename_i href
            split
            · exact .inl ⟨rfl, fun hc => absurd hc hnot⟩
            · rename_i ids hclaim
              exact .inr (.inl ⟨hnot, hdir, href, ids, err, hclaim, rfl⟩)
      · rename_i hphase
        split
        · rename_i hpacket
          exact .inl ⟨rfl, fun hc => absurd hpacket hc.packet⟩
        · rename_i hpacket
          have hc : Continues r := ⟨hdir, hvalid, hqos, hphase, hpacket⟩
          split
          · rename_i hclaim
            exact .inl ⟨rfl, fun _ => hclaim⟩
          · rename_i ids hclaim
            exact .inr (.inr (.inl ⟨hc, ids, hclaim, rfl⟩))
    · rename_i hdir
      refine Or.inr (.inr (.inr ⟨?_, hdir, rfl⟩))
      intro hc
      rw [hc.dir] at hdir
      cases hdir

/-! ### What a record does to the views -/

section Views

variable (e : Engine) (ids : IDTable) (r : Record)

theorem sendQueue_buried (err : Option PubErr) : sendQueue (buried e ids r err) =
    (sendQueue e).bury (flowOf (restoredOrphan r err)) (max e.nextSeq (r.seq + 1)) := by
  unfold buried allocOut sendQueue SendQueue.bury
  simp only
  congr 1
  funext q
  by_cases hq : q = e.nextOut
  · subst hq
    simp
  · simp [hq]

theorem sendQueue_revived : sendQueue (revived e ids r) =
    (sendQueue e).enroll (flowOf (restoredOut r))
      (max e.nextSeq (max (r.seq + 1) (r.pubrecSeq + 1))) := by
  unfold revived allocOut sendQueue SendQueue.enroll
  simp only
  congr 1
  funext q
  by_cases hq : q = e.nextOut
  · subst hq
    simp
  · simp [hq]

theorem inbox_recalled (id : PacketID) : inbox (recalled e id) = (inbox e).remember id := rfl

end Views

/-- A flow that comes with a claimed identifier holds it. -/
theorem Owners.enroll {own : PacketID → Option OutPtr} {o : Out}
    (h : Owners e [] 0 own) (hclaim : claim e.ids id .publish = some ids) (hids : e'.ids = ids)
    (hstuck : e'.stuck = e.stuck)
    (hstat : e'.cfg = e.cfg ∧ e'.epoch = e.epoch ∧ e'.failure = e.failure)
    (hnext : e'.nextOut = e.nextOut + 1) (houts : e'.outs = Function.update e.outs e.nextOut o)
    (hid : o.id = id) (hqueues : e'.queues = e.queues)
    (hout : ∀ i q, e'.out.get i = some q → e.out.get i = some q ∨ i = id ∧ q = e.nextOut)
    (horph : ∀ r q, e'.orphans.get r = some q → e.orphans.get r = some q ∨
      q = e.nextOut ∧ o.finished = true ∧ o.ref = r ∧ r ≠ []) (hempty : e.queues (outKey id) = [])
    (hslot : SlotOf e.cfg.store e.epoch e.nextOut o []) :
    Owners e' [] 0 (Function.update own id (some e.nextOut)) := by
  obtain ⟨htable, hfree, howner, -⟩ := balanced_claim h.table (by decide) hclaim
  have hnone : own id = none := by
    cases hown : own id with
    | none => rfl
    | some p =>
      have := h.owner id p hown
      rw [hfree] at this
      cases this
  exact h.enter hnone (hids ▸ htable) (hids ▸ howner) hstuck hstat hnext houts hid
    (fun i _ => congrFun hqueues _) hout horph (by rw [hqueues, hempty]; exact hslot)
    List.Sublist.slnil fun x hx => by cases hx

structure Rebuilding (seen : List Record) (e : Engine) (rel : List OutPtr) : Prop where
  owners : ∃ own, Owners e [] 0 own
  healthy : e.failure = none
  idle : ∀ k, e.queues k = []
  ordered : (sendQueue e).Ordered rel
  waiting : ∀ p ∈ rel, ((sendQueue e).flows p).waiting = true
  norel : e.rel = []
  cursor : e.cursor = none
  inbox : (inbox e).Sound
  taken : ∀ id, e.ids.owner id ≠ .none → ∃ r ∈ seen, r.key = outKey id
  recalled : ∀ id h, e.inn.get id = some h → ∃ r ∈ seen, r.key = inKey id
  flows : ∀ p, (sendQueue e).Live p → ∃ r ∈ seen, Continues r ∧ e.outs p = restoredOut r
  known : ∀ r ∈ seen, Continues r → 1 ≤ r.key.packetID ∧ r.key.packetID ≤ e.ids.max →
    r.seq < e.nextSeq ∧ (r.phase = .awaitPubcomp → r.pubrecSeq < e.nextSeq)

namespace Rebuilding

variable {seen rest : List Record} {e : Engine} {rel : List OutPtr} {r : Record}

theorem more {P : Record → Prop} (hr : ∃ r' ∈ seen, P r') : ∃ r' ∈ seen ++ [r], P r' :=
  hr.imp fun _ hr => ⟨mem_append_left _ hr.1, hr.2⟩

section

variable (h : Rebuilding seen e rel)
include h

/-- A record that changes nothing. -/
theorem pass (hself : Continues r → 1 ≤ r.key.packetID ∧ r.key.packetID ≤ e.ids.max →
    r.seq < e.nextSeq ∧ (r.phase = .awaitPubcomp → r.pubrecSeq < e.nextSeq)) :
    Rebuilding (seen ++ [r]) e rel := by
  refine ⟨h.owners, h.healthy, h.idle, h.ordered, h.waiting, h.norel, h.cursor, h.inbox,
    fun id hid => more (h.taken id hid), fun id x hx => more (h.recalled id x hx),
    fun p hp => more (h.flows p hp), ?_⟩
  intro r' hr'
  rcases mem_append.mp hr' with hr' | hr'
  · exact h.known r' hr'
  · rw [mem_singleton.mp hr']
    exact hself

/-- The identifiers after a claim. -/
theorem taken_claim (hdir : r.key.dir = .outbound)
    (hclaim : claim e.ids r.key.packetID .publish = some ids) (id : PacketID)
    (hid : ids.owner id ≠ .none) : ∃ r' ∈ seen ++ [r], r'.key = outKey id := by
  obtain ⟨own, hown⟩ := h.owners
  obtain ⟨-, -, howner, -⟩ := balanced_claim hown.table (by decide) hclaim
  rw [howner] at hid
  by_cases hii : id = r.key.packetID
  · exact ⟨r, by simp, by rw [hii, outKey, ← hdir]⟩
  · rw [update_of_ne hii] at hid
    exact more (h.taken id hid)

/-- A record that is skipped. -/
theorem skip (hkeys : ∀ r' ∈ seen, r'.key ≠ r.key)
    (hskip : Continues r → claim e.ids r.key.packetID .publish = none) :
    Rebuilding (seen ++ [r]) e rel := by
  refine h.pass fun hc hid => ?_
  -- A flow with an identifier in range is not skipped: nothing before it has its key.
  exfalso
  obtain ⟨own, hown⟩ := h.owners
  have hfree : e.ids.owner r.key.packetID = .none := by
    by_contra hcon
    obtain ⟨r', hr', hkey⟩ := h.taken _ hcon
    exact hkeys r' hr' (hkey.trans (by rw [outKey, ← hc.dir]))
  obtain ⟨ids, hids⟩ := claim_some hown.table hid hfree .publish
  rw [hskip hc] at hids
  cases hids

/-- An ended flow comes back. -/
theorem bury {err : Option PubErr} (hnot : ¬ Continues r)
    (hdir : r.key.dir = .outbound) (href : r.ref ≠ [])
    (hclaim : claim e.ids r.key.packetID .publish = some ids) :
    Rebuilding (seen ++ [r]) (buried e ids r err) rel := by
  have hpass := h.pass fun hc => absurd hc hnot
  obtain ⟨own, hown⟩ := h.owners
  obtain ⟨-, -, -, hmax⟩ := balanced_claim hown.table (by decide) hclaim
  have hq := sendQueue_buried e ids r err
  have hle : e.nextSeq ≤ max e.nextSeq (r.seq + 1) := Nat.le_max_left _ _
  have hbury := h.ordered.bury (flowOf (restoredOrphan r err)) rfl hle
  rw [← hq] at hbury
  have hlive : ∀ p, (sendQueue (buried e ids r err)).Live p → p ≠ e.nextOut ∧
      (sendQueue e).Live p := by
    rintro p ⟨hlt, hfin⟩
    have hne : p ≠ e.nextOut := by
      rintro rfl
      rw [hq] at hfin
      simp [SendQueue.bury, sendQueue, flowOf, restoredOrphan] at hfin
    have hlt : p < e.nextOut + 1 := hlt
    refine ⟨hne, Nat.lt_of_le_of_ne (Nat.le_of_lt_succ hlt) hne, ?_⟩
    rw [hq] at hfin
    simp only [SendQueue.bury, show (sendQueue e).size = e.nextOut from rfl,
      update_of_ne hne] at hfin
    exact hfin
  refine ⟨⟨_, hown.enroll hclaim rfl rfl ⟨rfl, rfl, rfl⟩ rfl rfl rfl rfl
    (fun i q hi => .inl hi) ?_ (h.idle _) ?_⟩, h.healthy, h.idle, hbury, ?_, h.norel, h.cursor,
    h.inbox, h.taken_claim hdir hclaim, hpass.recalled, ?_, ?_⟩
  · intro x q hx
    have hx : (e.orphans.set r.ref e.nextOut).get x = some q := hx
    rcases of_get_set hx with hx | ⟨rfl, rfl⟩
    · exact .inl hx
    · exact .inr ⟨rfl, rfl, rfl, href⟩
  · exact SlotOf.kept_empty rfl rfl rfl rfl href
  · intro p hp
    have hlive' := (h.ordered.mem p).mp (by simp [SendQueue.listed, hp])
    have hne : p ≠ e.nextOut := Nat.ne_of_lt hlive'.1
    rw [hq]
    simp only [SendQueue.bury, show (sendQueue e).size = e.nextOut from rfl,
      update_of_ne hne]
    exact h.waiting p hp
  · intro p hp
    obtain ⟨hne, hp⟩ := hlive p hp
    simp only [buried, allocOut, update_of_ne hne]
    exact hpass.flows p hp
  · intro r' hr' hc hid
    have hid : 1 ≤ r'.key.packetID ∧ r'.key.packetID ≤ ids.max := hid
    rw [hmax] at hid
    have hknown := hpass.known r' hr' hc hid
    exact ⟨hknown.1.trans_le hle, fun hp => (hknown.2 hp).trans_le hle⟩

/-- An inbound flow comes back. -/
theorem remember (hnot : ¬ Continues r) (hdir : r.key.dir = .inbound)
    (hkeys : ∀ r' ∈ seen, r'.key ≠ r.key) :
    Rebuilding (seen ++ [r]) (Analysis.recalled e r.key.packetID) rel := by
  obtain ⟨own, hown⟩ := h.owners
  have hpass := h.pass fun hc => absurd hc hnot
  have hkey : r.key = inKey r.key.packetID := by rw [inKey, ← hdir]
  have hnone : e.inn.get r.key.packetID = none := by
    cases hget : e.inn.get r.key.packetID with
    | none => rfl
    | some x =>
      obtain ⟨r', hr', hkey'⟩ := h.recalled _ x hget
      exact absurd (hkey'.trans hkey.symm) (hkeys r' hr')
  refine ⟨⟨own, hown.congr rfl rfl ⟨rfl, rfl, rfl⟩ rfl
    (fun _ => ⟨rfl, rfl, rfl, rfl, rfl, rfl⟩) (fun _ => rfl) (fun _ _ hi => hi) fun _ _ hr => hr⟩,
    h.healthy, h.idle, h.ordered, h.waiting, h.norel, h.cursor, ?_, hpass.taken, ?_,
    hpass.flows, hpass.known⟩
  · rw [inbox_recalled]
    exact h.inbox.remember _ hnone
  · intro id x hx
    rcases of_get_set hx with hx | ⟨rfl, -⟩
    · exact hpass.recalled id x hx
    · exact ⟨r, by simp, hkey⟩

/-- A flow to continue comes back; it is on no list yet. -/
theorem revive (hc : Continues r) (hsorted : ∀ r' ∈ seen, Continues r' → r'.seq < r.seq)
    (hclaim : claim e.ids r.key.packetID .publish = some ids) :
    (∃ own, Owners (revived e ids r) [] 0 own) ∧
    (sendQueue (revived e ids r)).Ordered (e.nextOut :: rel) ∧
    (∀ p ∈ rel, ((sendQueue (revived e ids r)).flows p).waiting = true) ∧
    (∀ p ∈ e.pub, ((sendQueue (revived e ids r)).flows p).pubSeq < r.seq) ∧
    (∀ id, ids.owner id ≠ .none → ∃ r' ∈ seen ++ [r], r'.key = outKey id) ∧
    (∀ p, (sendQueue (revived e ids r)).Live p → ∃ r' ∈ seen ++ [r], Continues r' ∧
      (revived e ids r).outs p = restoredOut r') ∧
    ∀ r' ∈ seen ++ [r], Continues r' → 1 ≤ r'.key.packetID ∧ r'.key.packetID ≤ ids.max →
      r'.seq < (revived e ids r).nextSeq ∧
      (r'.phase = .awaitPubcomp → r'.pubrecSeq < (revived e ids r).nextSeq) := by
  obtain ⟨own, hown⟩ := h.owners
  obtain ⟨-, hfree, -, hmax⟩ := balanced_claim hown.table (by decide) hclaim
  have hq := sendQueue_revived e ids r
  have hnone : e.out.get r.key.packetID = none := by
    cases hget : e.out.get r.key.packetID with
    | none => rfl
    | some q =>
      have hpub := hown.owner _ q (hown.live _ q hget)
      rw [hfree] at hpub
      cases hpub
  have hlt : ∀ q, (sendQueue e).Live q → ((sendQueue e).flows q).pubSeq < r.seq := by
    intro q hlive
    obtain ⟨r', hr', hc', hout⟩ := h.flows q hlive
    show (e.outs q).pubSeq < r.seq
    rw [hout]
    exact hsorted r' hr' hc'
  have hself : (revived e ids r).outs e.nextOut = restoredOut r := update_self ..
  have hold : ∀ q, (sendQueue e).Live q → (revived e ids r).outs q = e.outs q := by
    intro q hlive
    have hne : q ≠ e.nextOut := Nat.ne_of_lt hlive.1
    exact update_of_ne hne ..
  have hle : e.nextSeq ≤ (revived e ids r).nextSeq := Nat.le_max_left _ _
  have hseq : r.seq < (revived e ids r).nextSeq ∧ r.pubrecSeq < (revived e ids r).nextSeq := by
    show r.seq < max e.nextSeq (max (r.seq + 1) (r.pubrecSeq + 1)) ∧
      r.pubrecSeq < max e.nextSeq (max (r.seq + 1) (r.pubrecSeq + 1))
    omega
  refine ⟨⟨_, hown.enroll hclaim rfl rfl ⟨rfl, rfl, rfl⟩ rfl rfl rfl rfl ?_
    (fun x q hx => .inl hx) (h.idle _) (SlotOf.new_unstored rfl rfl rfl)⟩, ?_, ?_, ?_,
    h.taken_claim hc.dir hclaim, ?_, ?_⟩
  · exact fun i q hi => of_get_set hi
  · rw [hq]
    apply h.ordered.enroll (flowOf (restoredOut r)) rfl hnone
    · intro q hlive heq
      exact (hlt q hlive).ne heq
    · exact hle
    · show (restoredOut r).seq < (revived e ids r).nextSeq
      unfold restoredOut
      simp only
      split
      · exact hseq.2
      · exact hseq.1
    · exact hseq.1
  · intro p hp
    have hlive := (h.ordered.mem p).mp (by simp [SendQueue.listed, hp])
    show (flowOf ((revived e ids r).outs p)).waiting = true
    rw [hold p hlive]
    exact h.waiting p hp
  · intro p hp
    have hlive := h.ordered.live_of_pub hp
    show ((revived e ids r).outs p).pubSeq < r.seq
    rw [hold p hlive]
    exact hlt p hlive
  · rintro p ⟨hsize, hfin⟩
    by_cases hp : p = e.nextOut
    · exact ⟨r, by simp, hc, by rw [hp]; exact hself⟩
    · have hsize : p < e.nextOut + 1 := hsize
      have hout : (revived e ids r).outs p = e.outs p := update_of_ne hp ..
      have hlive : (sendQueue e).Live p := by
        refine ⟨Nat.lt_of_le_of_ne (Nat.le_of_lt_succ hsize) hp, ?_⟩
        show (e.outs p).finished = false
        rw [← hout]
        exact hfin
      rw [hout]
      exact more (h.flows p hlive)
  · intro r' hr' hc' hid
    rw [hmax] at hid
    rcases mem_append.mp hr' with hr' | hr'
    · have hknown := h.known r' hr' hc' hid
      exact ⟨hknown.1.trans_le hle, fun hp => (hknown.2 hp).trans_le hle⟩
    · rw [mem_singleton.mp hr']
      exact ⟨hseq.1, fun _ => hseq.2⟩

/-- One record. -/
theorem record (hl : Loadable (seen ++ [r])) :
    Rebuilding (seen ++ [r]) (restoreRecord (e, rel) r).1 (restoreRecord (e, rel) r).2 := by
  have hkeys : ∀ r' ∈ seen, r'.key ≠ r.key := by
    intro r' hr' heq
    have hnodup := hl.keys
    rw [map_append, nodup_append] at hnodup
    exact hnodup.2.2 r'.key (mem_map_of_mem hr') r.key (by simp) heq
  rcases restoreRecord_cases e rel r with ⟨heq, hskip⟩ | ⟨hnot, hdir, href, ids, err, hclaim, heq⟩ |
    ⟨hc, ids, hclaim, heq⟩ | ⟨hnot, hdir, heq⟩
  · rw [heq]
    exact h.skip hkeys hskip
  · rw [heq]
    exact h.bury hnot hdir href hclaim
  · have hsorted : ∀ r' ∈ seen, Continues r' → r'.seq < r.seq := fun r' hr' hc' =>
      (pairwise_append.mp hl.sorted).2.2 r' hr' r (by simp) hc' hc
    obtain ⟨⟨own, hown⟩, hord, hwait, hlast, htaken, hflows, hknown⟩ := h.revive hc hsorted hclaim
    have hself : (revived e ids r).outs e.nextOut = restoredOut r := update_self ..
    have hrecalled : ∀ id x, e.inn.get id = some x → ∃ r' ∈ seen ++ [r], r'.key = inKey id :=
      fun id x hx => more (h.recalled id x hx)
    rw [heq]
    by_cases hphase : r.phase = .awaitPubcomp
    · rw [if_pos hphase]
      refine ⟨⟨own, hown⟩, h.healthy, h.idle, hord.perm (perm_append_singleton _ _).symm,
        ?_, h.norel, h.cursor, h.inbox, htaken, hrecalled, hflows, hknown⟩
      intro p hp
      rcases mem_append.mp hp with hp | hp
      · exact hwait p hp
      · rw [mem_singleton.mp hp]
        show (flowOf ((revived e ids r).outs e.nextOut)).waiting = true
        rw [hself]
        simp [flowOf, restoredOut, hphase]
    · rw [if_neg hphase]
      have hlink := hord.linkPub (by
        show ((revived e ids r).outs e.nextOut).seq = ((revived e ids r).outs e.nextOut).pubSeq
        rw [hself]
        exact if_neg hphase) (by
        show (flowOf ((revived e ids r).outs e.nextOut)).waiting = false
        rw [hself]
        simp [flowOf, restoredOut, hphase]) (by
        intro q hq
        show _ < ((revived e ids r).outs e.nextOut).pubSeq
        rw [hself]
        exact hlast q hq)
      exact ⟨⟨own, hown.congr rfl rfl ⟨rfl, rfl, rfl⟩ rfl
        (fun _ => ⟨rfl, rfl, rfl, rfl, rfl, rfl⟩) (fun _ => rfl) (fun _ _ hi => hi)
        fun _ _ hr => hr⟩, h.healthy, h.idle, hlink, hwait, h.norel, h.cursor, h.inbox, htaken,
        hrecalled, hflows, hknown⟩
  · rw [heq]
    exact h.remember hnot hdir hkeys

/-- All the records. -/
theorem foldl (hl : Loadable (seen ++ rest)) :
    Rebuilding (seen ++ rest) (rest.foldl restoreRecord (e, rel)).1
      (rest.foldl restoreRecord (e, rel)).2 := by
  induction rest generalizing seen e rel with
  | nil => simpa using h
  | cons r rest ih =>
    have heq : seen ++ r :: rest = seen ++ [r] ++ rest := by simp
    rw [heq] at hl ⊢
    exact ih (h.record hl.left) hl

end

end Rebuilding

/-! ### What is not rebuilt -/

/-- The engine without what `Restore` rebuilds from records. -/
def others (e : Engine) : Engine :=
  { e with
    ids := newIDTable e.ids.max
    outs := fun _ => {}
    nextOut := 0
    out := ∅
    refs := ∅
    orphans := ∅
    pub := []
    nextSeq := 0
    ins := fun _ => {}
    nextIn := 0
    inn := ∅ }

/-- A claim takes an identifier of the same range. -/
theorem claim_max {t t' : IDTable} {o : Owner} (h : claim t id o = some t') : t'.max = t.max := by
  unfold claim at h
  split at h
  · cases h
  · split at h
    · rw [← Option.some.inj h]
    · cases h

/-- The flows of `e'` are those of `e` and new ones, each ended or restored from a record, and
without an adopter; the orphans that came are among the new ones. -/
structure Revives (recs : List Record) (e e' : Engine) : Prop where
  grows : e.nextOut ≤ e'.nextOut
  heap : ∀ q, e'.outs q = e.outs q ∨ e.nextOut ≤ q ∧ (e'.outs q).adopted = false
  new : ∀ q, e.nextOut ≤ q → q < e'.nextOut →
    (e'.outs q).finished = true ∨ ∃ r ∈ recs, Continues r ∧ e'.outs q = restoredOut r
  orphans : ∀ ref q, e'.orphans.get ref = some q → e.orphans.get ref = some q ∨ e.nextOut ≤ q

namespace Revives

variable {recs : List Record} {e e' e'' : Engine}

theorem old (h : Revives recs e e') {q : OutPtr} (hq : q < e.nextOut) : e'.outs q = e.outs q :=
  (h.heap q).resolve_right fun hge => absurd hq (Nat.not_lt_of_le hge.1)

theorem of_eq (hnext : e'.nextOut = e.nextOut) (houts : e'.outs = e.outs)
    (horph : ∀ ref q, e'.orphans.get ref = some q → e.orphans.get ref = some q) :
    Revives recs e e' := by
  refine ⟨hnext.ge, fun q => .inl (by rw [houts]), fun q h1 h2 => ?_,
    fun ref q hq => .inl (horph ref q hq)⟩
  rw [hnext] at h2
  exact absurd h1 (Nat.not_le_of_lt h2)

theorem trans (h : Revives recs e e') (h' : Revives recs e' e'') : Revives recs e e'' := by
  refine ⟨Nat.le_trans h.grows h'.grows, fun q => ?_, fun q h1 h2 => ?_, fun ref q hq => ?_⟩
  · rcases h'.heap q with heq | ⟨hge, had⟩
    · rw [heq]
      exact h.heap q
    · exact .inr ⟨h.grows.trans hge, had⟩
  · by_cases hq : q < e'.nextOut
    · rw [h'.old hq]
      exact h.new q h1 hq
    · exact h'.new q (Nat.le_of_not_lt hq) h2
  · rcases h'.orphans ref q hq with hq | hge
    · exact h.orphans ref q hq
    · exact .inr (h.grows.trans hge)

/-- One flow is allocated. -/
theorem alloc {o : Out} (hnext : e'.nextOut = e.nextOut + 1)
    (houts : e'.outs = Function.update e.outs e.nextOut o) (hadopted : o.adopted = false)
    (ho : o.finished = true ∨ ∃ r ∈ recs, Continues r ∧ o = restoredOut r)
    (horph : ∀ ref q, e'.orphans.get ref = some q → e.orphans.get ref = some q ∨ q = e.nextOut) :
    Revives recs e e' := by
  refine ⟨by omega, fun q => ?_, fun q h1 h2 => ?_, fun ref q hq => ?_⟩
  · by_cases hq : q = e.nextOut
    · rw [houts, hq, update_self]
      exact .inr ⟨le_rfl, hadopted⟩
    · rw [houts, update_of_ne hq]
      exact .inl rfl
  · obtain rfl : q = e.nextOut := by omega
    rw [houts, update_self]
    exact ho
  · rcases horph ref q hq with hq | rfl
    · exact .inl hq
    · exact .inr le_rfl

end Revives

/-- What records do to an engine: flows come back, and nothing changes but what is rebuilt. -/
structure Passed (recs : List Record) (e e' : Engine) : Prop where
  revives : Revives recs e e'
  others : others e' = others e
  nextSeq : e.nextSeq ≤ e'.nextSeq

theorem Passed.record {recs : List Record} {r : Record} (hr : r ∈ recs)
    (st : Engine × List OutPtr) : Passed recs st.1 (restoreRecord st r).1 := by
  obtain ⟨e, rel⟩ := st
  rcases restoreRecord_cases e rel r with ⟨heq, -⟩ | ⟨-, -, -, ids, err, hclaim, heq⟩ |
    ⟨hc, ids, hclaim, heq⟩ | ⟨-, -, heq⟩
  · rw [heq]
    exact ⟨.of_eq rfl rfl fun _ _ hq => hq, rfl, le_rfl⟩
  · rw [heq]
    refine ⟨.alloc (o := restoredOrphan r err) rfl rfl rfl (.inl rfl) fun ref q hq => ?_,
      by simp only [Analysis.others, buried, allocOut, claim_max hclaim], Nat.le_max_left _ _⟩
    have hq : (e.orphans.set r.ref e.nextOut).get ref = some q := hq
    rw [get_set] at hq
    split at hq
    · exact .inr (Option.some.inj hq).symm
    · exact .inl hq
  · rw [heq]
    split <;>
      exact ⟨.alloc (o := restoredOut r) rfl rfl rfl (.inr ⟨r, hr, hc, rfl⟩) fun _ _ => .inl,
        by simp only [Analysis.others, revived, allocOut, claim_max hclaim], Nat.le_max_left _ _⟩
  · rw [heq]
    exact ⟨.of_eq rfl rfl fun _ _ hq => hq, rfl, le_rfl⟩

theorem Passed.foldl {recs : List Record} (l : List Record) (hl : ∀ r ∈ l, r ∈ recs) :
    ∀ st : Engine × List OutPtr, Passed recs st.1 (l.foldl restoreRecord st).1 := by
  induction l with
  | nil => exact fun st => ⟨.of_eq rfl rfl fun _ _ hq => hq, rfl, le_rfl⟩
  | cons r rest ih =>
    intro st
    obtain ⟨hone, hothers, hseq⟩ := Passed.record (hl r (mem_cons_self ..)) st
    obtain ⟨hrest, hothers', hseq'⟩ :=
      ih (fun r hr => hl r (.tail _ hr)) (restoreRecord st r)
    exact ⟨hone.trans hrest, hothers'.trans hothers, hseq.trans hseq'⟩

/-- The engine `Restore` starts from. -/
def cleared (e : Engine) (m : Meta) : Engine :=
  { e with failure := none, ids := newIDTable e.ids.max, orphans := ∅, metaData := m }

/-- INTERNAL: `Restore` goes through the records and puts the waiting flows in PUBREC order. -/
theorem restoreLocked_some {m : Meta} (h : restoreLocked e m recs = some e') :
    (∀ id, e.out.get id = none) ∧ (∀ id, e.inn.get id = none) ∧
    ∃ d rel, recs.foldl restoreRecord (cleared e m, []) = (d, rel) ∧
      Passed recs (cleared e m) d ∧ e' = { d with
        rel := d.rel ++ rel.insertionSort fun a b => (d.outs a).seq ≤ (d.outs b).seq } := by
  unfold restoreLocked at h
  split at h
  · cases h
  · rename_i hlen
    have hempty : ∀ {V : Type} (x : FiniteMap PacketID V), ¬ 0 < x.len → ∀ id, x.get id = none := by
      intro V x hx id
      cases hget : x.get id with
      | none => rfl
      | some v =>
        exfalso
        exact hx (length_pos_of_mem ((mem_toList x id v).mpr hget))
    refine ⟨hempty _ fun hcon => hlen (.inl hcon), hempty _ fun hcon => hlen (.inr hcon), ?_⟩
    exact ⟨_, _, rfl, Passed.foldl recs (fun _ hr => hr) (cleared e m, []),
      (Option.some.inj h).symm⟩

/-- What `Restore` does not rebuild stays. -/
theorem restoreLocked_frame {m : Meta} (h : restoreLocked e m recs = some e') :
    (∃ rel, others e' = { others (cleared e m) with rel := rel }) ∧ e.nextSeq ≤ e'.nextSeq := by
  obtain ⟨-, -, d, rel, -, hp, rfl⟩ := restoreLocked_some h
  refine ⟨⟨d.rel ++ rel.insertionSort fun a b => (d.outs a).seq ≤ (d.outs b).seq, ?_⟩, hp.nextSeq⟩
  rw [← hp.others]
  rfl

/-- INTERNAL: **What `Restore` does to the flows.** -/
theorem Revives.restoreLocked {m : Meta} (h : restoreLocked e m recs = some e') :
    Revives recs e e' := by
  obtain ⟨-, -, d, rel, -, hp, rfl⟩ := restoreLocked_some h
  have hstart : Revives recs e (cleared e m) := .of_eq rfl rfl fun ref q hq => by
    have hq : (∅ : FiniteMap Bytes OutPtr).get ref = some q := hq
    rw [get_empty] at hq
    cases hq
  exact (hstart.trans hp.revives).trans (.of_eq rfl rfl fun _ _ hq => hq)

/-- Before the first record. -/
theorem rebuilding_start (m : Meta) (hidle : ∀ k, e.queues k = []) (hrun : e.stuck = false)
    (hmax : 0 < e.ids.max) (hout : ∀ id, e.out.get id = none) (hinn : ∀ id, e.inn.get id = none)
    (hq : (sendQueue e).Steady) (hin : (inbox e).Sound) : Rebuilding [] (cleared e m) [] := by
  have hlive : ∀ p, ¬ (sendQueue e).Live p := by
    intro p hp
    have hget := (hq.ordered.get _ p).mpr ⟨hp, rfl⟩
    have hnone : (sendQueue e).out.get ((sendQueue e).flows p).id = none := hout _
    rw [hnone] at hget
    cases hget
  have hlist : ∀ p, p ∉ (sendQueue e).listed [] := fun p hp => hlive p ((hq.ordered.mem p).mp hp)
  have hrel : e.rel = [] := by
    rw [eq_nil_iff_forall_not_mem]
    intro p hp
    exact hlist p (mem_append_left _ (mem_append_right _ hp))
  have hcursor : e.cursor = none := by
    cases hc : e.cursor with
    | none => rfl
    | some p =>
      have hmem : p ∈ (sendQueue e).pub := hq.cursor_mem hc
      exact absurd (mem_append_left _ (mem_append_left _ hmem)) (hlist p)
  refine ⟨⟨fun _ => none, ⟨balanced_new _ hmax, hrun, ?_, ?_, fun id _ => hidle _, ?_, ?_, ?_, ?_,
    nodup_nil⟩, ?_⟩, rfl, hidle, hq.ordered, ?_, hrel, hcursor, hin, ?_, ?_, ?_, ?_⟩
  · intro _ _ hcon
    cases hcon
  · intro _ _ hcon
    cases hcon
  · intro id p hp
    have hnone : (cleared e m).out.get id = none := hout id
    rw [hnone] at hp
    cases hp
  · intro r p hp
    have hnone : (cleared e m).orphans.get r = none := get_empty r
    rw [hnone] at hp
    cases hp
  · intro _ _ hcon
    cases hcon
  · intro _ _ hmem
    cases hmem
  · intro _ _ hcon
    cases hcon
  · intro p hp
    cases hp
  · intro id hid
    exact absurd rfl hid
  · intro id x hx
    have hnone : (cleared e m).inn.get id = none := hinn id
    rw [hnone] at hx
    cases hx
  · intro p hp
    exact absurd hp (hlive p)
  · intro r hr
    cases hr

namespace Rebuilding

variable {seen : List Record} {e : Engine} {rel : List OutPtr}

/-- No two of the waiting flows have their PUBRECs in one place. -/
theorem places (h : Rebuilding seen e rel) (hl : Loadable seen) :
    rel.Pairwise fun p q => (e.outs p).seq ≠ (e.outs q).seq := by
  have hnodup : rel.Nodup := (nodup_append.mp h.ordered.nodup).2.1
  have hsym : Std.Symm fun a b : Record => Continues a → Continues b → a.phase = .awaitPubcomp →
      b.phase = .awaitPubcomp → a.pubrecSeq ≠ b.pubrecSeq := ⟨fun a b hab hb ha hpb hpa heq =>
    hab ha hb hpa hpb heq.symm⟩
  have hof : ∀ p ∈ rel, ∃ r ∈ seen, Continues r ∧ e.outs p = restoredOut r ∧
      r.phase = .awaitPubcomp := by
    intro p hp
    obtain ⟨r, hr, hc, hout⟩ := h.flows p ((h.ordered.mem p).mp (by simp [SendQueue.listed, hp]))
    refine ⟨r, hr, hc, hout, ?_⟩
    have hwait : (flowOf (e.outs p)).waiting = true := h.waiting p hp
    rw [hout] at hwait
    exact of_decide_eq_true hwait
  apply List.Pairwise.imp_of_mem _ hnodup
  intro p q hp hq hne heq
  obtain ⟨r, hr, hc, hout, hphase⟩ := hof p hp
  obtain ⟨r', hr', hc', hout', hphase'⟩ := hof q hq
  -- Two flows have two identifiers, so they come from two records.
  have hrr : r ≠ r' := by
    rintro rfl
    have hget := (h.ordered.get (e.outs p).id p).mpr
      ⟨(h.ordered.mem p).mp (by simp [SendQueue.listed, hp]), rfl⟩
    have hget' := (h.ordered.get (e.outs q).id q).mpr
      ⟨(h.ordered.mem q).mp (by simp [SendQueue.listed, hq]), rfl⟩
    rw [hout, ← hout', hget'] at hget
    exact hne (Option.some.inj hget).symm
  apply hl.places.forall hr hr' hrr hc hc' hphase hphase'
  rw [hout, hout'] at heq
  simpa [restoredOut, hphase, hphase'] using heq

/-- The waiting flows in PUBREC order close the send queue. -/
theorem close (h : Rebuilding seen e rel) (hl : Loadable seen) :
    (sendQueue { e with
      rel := e.rel ++ rel.insertionSort fun a b => (e.outs a).seq ≤ (e.outs b).seq }).Steady := by
  have hperm := (rel.perm_insertionSort fun a b => (e.outs a).seq ≤ (e.outs b).seq)
  have hplaces : (rel.insertionSort fun a b => (e.outs a).seq ≤ (e.outs b).seq).Pairwise
      fun p q => (e.outs p).seq ≠ (e.outs q).seq :=
    (hperm.symm.pairwise_iff fun hpq => hpq.symm).mp (h.places hl)
  have hle := rel.pairwise_insertionSort fun a b => (e.outs a).seq ≤ (e.outs b).seq
  have hord := (h.ordered.perm hperm.symm).linkAll h.norel
    (fun q hq => h.waiting q (hperm.mem_iff.mp hq))
    ((hle.and hplaces).imp fun hpq => Nat.lt_of_le_of_ne hpq.1 hpq.2)
  have heq : sendQueue { e with
      rel := e.rel ++ rel.insertionSort fun a b => (e.outs a).seq ≤ (e.outs b).seq } =
      { sendQueue e with rel := rel.insertionSort fun a b => (e.outs a).seq ≤ (e.outs b).seq } := by
    simp only [sendQueue, h.norel, nil_append]
  rw [heq]
  exact ⟨hord, e.pub, [], by simp [sendQueue], by simp [sendQueue, h.cursor]⟩

end Rebuilding

end Mqttv5.Analysis
