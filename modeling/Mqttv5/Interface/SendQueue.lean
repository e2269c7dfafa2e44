import Mathlib.Logic.Function.Basic
import Mqttv5.Computation.Cursor
import Mqttv5.Computation.FiniteMap

/-!
# The send queue

What the outbound half of the engine is for, without packets, stores, producers or errors:
flows with an identifier and a place in two orders, the order their PUBLISHes were first
sent in (`pubSeq`) and the order their PUBRECs arrived in (`seq` of a waiting flow), a
cursor that walks the first order once per connection, and a quota.

The operations are the elementary changes the engine is built of; `Ordered`, `Metered` and
`Walked` are what each of them keeps. `loose` are flows taken off their list by an
operation that has not put them anywhere yet.
-/

set_option autoImplicit false

namespace Mqttv5.Interface

open Mqttv5.Computation List FiniteMap

/-- An outbound flow. `waiting` says that it is not finished and waits for its PUBCOMP. -/
structure Flow where
  id : ℕ
  qos : ℕ
  seq : ℕ
  pubSeq : ℕ
  ref : List UInt8
  waiting : Bool
  attempted : Bool
  counted : Bool
  finished : Bool
  deriving DecidableEq

structure SendQueue where
  flows : ℕ → Flow
  size : ℕ
  out : FiniteMap ℕ ℕ
  refs : FiniteMap (List UInt8) ℕ
  pub : List ℕ
  rel : List ℕ
  nextSeq : ℕ
  cursor : Option ℕ
  quota : ℤ
  quotaMax : ℤ

namespace SendQueue

/-- Change the flow at `p`. -/
def setFlow (b : SendQueue) (p : ℕ) (f : Flow → Flow) : SendQueue :=
  { b with flows := Function.update b.flows p (f (b.flows p)) }

/-- A flow comes into the session, on no list yet. -/
def enroll (b : SendQueue) (f : Flow) (n : ℕ) : SendQueue :=
  { b with
    flows := Function.update b.flows b.size f
    size := b.size + 1
    nextSeq := n
    out := b.out.set f.id b.size
    refs := if f.ref ≠ [] then b.refs.set f.ref b.size else b.refs }

/-- A flow that has ended before is remembered. -/
def bury (b : SendQueue) (f : Flow) (n : ℕ) : SendQueue :=
  { b with
    flows := Function.update b.flows b.size f
    size := b.size + 1
    nextSeq := n }

/-- A new flow at the end of the send order. -/
def add (b : SendQueue) (id qos : ℕ) (ref : List UInt8) : SendQueue :=
  { b with
    flows := Function.update b.flows b.size
      ⟨id, qos, b.nextSeq, b.nextSeq, ref, false, false, false, false⟩
    size := b.size + 1
    nextSeq := b.nextSeq + 1
    out := b.out.set id b.size
    refs := if ref ≠ [] then b.refs.set ref b.size else b.refs
    pub := b.pub ++ [b.size]
    cursor := if b.cursor = none then some b.size else b.cursor }

/-- The flow behind `p` on its list. -/
def next (b : SendQueue) (p : ℕ) : Option ℕ :=
  if p ∈ b.pub then succIn b.pub p else if p ∈ b.rel then succIn b.rel p else none

/-- Take `p` off its list. -/
def unlink (b : SendQueue) (p : ℕ) : SendQueue :=
  { b with
    cursor := if b.cursor = some p then b.next p else b.cursor
    pub := b.pub.erase p
    rel := b.rel.erase p }

/-- `p`, on no list, leaves the session. -/
def close (b : SendQueue) (p : ℕ) : SendQueue :=
  { b.setFlow p fun f => { f with finished := true, waiting := false } with
    out := b.out.del (b.flows p).id
    refs := if (b.flows p).ref ≠ [] then b.refs.del (b.flows p).ref else b.refs }

/-- Return the unit of quota that `p` holds, if it holds one. -/
def credit (b : SendQueue) (p : ℕ) : SendQueue :=
  if (b.flows p).counted then
    { b.setFlow p fun f => { f with counted := false } with quota := b.quota + 1 }
  else b

/-- `p` leaves the session. -/
def finish (b : SendQueue) (p : ℕ) : SendQueue := (b.unlink p).close p

/-- `p` leaves the session on its last acknowledgement. -/
def acked (b : SendQueue) (p : ℕ) : SendQueue := ((b.unlink p).credit p).close p

/-- `p`, on no list, waits for its PUBCOMP behind all that already do. -/
def pushRel (b : SendQueue) (p : ℕ) : SendQueue :=
  { b.setFlow p fun f => { f with waiting := true, seq := b.nextSeq } with
    nextSeq := b.nextSeq + 1
    rel := b.rel ++ [p] }

/-- The PUBREC of `p` arrived. -/
def toRel (b : SendQueue) (p : ℕ) : SendQueue := (b.unlink p).pushRel p

/-- The PUBLISH of the flow at the cursor is handed out. -/
def handOut (b : SendQueue) (p : ℕ) : SendQueue :=
  { b.setFlow p fun f => { f with attempted := true, counted := true } with
    quota := b.quota - 1
    cursor := b.next p }

/-- A new connection with its quota. -/
def bind (b : SendQueue) (quotaMax : ℤ) : SendQueue :=
  { b with
    flows := fun p => if p ∈ b.out.vals then { b.flows p with counted := false } else b.flows p
    quota := quotaMax
    quotaMax := quotaMax }

/-- The cursor back at the first flow. -/
def rewind (b : SendQueue) : SendQueue := { b with cursor := b.pub.head? }

/-- All flows off their lists. -/
def drain (b : SendQueue) : SendQueue := { b with pub := [], rel := [] }

/-- `p`, on no list, is sent again as a new message in its old place. -/
def requeue (b : SendQueue) (p : ℕ) : SendQueue :=
  { b.setFlow p fun f => { f with waiting := false, seq := f.pubSeq, attempted := false } with
    pub := b.pub ++ [p] }

/-- `p` is not finished. -/
def Live (b : SendQueue) (p : ℕ) : Prop := p < b.size ∧ (b.flows p).finished = false

/-- All flows of the session, those on no list last. -/
def listed (b : SendQueue) (loose : List ℕ) : List ℕ := b.pub ++ b.rel ++ loose

/-- The flows of the session are the disjoint union of the lists, each in its order. -/
structure Ordered (b : SendQueue) (loose : List ℕ) : Prop where
  mem : ∀ p, p ∈ b.listed loose ↔ b.Live p
  nodup : (b.listed loose).Nodup
  get : ∀ id p, b.out.get id = some p ↔ b.Live p ∧ (b.flows p).id = id
  pub_seq : ∀ p ∈ b.pub, (b.flows p).seq = (b.flows p).pubSeq ∧ (b.flows p).waiting = false
  rel_waiting : ∀ p ∈ b.rel, (b.flows p).waiting = true
  pub_sorted : b.pub.Pairwise fun p q => (b.flows p).pubSeq < (b.flows q).pubSeq
  rel_sorted : b.rel.Pairwise fun p q => (b.flows p).seq < (b.flows q).seq
  bound : ∀ p, b.Live p → (b.flows p).seq < b.nextSeq ∧ (b.flows p).pubSeq < b.nextSeq
  inj : ∀ p q, b.Live p → b.Live q → (b.flows p).pubSeq = (b.flows q).pubSeq → p = q
  refs : ∀ r p, b.refs.get r = some p → b.Live p ∧ (b.flows p).ref = r ∧ r ≠ []

/-- The quota counts the flows that hold a unit of it, which are those handed out on this
connection and not acknowledged since. -/
structure Metered (b : SendQueue) (loose outstanding : List ℕ) : Prop where
  perm : outstanding.Perm ((b.listed loose).filter fun p => (b.flows p).counted)
  sum : b.quota + outstanding.length = b.quotaMax
  nonneg : 0 ≤ b.quota
  tried : ∀ p ∈ b.listed loose, (b.flows p).counted = true → (b.flows p).attempted = true

/-- The cursor stands between the flows handed out on this connection and the others; the
former were handed out in send order and all come before the latter. -/
structure Walked (b : SendQueue) (handed : List ℕ) : Prop where
  split : ∃ done todo, Splits b.pub b.cursor done todo ∧ (∀ p ∈ done, p ∈ handed) ∧
    ∀ p ∈ todo, ∀ q ∈ handed, (b.flows q).pubSeq < (b.flows p).pubSeq
  sorted : handed.Pairwise fun p q => (b.flows p).pubSeq < (b.flows q).pubSeq
  bound : ∀ p ∈ handed, p < b.size ∧ (b.flows p).pubSeq < b.nextSeq

/-- INTERNAL: The flow that is changed. -/
@[simp]
theorem setFlow_flows_self (b : SendQueue) (p : ℕ) (f : Flow → Flow) :
    (b.setFlow p f).flows p = f (b.flows p) := by
  simp [setFlow]

section

variable (b : SendQueue)

/-- INTERNAL: The others stay. -/
theorem setFlow_flows_ne (f : Flow → Flow) {p q : ℕ} (h : q ≠ p) :
    (b.setFlow p f).flows q = b.flows q := by
  simp [setFlow, h]

/-- INTERNAL: The end of a flow with a Ref. -/
theorem close_ref (p : ℕ) (h : (b.flows p).ref ≠ []) : b.close p =
    { b.setFlow p fun f => { f with finished := true, waiting := false } with
      out := b.out.del (b.flows p).id
      refs := b.refs.del (b.flows p).ref } := by
  unfold close
  rw [if_pos h]

/-- INTERNAL: The end of a flow without one. -/
theorem close_no_ref (p : ℕ) (h : ¬ (b.flows p).ref ≠ []) : b.close p =
    { b.setFlow p fun f => { f with finished := true, waiting := false } with
      out := b.out.del (b.flows p).id } := by
  unfold close
  rw [if_neg h]
  rfl

/-- INTERNAL: No change. -/
theorem setFlow_id (p : ℕ) : b.setFlow p id = b := by
  simp [setFlow]

end

namespace Ordered

variable {b b' : SendQueue} {loose rest : List ℕ} {p : ℕ}

section

variable (h : Ordered b loose)
include h

/-- Only the lists, the map and the order fields of the flows matter. -/
theorem congr (hpub : b'.pub = b.pub) (hrel : b'.rel = b.rel)
    (hout : ∀ id, b'.out.get id = b.out.get id) (hsize : b'.size = b.size)
    (hnext : b'.nextSeq = b.nextSeq) (hrefs : ∀ r p, b'.refs.get r = some p → b.refs.get r = some p)
    (hflow : ∀ p, (b'.flows p).id = (b.flows p).id ∧ (b'.flows p).seq = (b.flows p).seq ∧
      (b'.flows p).pubSeq = (b.flows p).pubSeq ∧ (b'.flows p).waiting = (b.flows p).waiting ∧
      (b'.flows p).finished = (b.flows p).finished ∧ (b'.flows p).ref = (b.flows p).ref) :
    Ordered b' loose := by
  have hid := fun p => (hflow p).1
  have hseq := fun p => (hflow p).2.1
  have hps := fun p => (hflow p).2.2.1
  have hw := fun p => (hflow p).2.2.2.1
  have hfin := fun p => (hflow p).2.2.2.2.1
  have href := fun p => (hflow p).2.2.2.2.2
  have hlive : ∀ p, b'.Live p ↔ b.Live p := fun p => by simp only [Live, hsize, hfin]
  have hlisted : b'.listed loose = b.listed loose := by simp only [listed, hpub, hrel]
  constructor
  · intro p; rw [hlisted, hlive]; exact h.mem p
  · rw [hlisted]; exact h.nodup
  · intro id p; rw [hout, hlive, hid]; exact h.get id p
  · intro p hp; rw [hseq, hps, hw]; exact h.pub_seq p (hpub ▸ hp)
  · intro p hp; rw [hw]; exact h.rel_waiting p (hrel ▸ hp)
  · simp only [hpub, hps]; exact h.pub_sorted
  · simp only [hrel, hseq]; exact h.rel_sorted
  · intro p hp; rw [hseq, hps, hnext]; exact h.bound p ((hlive p).mp hp)
  · intro p q hp hq; rw [hps, hps]; exact h.inj p q ((hlive p).mp hp) ((hlive q).mp hq)
  · intro r p hp; rw [hlive, href]; exact h.refs r p (hrefs r p hp)

/-- INTERNAL: The flow at an identifier lives. -/
theorem live_of_get {id : ℕ} (hp : b.out.get id = some p) : b.Live p :=
  ((h.get id p).mp hp).1

/-- INTERNAL: It has that identifier. -/
theorem id_of_get {id : ℕ} (hp : b.out.get id = some p) : (b.flows p).id = id :=
  ((h.get id p).mp hp).2

/-- INTERNAL: A flow of the send order lives. -/
theorem live_of_pub (hp : p ∈ b.pub) : b.Live p :=
  (h.mem p).mp (by simp [listed, hp])

/-- INTERNAL: A flow of the PUBREC order lives. -/
theorem live_of_rel (hp : p ∈ b.rel) : b.Live p :=
  (h.mem p).mp (by simp [listed, hp])

/-- INTERNAL: No flow is twice in the send order. -/
theorem pub_nodup : b.pub.Nodup :=
  h.nodup.sublist (by simp [listed])

end

/-- INTERNAL: A flow on a list lives. -/
theorem live_of_listed (h : Ordered b loose) (hp : p ∈ b.pub ∨ p ∈ b.rel) : b.Live p :=
  hp.elim h.live_of_pub h.live_of_rel

/-- What is said of the lists is kept while the flows on them do not change. -/
theorem lists_congr (h : Ordered b loose)
    (hold : ∀ q, q ∈ b.pub ∨ q ∈ b.rel → b'.flows q = b.flows q) (hpub : b'.pub = b.pub)
    (hrel : b'.rel = b.rel) :
    (∀ q ∈ b'.pub, (b'.flows q).seq = (b'.flows q).pubSeq ∧ (b'.flows q).waiting = false) ∧
    (b'.pub.Pairwise fun q r => (b'.flows q).pubSeq < (b'.flows r).pubSeq) ∧
    (∀ q ∈ b'.rel, (b'.flows q).waiting = true) ∧
    b'.rel.Pairwise fun q r => (b'.flows q).seq < (b'.flows r).seq := by
  rw [hpub, hrel]
  refine ⟨?_, ?_, ?_, ?_⟩
  · intro q hq
    rw [hold q (.inl hq)]
    exact h.pub_seq q hq
  · refine h.pub_sorted.imp_of_mem ?_
    intro q r hq hr hlt
    rw [hold q (.inl hq), hold r (.inl hr)]
    exact hlt
  · intro q hq
    rw [hold q (.inr hq)]
    exact h.rel_waiting q hq
  · refine h.rel_sorted.imp_of_mem ?_
    intro q r hq hr hlt
    rw [hold q (.inr hq), hold r (.inr hr)]
    exact hlt

/-- INTERNAL: A loose flow is on no list. -/
theorem loose_not_listed (h : Ordered b (p :: rest)) {q : ℕ} (hq : q ∈ b.pub ∨ q ∈ b.rel) :
    q ≠ p := by
  intro hqp
  have hnd := perm_middle.nodup_iff.mp h.nodup
  rw [nodup_cons] at hnd
  exact hnd.1 (by rw [← hqp]; rcases hq with hq | hq <;> simp [hq])

section

variable (h : Ordered b loose)
include h

/-- A flow with a place and an identifier of its own joins the session. -/
theorem enroll (f : Flow) {n : ℕ} (hf : f.finished = false)
    (hid : b.out.get f.id = none) (hinj : ∀ q, b.Live q → (b.flows q).pubSeq ≠ f.pubSeq)
    (hn : b.nextSeq ≤ n) (hseq : f.seq < n) (hpubSeq : f.pubSeq < n) :
    Ordered (b.enroll f n) (b.size :: loose) := by
  have hnew : ∀ q, b.Live q → q ≠ b.size := fun q hq => Nat.ne_of_lt hq.1
  have hold : ∀ q, q ≠ b.size → (b.enroll f n).flows q = b.flows q := fun q hq => by
    simp [SendQueue.enroll, hq]
  have hself : (b.enroll f n).flows b.size = f := by simp [SendQueue.enroll]
  have hlive : ∀ q, (b.enroll f n).Live q ↔ b.Live q ∨ q = b.size := by
    intro q
    by_cases hq : q = b.size
    · subst hq
      simp [Live, SendQueue.enroll, hf]
    · simp only [Live, hold q hq, hq, or_false]
      have : q < (b.enroll f n).size ↔ q < b.size := by
        simp only [SendQueue.enroll]
        omega
      rw [this]
  have hperm : ((b.enroll f n).listed (b.size :: loose)).Perm (b.size :: b.listed loose) := by
    simp only [listed, SendQueue.enroll]
    exact perm_middle
  obtain ⟨hpub, hpubs, hrel, hrels⟩ := h.lists_congr
    (fun q hq => hold q (hnew q (h.live_of_listed hq))) rfl rfl
  refine ⟨?_, ?_, ?_, hpub, hrel, hpubs, hrels, ?_, ?_, ?_⟩
  · intro q
    rw [hperm.mem_iff, mem_cons, h.mem, hlive, or_comm]
  · rw [hperm.nodup_iff, nodup_cons]
    exact ⟨fun hmem => hnew _ ((h.mem _).mp hmem) rfl, h.nodup⟩
  · intro i q
    have hget : (b.enroll f n).out.get i = if i = f.id then some b.size else b.out.get i := by
      simp [SendQueue.enroll]
    rw [hget, hlive]
    by_cases hi : i = f.id
    · subst hi
      rw [if_pos rfl]
      constructor
      · rintro ⟨rfl⟩
        exact ⟨.inr rfl, by rw [hself]⟩
      · rintro ⟨hq | rfl, hqid⟩
        · rw [hold q (hnew q hq)] at hqid
          rw [(h.get f.id q).mpr ⟨hq, hqid⟩] at hid
          cases hid
        · rfl
    · rw [if_neg hi, h.get]
      constructor
      · rintro ⟨hq, hqid⟩
        exact ⟨.inl hq, by rw [hold q (hnew q hq)]; exact hqid⟩
      · rintro ⟨hq | rfl, hqid⟩
        · exact ⟨hq, by rw [hold q (hnew q hq)] at hqid; exact hqid⟩
        · rw [hself] at hqid
          exact absurd hqid.symm hi
  · intro q hq
    have hnext : (b.enroll f n).nextSeq = n := rfl
    rw [hnext]
    rcases (hlive q).mp hq with hq | rfl
    · rw [hold q (hnew q hq)]
      have := h.bound q hq
      omega
    · rw [hself]
      exact ⟨hseq, hpubSeq⟩
  · intro q r hq hr heq
    rcases (hlive q).mp hq with hq | rfl <;> rcases (hlive r).mp hr with hr | rfl
    · rw [hold q (hnew q hq), hold r (hnew r hr)] at heq
      exact h.inj q r hq hr heq
    · rw [hold q (hnew q hq), hself] at heq
      exact absurd heq (hinj q hq)
    · rw [hold r (hnew r hr), hself] at heq
      exact absurd heq.symm (hinj r hr)
    · rfl
  · intro r q hq
    rw [hlive]
    have hget : (b.enroll f n).refs.get r = some q → f.ref ≠ [] ∧ r = f.ref ∧ q = b.size ∨
        b.refs.get r = some q := by
      simp only [SendQueue.enroll]
      intro hq
      split at hq
      · rename_i href
        exact (of_get_set hq).symm.imp_left fun ⟨hr, hq⟩ => ⟨href, hr, hq⟩
      · exact .inr hq
    rcases hget hq with ⟨href, rfl, rfl⟩ | hq
    · rw [hself]
      exact ⟨.inr rfl, rfl, href⟩
    · obtain ⟨hl, hrest⟩ := h.refs r q hq
      rw [hold q (hnew q hl)]
      exact ⟨.inl hl, hrest⟩

/-- INTERNAL: A flow that never lives changes no order. -/
theorem bury (f : Flow) {n : ℕ} (hf : f.finished = true)
    (hn : b.nextSeq ≤ n) : Ordered (b.bury f n) loose := by
  have hnew : ∀ q, b.Live q → q ≠ b.size := fun q hq => Nat.ne_of_lt hq.1
  have hold : ∀ q, q ≠ b.size → (b.bury f n).flows q = b.flows q := fun q hq => by
    simp [SendQueue.bury, hq]
  have hlive : ∀ q, (b.bury f n).Live q ↔ b.Live q := by
    intro q
    by_cases hq : q = b.size
    · subst hq
      simp [Live, SendQueue.bury, hf]
    · simp only [Live, hold q hq]
      have : q < (b.bury f n).size ↔ q < b.size := by
        simp only [SendQueue.bury]
        omega
      rw [this]
  obtain ⟨hpub, hpubs, hrel, hrels⟩ := h.lists_congr
    (fun q hq => hold q (hnew q (h.live_of_listed hq))) rfl rfl
  refine ⟨?_, ?_, ?_, hpub, hrel, hpubs, hrels, ?_, ?_, ?_⟩
  · intro q; rw [hlive]; exact h.mem q
  · exact h.nodup
  · intro i q
    show b.out.get i = some q ↔ _
    rw [hlive, h.get]
    refine and_congr_right ?_
    intro hq
    rw [hold q (hnew q hq)]
  · intro q hq
    have hnext : (b.bury f n).nextSeq = n := rfl
    rw [hnext, hold q (hnew q ((hlive q).mp hq))]
    have := h.bound q ((hlive q).mp hq)
    omega
  · intro q r hq hr
    rw [hold q (hnew q ((hlive q).mp hq)), hold r (hnew r ((hlive r).mp hr))]
    exact h.inj q r ((hlive q).mp hq) ((hlive r).mp hr)
  · intro r q hq
    obtain ⟨hl, hrest⟩ := h.refs r q hq
    rw [hlive, hold q (hnew q hl)]
    exact ⟨hl, hrest⟩

/-- A flow taken off its list is the first of the loose ones. -/
theorem listed_unlink (hp : p ∈ b.pub ∨ p ∈ b.rel) :
    ((b.unlink p).listed (p :: loose)).Perm (b.listed loose) := by
  have hnd := h.nodup
  simp only [listed, nodup_append, append_assoc] at hnd
  simp only [listed, unlink]
  by_cases hpub : p ∈ b.pub
  · have hrel : p ∉ b.rel := fun hrel => hnd.2.2 p hpub p (by simp [hrel]) rfl
    rw [erase_of_not_mem hrel]
    refine perm_middle.trans ?_
    rw [← cons_append, ← cons_append]
    exact ((perm_cons_erase hpub).symm.append_right _).append_right _
  · have hrel : p ∈ b.rel := hp.resolve_left hpub
    rw [erase_of_not_mem hpub, append_assoc, append_assoc]
    refine List.Perm.append_left _ (perm_middle.trans ?_)
    rw [← cons_append]
    exact (perm_cons_erase hrel).symm.append_right _

/-- INTERNAL: A flow leaves its list. -/
theorem unlink (hp : p ∈ b.pub ∨ p ∈ b.rel) :
    Ordered (b.unlink p) (p :: loose) := by
  have hperm := h.listed_unlink hp
  have hsub : (b.pub.erase p).Sublist b.pub := erase_sublist
  have hsub' : (b.rel.erase p).Sublist b.rel := erase_sublist
  constructor
  · intro q; rw [hperm.mem_iff]; exact h.mem q
  · exact hperm.nodup_iff.mpr h.nodup
  · exact h.get
  · exact fun q hq => h.pub_seq q (hsub.subset hq)
  · exact fun q hq => h.rel_waiting q (hsub'.subset hq)
  · exact h.pub_sorted.sublist hsub
  · exact h.rel_sorted.sublist hsub'
  · exact h.bound
  · exact h.inj
  · exact h.refs

end

/-- A flow that leaves takes its own Ref along. -/
theorem close_refs_get {r : List UInt8} {q : ℕ} (hq : (b.close p).refs.get r = some q) :
    b.refs.get r = some q ∧ ¬ ((b.flows p).ref ≠ [] ∧ r = (b.flows p).ref) := by
  simp only [SendQueue.close] at hq
  split at hq
  · obtain ⟨hq, hne⟩ := of_get_del hq
    exact ⟨hq, fun hcon => hne hcon.2⟩
  · rename_i href
    exact ⟨hq, fun hcon => href hcon.1⟩

section

variable (h : Ordered b (p :: rest))
include h

/-- A loose flow leaves the session. -/
theorem close : Ordered (b.close p) rest := by
  have hp : b.Live p := (h.mem p).mp (by simp [listed])
  have hperm : (b.listed (p :: rest)).Perm (p :: b.listed rest) := perm_middle
  have hnd := hperm.nodup_iff.mp h.nodup
  rw [nodup_cons] at hnd
  have hne : ∀ q ∈ b.listed rest, q ≠ p := fun q hq hqp => hnd.1 (hqp ▸ hq)
  have hold : ∀ q, q ≠ p → (b.close p).flows q = b.flows q := fun q hq => by
    simp [SendQueue.close, setFlow, hq]
  have hself : (b.close p).flows p = { b.flows p with finished := true, waiting := false } := by
    simp [SendQueue.close, setFlow]
  have hlive : ∀ q, (b.close p).Live q ↔ b.Live q ∧ q ≠ p := by
    intro q
    by_cases hq : q = p
    · subst hq
      simp [Live, hself]
    · simp [Live, hq, SendQueue.close, setFlow]
  obtain ⟨hpub, hpubs, hrel, hrels⟩ := h.lists_congr
    (fun q hq => hold q (h.loose_not_listed hq)) rfl rfl
  refine ⟨?_, ?_, ?_, hpub, hrel, hpubs, hrels, ?_, ?_, ?_⟩
  · intro q
    rw [hlive, ← h.mem q, hperm.mem_iff, mem_cons]
    constructor
    · exact fun hq => ⟨.inr hq, hne q hq⟩
    · rintro ⟨hq | hq, hqp⟩
      · exact absurd hq hqp
      · exact hq
  · exact hnd.2
  · intro id q
    have hget : (b.close p).out.get id = if id = (b.flows p).id then none else b.out.get id := by
      simp [SendQueue.close]
    rw [hget, hlive]
    by_cases hid : id = (b.flows p).id
    · rw [if_pos hid]
      constructor
      · intro hcon; cases hcon
      · rintro ⟨⟨hq, hqp⟩, hqid⟩
        rw [hold q hqp] at hqid
        have h1 := (h.get id q).mpr ⟨hq, hqid⟩
        have h2 := (h.get id p).mpr ⟨hp, hid.symm⟩
        exact absurd (Option.some.inj (h1.symm.trans h2)) hqp
    · rw [if_neg hid, h.get]
      constructor
      · rintro ⟨hq, hqid⟩
        have hqp : q ≠ p := fun hqp => hid (by rw [← hqid, hqp])
        exact ⟨⟨hq, hqp⟩, by rw [hold q hqp]; exact hqid⟩
      · rintro ⟨⟨hq, hqp⟩, hqid⟩
        exact ⟨hq, by rw [hold q hqp] at hqid; exact hqid⟩
  · intro q hq
    obtain ⟨hq, hqp⟩ := (hlive q).mp hq
    rw [hold q hqp]
    exact h.bound q hq
  · intro q r hq hr heq
    obtain ⟨hq, hqp⟩ := (hlive q).mp hq
    obtain ⟨hr, hrp⟩ := (hlive r).mp hr
    rw [hold q hqp, hold r hrp] at heq
    exact h.inj q r hq hr heq
  · intro r q hq
    obtain ⟨hget, hother⟩ := close_refs_get hq
    obtain ⟨hl, href, hrne⟩ := h.refs r q hget
    have hqp : q ≠ p := by
      rintro rfl
      exact hother ⟨by rw [href]; exact hrne, href.symm⟩
    rw [hlive, hold q hqp]
    exact ⟨⟨hl, hqp⟩, href, hrne⟩

/-- A loose flow may get another number in the PUBREC order. -/
theorem touch (f : Flow → Flow) (n : ℕ) (hid : (f (b.flows p)).id = (b.flows p).id)
    (hpubSeq : (f (b.flows p)).pubSeq = (b.flows p).pubSeq)
    (href : (f (b.flows p)).ref = (b.flows p).ref)
    (hfin : (f (b.flows p)).finished = (b.flows p).finished)
    (hseq : (f (b.flows p)).seq < n) (hn : b.nextSeq ≤ n) :
    Ordered { b.setFlow p f with nextSeq := n } (p :: rest) := by
  have hold : ∀ q, q ≠ p → (b.setFlow p f).flows q = b.flows q :=
    fun q hq => b.setFlow_flows_ne f hq
  have hself : (b.setFlow p f).flows p = f (b.flows p) := b.setFlow_flows_self p f
  have hids : ∀ q, ((b.setFlow p f).flows q).id = (b.flows q).id := by
    intro q
    by_cases hq : q = p
    · rw [hq, hself, hid]
    · rw [hold q hq]
  have hpubSeqs : ∀ q, ((b.setFlow p f).flows q).pubSeq = (b.flows q).pubSeq := by
    intro q
    by_cases hq : q = p
    · rw [hq, hself, hpubSeq]
    · rw [hold q hq]
  have hlive : ∀ q, ({ b.setFlow p f with nextSeq := n } : SendQueue).Live q ↔ b.Live q := by
    intro q
    by_cases hq : q = p
    · simp only [Live, hq, setFlow, Function.update_self, hfin]
    · simp only [Live, hold q hq]
      rfl
  obtain ⟨hpub, hpubs, hrel, hrels⟩ := h.lists_congr
    (fun q hq => hold q (h.loose_not_listed hq)) rfl rfl
  refine ⟨?_, ?_, ?_, hpub, hrel, hpubs, hrels, ?_, ?_, ?_⟩
  · intro q; rw [hlive]; exact h.mem q
  · exact h.nodup
  · intro id q
    rw [hlive]
    simp only [hids]
    exact h.get id q
  · intro q hq
    have hb := h.bound q ((hlive q).mp hq)
    by_cases hqp : q = p
    · subst hqp
      simp only [hself, hpubSeq]
      exact ⟨hseq, by omega⟩
    · simp only [hold q hqp]
      omega
  · intro q r hq hr
    simp only [hpubSeqs]
    exact h.inj q r ((hlive q).mp hq) ((hlive r).mp hr)
  · intro r q hq
    rw [hlive]
    by_cases hqp : q = p
    · subst hqp
      simp only [hself, href]
      exact h.refs r q hq
    · simp only [hold q hqp]
      exact h.refs r q hq

/-- A loose flow goes to the end of the send order it belongs at. -/
theorem linkPub (hseq : (b.flows p).seq = (b.flows p).pubSeq) (hw : (b.flows p).waiting = false)
    (hlast : ∀ q ∈ b.pub, (b.flows q).pubSeq < (b.flows p).pubSeq) :
    Ordered { b with pub := b.pub ++ [p] } rest := by
  have hperm : (({ b with pub := b.pub ++ [p] } : SendQueue).listed rest).Perm
      (b.listed (p :: rest)) := by
    simp only [listed, append_assoc, singleton_append]
    exact List.Perm.append_left _ perm_middle.symm
  constructor
  · intro q; rw [hperm.mem_iff]; exact h.mem q
  · exact hperm.nodup_iff.mpr h.nodup
  · exact h.get
  · intro q hq
    rcases mem_append.mp hq with hq | hq
    · exact h.pub_seq q hq
    · rw [mem_singleton.mp hq]
      exact ⟨hseq, hw⟩
  · exact h.rel_waiting
  · refine pairwise_append.mpr ⟨h.pub_sorted, pairwise_singleton _ _, ?_⟩
    intro q hq r hr
    rw [mem_singleton.mp hr]
    exact hlast q hq
  · exact h.rel_sorted
  · exact h.bound
  · exact h.inj
  · exact h.refs

end

/-- A new flow comes last in the send order. -/
theorem add (h : Ordered b []) (id qos : ℕ) (ref : List UInt8) (hid : b.out.get id = none) :
    Ordered (b.add id qos ref) [] := by
  have henroll := h.enroll ⟨id, qos, b.nextSeq, b.nextSeq, ref, false, false, false, false⟩ rfl hid
    (fun q hq => Nat.ne_of_lt (h.bound q hq).2) (Nat.le_succ _) (Nat.lt_succ_self _)
    (Nat.lt_succ_self _)
  have hself : (b.enroll ⟨id, qos, b.nextSeq, b.nextSeq, ref, false, false, false, false⟩
      (b.nextSeq + 1)).flows b.size =
      ⟨id, qos, b.nextSeq, b.nextSeq, ref, false, false, false, false⟩ := by
    simp [SendQueue.enroll]
  have hlink := henroll.linkPub (by rw [hself]) (by rw [hself]) ?_
  · exact hlink.congr rfl rfl (fun _ => rfl) rfl rfl (fun _ _ hr => hr)
      fun _ => ⟨rfl, rfl, rfl, rfl, rfl, rfl⟩
  · intro q hq
    have hq : q ∈ b.pub := hq
    have hlive := h.live_of_pub hq
    have hne : q ≠ b.size := Nat.ne_of_lt hlive.1
    rw [hself]
    simp only [SendQueue.enroll, Function.update_of_ne hne]
    exact (h.bound q hlive).2

section

variable (h : Ordered b (p :: rest))
include h

/-- A loose flow goes to the end of the PUBREC order it belongs at. -/
theorem linkRel (hw : (b.flows p).waiting = true)
    (hlast : ∀ q ∈ b.rel, (b.flows q).seq < (b.flows p).seq) :
    Ordered { b with rel := b.rel ++ [p] } rest := by
  have hlisted : ({ b with rel := b.rel ++ [p] } : SendQueue).listed rest =
      b.listed (p :: rest) := by
    simp [listed]
  constructor
  · intro q; rw [hlisted]; exact h.mem q
  · rw [hlisted]; exact h.nodup
  · exact h.get
  · exact h.pub_seq
  · intro q hq
    rcases mem_append.mp hq with hq | hq
    · exact h.rel_waiting q hq
    · rw [mem_singleton.mp hq]
      exact hw
  · exact h.pub_sorted
  · refine pairwise_append.mpr ⟨h.rel_sorted, pairwise_singleton _ _, ?_⟩
    intro q hq r hr
    rw [mem_singleton.mp hr]
    exact hlast q hq
  · exact h.bound
  · exact h.inj
  · exact h.refs

/-- A flow whose PUBREC arrived comes last in the PUBREC order. -/
theorem pushRel : Ordered (b.pushRel p) rest := by
  have ht := h.touch (fun f => { f with waiting := true, seq := b.nextSeq }) (b.nextSeq + 1)
    rfl rfl rfl rfl (Nat.lt_succ_self _) (Nat.le_succ _)
  refine ht.linkRel (by simp) ?_
  intro q hq
  have hqp : q ≠ p := h.loose_not_listed (.inr hq)
  simp only [setFlow_flows_self, b.setFlow_flows_ne _ hqp]
  exact (h.bound q (h.live_of_rel hq)).1

/-- A flow sent again as new keeps its place, when those before it are back. -/
theorem requeue (hlast : ∀ q ∈ b.pub, (b.flows q).pubSeq < (b.flows p).pubSeq) :
    Ordered (b.requeue p) rest := by
  have hp : b.Live p := (h.mem p).mp (by simp [listed])
  have ht := h.touch (fun f => { f with waiting := false, seq := f.pubSeq, attempted := false })
    b.nextSeq rfl rfl rfl rfl (h.bound p hp).2 (le_refl _)
  refine ht.linkPub (by simp) (by simp) ?_
  intro q hq
  have hqp : q ≠ p := h.loose_not_listed (.inl hq)
  simp only [setFlow_flows_self, b.setFlow_flows_ne _ hqp]
  exact hlast q hq

end

/-- INTERNAL: A flow ends. -/
theorem finish (h : Ordered b loose) (hp : p ∈ b.pub ∨ p ∈ b.rel) : Ordered (b.finish p) loose :=
  (h.unlink hp).close

/-- The flows that stay when one ends are as they were. -/
theorem finish_get (h : Ordered b loose) {id q : ℕ} (hq : (b.finish p).out.get id = some q) :
    b.out.get id = some q ∧ (b.finish p).flows q = b.flows q := by
  have hdel : (b.finish p).out = b.out.del (b.flows p).id := rfl
  rw [hdel, get_del] at hq
  split at hq
  · cases hq
  · rename_i hne
    refine ⟨hq, ?_⟩
    have hqp : q ≠ p := by
      rintro rfl
      exact hne (h.id_of_get hq).symm
    exact setFlow_flows_ne (b.unlink p) (fun f => { f with finished := true, waiting := false }) hqp

/-- Ending a flow that is over already changes nothing, when its identifier is not
in use by another. -/
theorem finish_over (h : Ordered b []) (hp : ¬ b.Live p)
    (hfin : (b.flows p).finished = true ∧ (b.flows p).waiting = false)
    (hid : b.out.get (b.flows p).id = none) : Ordered (b.finish p) [] := by
  have hpub : p ∉ b.pub := fun hpub => hp (h.live_of_pub hpub)
  have hrel : p ∉ b.rel := fun hrel => hp (h.live_of_rel hrel)
  refine h.congr (erase_of_not_mem hpub) (erase_of_not_mem hrel) ?_ rfl rfl ?_ ?_
  · intro id
    have hget : (b.finish p).out.get id = if id = (b.flows p).id then none else b.out.get id := by
      simp [SendQueue.finish, SendQueue.close, SendQueue.unlink]
    rw [hget]
    split
    · rename_i heq
      rw [heq, hid]
    · rfl
  · exact fun r q hq => (close_refs_get (b := b.unlink p) hq).1
  · intro q
    by_cases hq : q = p
    · subst hq
      simp [SendQueue.finish, SendQueue.close, SendQueue.unlink, hfin]
    · simp [SendQueue.finish, SendQueue.close, SendQueue.unlink, setFlow, hq]

/-- Without any flow of the session, nothing is listed. -/
theorem of_empty (hpub : b.pub = []) (hrel : b.rel = []) (hout : ∀ id, b.out.get id = none)
    (hrefs : ∀ r, b.refs.get r = none) (hfin : ∀ p, ¬ b.Live p) : Ordered b [] := by
  constructor
  · intro p
    simp [listed, hpub, hrel, hfin p]
  · simp [listed, hpub, hrel]
  · intro id p
    simp [hout, hfin p]
  · simp [hpub]
  · simp [hrel]
  · simp [hpub]
  · simp [hrel]
  · exact fun p hp => absurd hp (hfin p)
  · exact fun p q hp => absurd hp (hfin p)
  · intro r p hp
    rw [hrefs] at hp
    cases hp

section

variable (h : Ordered b loose)
include h

/-- INTERNAL: A flow goes over to the PUBREC order. -/
theorem toRel (hp : p ∈ b.pub ∨ p ∈ b.rel) : Ordered (b.toRel p) loose :=
  (h.unlink hp).pushRel

/-- INTERNAL: The quota is not part of the order. -/
theorem credit : Ordered (b.credit p) loose := by
  unfold SendQueue.credit
  split
  · refine h.congr rfl rfl (fun _ => rfl) rfl rfl (fun _ _ h => h) ?_
    intro q
    by_cases hq : q = p
    · subst hq; simp
    · simp [setFlow, hq]
  · exact h

/-- INTERNAL: A flow ends on the broker's answer. -/
theorem acked (hp : p ∈ b.pub ∨ p ∈ b.rel) : Ordered (b.acked p) loose :=
  (h.unlink hp).credit.close

/-- INTERNAL: Handing out changes no order. -/
theorem handOut : Ordered (b.handOut p) loose := by
  refine h.congr rfl rfl (fun _ => rfl) rfl rfl (fun _ _ h => h) ?_
  intro q
  by_cases hq : q = p
  · subst hq; simp [SendQueue.handOut]
  · simp [SendQueue.handOut, setFlow, hq]

/-- INTERNAL: Nor does a connection. -/
theorem bind (quotaMax : ℤ) : Ordered (b.bind quotaMax) loose := by
  refine h.congr rfl rfl (fun _ => rfl) rfl rfl (fun _ _ h => h) ?_
  intro q
  simp only [SendQueue.bind]
  split <;> simp

/-- INTERNAL: Nor does the cursor. -/
theorem rewind : Ordered b.rewind loose :=
  h.congr rfl rfl (fun _ => rfl) rfl rfl (fun _ _ h => h) fun _ => ⟨rfl, rfl, rfl, rfl, rfl, rfl⟩

end

/-- All flows may be taken off their lists at once, in any order. -/
theorem drain (h : Ordered b []) (hperm : loose.Perm (b.pub ++ b.rel)) :
    Ordered b.drain loose := by
  have hlisted : (b.drain.listed loose).Perm (b.listed []) := by
    simpa [listed, SendQueue.drain] using hperm
  constructor
  · intro q; rw [hlisted.mem_iff]; exact h.mem q
  · exact hlisted.nodup_iff.mpr h.nodup
  · exact h.get
  · intro q hq; simp [SendQueue.drain] at hq
  · intro q hq; simp [SendQueue.drain] at hq
  · exact List.Pairwise.nil
  · exact List.Pairwise.nil
  · exact h.bound
  · exact h.inj
  · exact h.refs

/-- INTERNAL: The order of loose flows does not matter. -/
theorem perm {loose' : List ℕ} (h : Ordered b loose) (hperm : loose.Perm loose') :
    Ordered b loose' := by
  have hlisted : (b.listed loose').Perm (b.listed loose) := List.Perm.append_left _ hperm.symm
  exact ⟨fun q => by rw [hlisted.mem_iff]; exact h.mem q, hlisted.nodup_iff.mpr h.nodup, h.get,
    h.pub_seq, h.rel_waiting, h.pub_sorted, h.rel_sorted, h.bound, h.inj, h.refs⟩

/-- The loose flows, in PUBREC order, become the PUBREC order. -/
theorem linkAll (h : Ordered b loose) (hrel : b.rel = [])
    (hw : ∀ q ∈ loose, (b.flows q).waiting = true)
    (hsorted : loose.Pairwise fun p q => (b.flows p).seq < (b.flows q).seq) :
    Ordered { b with rel := loose } [] := by
  have hlisted : ({ b with rel := loose } : SendQueue).listed [] = b.listed loose := by
    simp [listed, hrel]
  exact ⟨fun q => by rw [hlisted]; exact h.mem q, by rw [hlisted]; exact h.nodup, h.get, h.pub_seq,
    hw, h.pub_sorted, hsorted, h.bound, h.inj, h.refs⟩

end Ordered

end SendQueue

end Mqttv5.Interface
