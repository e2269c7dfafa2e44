import Mqttv5.Analysis.Halt

/-!
# Two restores of one store

`Restore` on an engine whose session has failed, and on a new engine, from the same records. The
flows differ in where they are allocated and in nothing else: `Shifted a b e d` says that `e` is
`d` with its outbound flows `a` and its inbound flows `b` places further on.
-/

set_option autoImplicit false

namespace Mqttv5.Analysis

open Mqttv5.Computation Model Program Interface List FiniteMap
open Function (update_of_ne)
open Nat (le_of_lt_succ lt_succ_of_lt lt_succ_self)

structure Shifted (a b : ℕ) (e d : Engine) : Prop where
  nextOut : e.nextOut = d.nextOut + a
  nextIn : e.nextIn = d.nextIn + b
  outs : ∀ p, p < d.nextOut → e.outs (p + a) = d.outs p
  ins : ∀ h, h < d.nextIn → e.ins (h + b) = d.ins h
  out : ∀ id, e.out.get id = (d.out.get id).map (· + a)
  refs : ∀ r, e.refs.get r = (d.refs.get r).map (· + a)
  orphans : ∀ r, e.orphans.get r = (d.orphans.get r).map (· + a)
  inn : ∀ id, e.inn.get id = (d.inn.get id).map (· + b)
  pub : e.pub = d.pub.map (· + a)
  rel : e.rel = d.rel.map (· + a)
  fifo : e.fifo = d.fifo.map (· + b)
  ctrl : e.ctrl = d.ctrl
  ids : e.ids = d.ids
  metaData : e.metaData = d.metaData
  failure : e.failure = d.failure
  nextSeq : d.nextSeq ≤ e.nextSeq

/-- The flows an engine can reach are allocated. -/
structure Allocated (d : Engine) : Prop where
  listed : ∀ p ∈ d.pub ++ d.rel, p < d.nextOut
  out : ∀ id p, d.out.get id = some p → p < d.nextOut
  refs : ∀ r p, d.refs.get r = some p → p < d.nextOut
  orphans : ∀ r p, d.orphans.get r = some p → p < d.nextOut
  inn : ∀ id h, d.inn.get id = some h → h < d.nextIn

/-- What holds between the two restores after as many records. -/
structure Parallel (a b : ℕ) (st st' : Engine × List OutPtr) : Prop where
  shifted : Shifted a b st.1 st'.1
  waiting : st.2 = st'.2.map (· + a)
  allocated : Allocated st'.1
  listed : ∀ p ∈ st'.2, p < st'.1.nextOut

namespace Parallel

variable {a b : ℕ} {e d : Engine} {rel rel' : List OutPtr}

/-- A flow allocated on both sides. -/
theorem outs_alloc (h : Shifted a b e d) (o : Out) (p : OutPtr) (hp : p < d.nextOut + 1) :
    Function.update e.outs e.nextOut o (p + a) = Function.update d.outs d.nextOut o p := by
  rw [h.nextOut]
  by_cases hq : p = d.nextOut
  · subst hq
    simp
  · have hne : p + a ≠ d.nextOut + a := fun hcon => hq (Nat.add_right_cancel hcon)
    have hlt : p < d.nextOut := Nat.lt_of_le_of_ne (le_of_lt_succ hp) hq
    rw [update_of_ne hq, update_of_ne hne, h.outs p hlt]

theorem get_set_shift {K : Type} [DecidableEq K] {m m' : FiniteMap K ℕ} {n n' : ℕ}
    (h : ∀ k, m.get k = (m'.get k).map (· + a)) (hn : n = n' + a) (k k' : K) :
    (m.set k n).get k' = ((m'.set k n').get k').map (· + a) := by
  rw [get_set, get_set]
  split
  · rw [hn]
    rfl
  · exact h k'

theorem lt_of_get_set {K : Type} [DecidableEq K] {m : FiniteMap K ℕ} {n : ℕ}
    (h : ∀ k p, m.get k = some p → p < n) (k k' : K) (p : ℕ)
    (hp : (m.set k n).get k' = some p) : p < n + 1 := by
  rcases of_get_set hp with hp | ⟨-, rfl⟩
  · exact lt_succ_of_lt (h _ _ hp)
  · exact lt_succ_self _

section

variable (h : Parallel a b (e, rel) (d, rel'))
include h

theorem bury (ids : IDTable) (r : Record)
    (err : Option PubErr) : Parallel a b (buried e ids r err, rel) (buried d ids r err, rel') := by
  obtain ⟨hs, hw, ha, hl⟩ := h
  have hs : Shifted a b e d := hs
  refine ⟨⟨?_, hs.nextIn, outs_alloc hs _, hs.ins, hs.out, hs.refs, ?_, hs.inn, hs.pub, hs.rel,
    hs.fifo, hs.ctrl, rfl, hs.metaData, hs.failure, ?_⟩, hw, ⟨?_, ?_, ?_, ?_, ha.inn⟩, ?_⟩
  · show e.nextOut + 1 = d.nextOut + 1 + a
    have := hs.nextOut
    omega
  · exact get_set_shift hs.orphans hs.nextOut r.ref
  · exact max_le_max hs.nextSeq le_rfl
  · exact fun p hp => lt_succ_of_lt (ha.listed p hp)
  · exact fun id p hp => lt_succ_of_lt (ha.out id p hp)
  · exact fun id p hp => lt_succ_of_lt (ha.refs id p hp)
  · exact lt_of_get_set ha.orphans r.ref
  · exact fun p hp => lt_succ_of_lt (hl p hp)

/-- A flow comes back on both sides; it joins `pub` or waits for its PUBCOMP. -/
theorem revive (ids : IDTable) (r : Record) :
    Parallel a b (revived e ids r, rel ++ [e.nextOut]) (revived d ids r, rel' ++ [d.nextOut]) ∧
    Parallel a b ({ revived e ids r with pub := e.pub ++ [e.nextOut] }, rel)
      ({ revived d ids r with pub := d.pub ++ [d.nextOut] }, rel') := by
  obtain ⟨hs, hw, ha, hl⟩ := h
  have hs : Shifted a b e d := hs
  have hnext : (revived e ids r).nextOut = (revived d ids r).nextOut + a := by
    show e.nextOut + 1 = d.nextOut + 1 + a
    have := hs.nextOut
    omega
  have hrefs : ∀ k, (revived e ids r).refs.get k = ((revived d ids r).refs.get k).map (· + a) := by
    intro k
    unfold revived
    simp only
    split
    · exact get_set_shift hs.refs hs.nextOut r.ref k
    · exact hs.refs k
  have hrefs' : ∀ k p, (revived d ids r).refs.get k = some p → p < d.nextOut + 1 := by
    intro k p hp
    unfold revived at hp
    simp only at hp
    split at hp
    · exact lt_of_get_set ha.refs r.ref k p hp
    · exact lt_succ_of_lt (ha.refs k p hp)
  have hout := get_set_shift hs.out hs.nextOut r.key.packetID
  have hout' := lt_of_get_set ha.out r.key.packetID
  have horphans : ∀ k p, d.orphans.get k = some p → p < d.nextOut + 1 :=
    fun k p hp => lt_succ_of_lt (ha.orphans k p hp)
  have hseq : (revived d ids r).nextSeq ≤ (revived e ids r).nextSeq :=
    max_le_max hs.nextSeq le_rfl
  have hsnoc : ∀ {l l' : List ℕ}, l = l'.map (· + a) →
      l ++ [e.nextOut] = (l' ++ [d.nextOut]).map (· + a) := by
    intro l l' hll
    rw [hll, hs.nextOut, map_append]
    rfl
  refine ⟨⟨⟨hnext, hs.nextIn, outs_alloc hs _, hs.ins, hout, hrefs, hs.orphans, hs.inn, hs.pub,
    hs.rel, hs.fifo, hs.ctrl, rfl, hs.metaData, hs.failure, hseq⟩, hsnoc hw,
    ⟨?_, hout', hrefs', horphans, ha.inn⟩, ?_⟩,
    ⟨⟨hnext, hs.nextIn, outs_alloc hs _, hs.ins, hout, hrefs, hs.orphans, hs.inn, hsnoc hs.pub,
    hs.rel, hs.fifo, hs.ctrl, rfl, hs.metaData, hs.failure, hseq⟩, hw,
    ⟨?_, hout', hrefs', horphans, ha.inn⟩, ?_⟩⟩
  · exact fun p hp => lt_succ_of_lt (ha.listed p hp)
  · intro p hp
    rcases mem_append.mp hp with hp | hp
    · exact lt_succ_of_lt (hl p hp)
    · rw [mem_singleton.mp hp]
      exact lt_succ_self _
  · intro p hp
    have hp : p ∈ d.pub ++ [d.nextOut] ++ d.rel := hp
    simp only [mem_append, mem_singleton] at hp
    rcases hp with (hp | hp) | hp
    · exact lt_succ_of_lt (ha.listed p (mem_append_left _ hp))
    · rw [hp]
      exact lt_succ_self _
    · exact lt_succ_of_lt (ha.listed p (mem_append_right _ hp))
  · exact fun p hp => lt_succ_of_lt (hl p hp)

theorem recalled (id : PacketID) :
    Parallel a b (recalled e id, rel) (recalled d id, rel') := by
  obtain ⟨hs, hw, ha, hl⟩ := h
  have hs : Shifted a b e d := hs
  refine ⟨⟨hs.nextOut, ?_, hs.outs, ?_, hs.out, hs.refs, hs.orphans, ?_, hs.pub, hs.rel, hs.fifo,
    hs.ctrl, hs.ids, hs.metaData, hs.failure, hs.nextSeq⟩, hw,
    ⟨ha.listed, ha.out, ha.refs, ha.orphans, ?_⟩, hl⟩
  · show e.nextIn + 1 = d.nextIn + 1 + b
    have := hs.nextIn
    omega
  · intro x hx
    have hx : x < d.nextIn + 1 := hx
    show Function.update e.ins e.nextIn _ (x + b) = Function.update d.ins d.nextIn _ x
    rw [hs.nextIn]
    by_cases hq : x = d.nextIn
    · subst hq
      simp
    · have hne : x + b ≠ d.nextIn + b := fun hcon => hq (Nat.add_right_cancel hcon)
      have hlt : x < d.nextIn := Nat.lt_of_le_of_ne (le_of_lt_succ hx) hq
      rw [update_of_ne hq, update_of_ne hne, hs.ins x hlt]
  · exact get_set_shift hs.inn hs.nextIn id
  · exact lt_of_get_set ha.inn id

/-- A record is restored, or skipped, on both sides. -/
theorem record (r : Record) :
    Parallel a b (restoreRecord (e, rel) r) (restoreRecord (d, rel') r) := by
  have hids : e.ids = d.ids := h.shifted.ids
  unfold restoreRecord
  simp only
  by_cases hbad : ¬ r.phase.valid r.key.dir ∨ (r.qos ≠ 1 ∧ r.qos ≠ 2)
  · simp only [if_pos hbad]
    exact h
  · simp only [if_neg hbad]
    cases hdir : r.key.dir with
    | outbound =>
      simp only
      by_cases hcomp : r.phase = .completed
      · simp only [if_pos hcomp]
        cases decodeOutcomeLocked r.outcome r.qos with
        | none => exact h
        | some err =>
          simp only
          by_cases href : r.ref = []
          · simp only [if_pos href]
            exact h
          · simp only [if_neg href, hids]
            cases claim d.ids r.key.packetID .publish with
            | none => exact h
            | some ids => exact h.bury ids r err
      · simp only [if_neg hcomp]
        by_cases hpacket : r.packet = []
        · simp only [if_pos hpacket]
          exact h
        · simp only [if_neg hpacket, hids]
          cases claim d.ids r.key.packetID .publish with
          | none => exact h
          | some ids =>
            simp only
            by_cases hphase : r.phase = .awaitPubcomp
            · simp only [if_pos hphase]
              exact (h.revive ids r).1
            · simp only [if_neg hphase]
              exact (h.revive ids r).2
    | inbound => exact h.recalled r.key.packetID

end

theorem foldl (recs : List Record) {st st' : Engine × List OutPtr} (h : Parallel a b st st') :
    Parallel a b (recs.foldl restoreRecord st) (recs.foldl restoreRecord st') := by
  induction recs generalizing st st' with
  | nil => exact h
  | cons r rest ih => exact ih (h.record r)

end Parallel

end Mqttv5.Analysis
