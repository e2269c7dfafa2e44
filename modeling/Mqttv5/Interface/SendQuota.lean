import Mqttv5.Interface.SendQueue

/-!
# The send quota

What each operation of the send queue does to the quota and to the PUBLISHes outstanding on
the connection.
-/

set_option autoImplicit false

namespace Mqttv5.Interface.SendQueue

open List

namespace Metered

variable {b b' : SendQueue} {loose rest outstanding : List ℕ} {p : ℕ}

/-- Only the quota, the set of listed flows and their two flags matter. -/
theorem congr {loose' : List ℕ} (h : Metered b loose outstanding)
    (hlisted : (b'.listed loose').Perm (b.listed loose))
    (hflow : ∀ p, (b'.flows p).counted = (b.flows p).counted ∧
      ((b.flows p).attempted = true → (b'.flows p).attempted = true))
    (hquota : b'.quota = b.quota) (hmax : b'.quotaMax = b.quotaMax) :
    Metered b' loose' outstanding := by
  have hcounted := fun p => (hflow p).1
  constructor
  · simp only [hcounted]
    exact h.perm.trans (hlisted.symm.filter _)
  · rw [hquota, hmax]; exact h.sum
  · rw [hquota]; exact h.nonneg
  · intro p hmem hp
    exact (hflow p).2 (h.tried p (hlisted.mem_iff.mp hmem) (by rw [← hcounted]; exact hp))

/-- Nothing is outstanding at the start of a connection. -/
theorem start (hcounted : ∀ p ∈ b.listed loose, (b.flows p).counted = false)
    (hquota : b.quota = b.quotaMax) (hmax : 0 ≤ b.quotaMax) : Metered b loose [] := by
  have hfilter : (b.listed loose).filter (fun p => (b.flows p).counted) = [] := by
    rw [filter_eq_nil_iff]
    intro p hp
    simp [hcounted p hp]
  refine ⟨by rw [hfilter], by simp [hquota], by rw [hquota]; exact hmax, ?_⟩
  intro p hp hcon
  rw [hcounted p hp] at hcon
  cases hcon

section

variable (h : Metered b loose outstanding)
include h

/-- INTERNAL: The flows that hold a unit. -/
theorem mem_outstanding_iff (ho : Ordered b loose) :
    p ∈ outstanding ↔ b.Live p ∧ (b.flows p).counted = true := by
  rw [h.perm.mem_iff, mem_filter, ho.mem]

/-- INTERNAL: No flow holds two. -/
theorem nodup (ho : Ordered b loose) : outstanding.Nodup :=
  h.perm.nodup_iff.mpr (ho.nodup.filter _)

/-- INTERNAL: No more units are held than there are. -/
theorem length_le : (outstanding.length : ℤ) ≤ b.quotaMax := by
  have hsum := h.sum
  have hnonneg := h.nonneg
  omega

end

/-- INTERNAL: A new flow holds none. -/
theorem add (h : Metered b [] outstanding) (ho : Ordered b []) (id qos : ℕ) (ref : List UInt8) :
    Metered (b.add id qos ref) [] outstanding := by
  have hnew : ∀ q ∈ b.listed [], q ≠ b.size := fun q hq => Nat.ne_of_lt ((ho.mem q).mp hq).1
  have hperm : ((b.add id qos ref).listed []).Perm (b.size :: b.listed []) := by
    simp only [listed, SendQueue.add, append_nil, append_assoc, singleton_append]
    exact perm_middle
  have hold : ∀ q, q ≠ b.size → (b.add id qos ref).flows q = b.flows q := fun q hq => by
    simp [SendQueue.add, hq]
  have hself : ((b.add id qos ref).flows b.size).counted = false := by
    simp [SendQueue.add]
  constructor
  · refine h.perm.trans ((hperm.filter _).trans ?_).symm
    rw [filter_cons_of_neg (by simp [hself])]
    refine List.Perm.of_eq (filter_congr ?_)
    intro q hq
    rw [hold q (hnew q hq)]
  · exact h.sum
  · exact h.nonneg
  · intro q hmem hq
    by_cases hqs : q = b.size
    · rw [hqs, hself] at hq
      cases hq
    · rw [hold q hqs] at hq ⊢
      have hmem := (hperm.mem_iff.mp hmem)
      exact h.tried q ((mem_cons.mp hmem).resolve_left hqs) hq

/-- INTERNAL: A flow that leaves its list keeps its unit. -/
theorem unlink (h : Metered b loose outstanding) (ho : Ordered b loose)
    (hp : p ∈ b.pub ∨ p ∈ b.rel) : Metered (b.unlink p) (p :: loose) outstanding :=
  h.congr (ho.listed_unlink hp) (fun _ => ⟨rfl, id⟩) rfl rfl

/-- A flow without a unit of quota leaves. -/
theorem close (h : Metered b (p :: rest) outstanding) (hp : (b.flows p).counted = false) :
    Metered (b.close p) rest outstanding := by
  have hold : ∀ q, ((b.close p).flows q).counted = (b.flows q).counted ∧
      ((b.close p).flows q).attempted = (b.flows q).attempted := by
    intro q
    by_cases hq : q = p
    · simp [SendQueue.close, setFlow, hq]
    · simp [SendQueue.close, setFlow, hq]
  have hperm : (b.listed (p :: rest)).Perm (p :: b.listed rest) := perm_middle
  have hlisted : (b.close p).listed rest = b.listed rest := rfl
  constructor
  · simp only [hlisted, fun q => (hold q).1]
    refine h.perm.trans ((hperm.filter _).trans ?_)
    rw [filter_cons_of_neg (by simp [hp])]
  · exact h.sum
  · exact h.nonneg
  · intro q hmem hq
    rw [(hold q).1] at hq
    rw [(hold q).2]
    exact h.tried q (hperm.mem_iff.mpr (.tail _ hmem)) hq

/-- The last acknowledgement of a flow returns the unit it holds. -/
theorem credit (h : Metered b loose outstanding) (ho : Ordered b loose) (hlive : b.Live p) :
    Metered (b.credit p) loose (outstanding.erase p) := by
  have hmem := h.mem_outstanding_iff (p := p) ho
  by_cases hc : (b.flows p).counted = true
  · have hp : p ∈ outstanding := hmem.mpr ⟨hlive, hc⟩
    have hnd := h.nodup ho
    have hold : ∀ q, q ≠ p → (b.credit p).flows q = b.flows q := fun q hq => by
      simp [SendQueue.credit, hc, setFlow, hq]
    have hself : ((b.credit p).flows p).counted = false := by
      simp [SendQueue.credit, hc, setFlow]
    have hlisted : (b.credit p).listed loose = b.listed loose := by
      simp [SendQueue.credit, hc, setFlow, listed]
    constructor
    · rw [perm_ext_iff_of_nodup (hnd.erase p) (by rw [hlisted]; exact ho.nodup.filter _)]
      intro q
      rw [hnd.mem_erase_iff, h.perm.mem_iff, mem_filter, mem_filter, hlisted]
      by_cases hq : q = p
      · simp [hq, hself]
      · simp [hq, hold q hq]
    · have hlen := length_erase_of_mem hp
      have hpos : 0 < outstanding.length := length_pos_of_mem hp
      have hsum := h.sum
      simp only [SendQueue.credit, hc, if_true, setFlow]
      omega
    · have := h.nonneg
      simp only [SendQueue.credit, hc, if_true, setFlow]
      omega
    · intro q hmemq hq
      by_cases hqp : q = p
      · rw [hqp, hself] at hq
        cases hq
      · rw [hold q hqp] at hq ⊢
        exact h.tried q (hlisted ▸ hmemq) hq
  · have hp : p ∉ outstanding := fun hp => hc (hmem.mp hp).2
    rw [erase_of_not_mem hp]
    simpa [SendQueue.credit, hc] using h

/-- INTERNAL: A flow that gave its unit back holds none. -/
theorem credit_counted (b : SendQueue) (p : ℕ) : ((b.credit p).flows p).counted = false := by
  unfold SendQueue.credit
  split
  · simp
  · rename_i hc
    simpa using hc

/-- A flow never attempted holds no unit, so it leaves the others as they are. -/
theorem finish (h : Metered b loose outstanding) (ho : Ordered b loose)
    (hp : p ∈ b.pub ∨ p ∈ b.rel) (hcounted : (b.flows p).counted = false) :
    Metered (b.finish p) loose outstanding :=
  (h.unlink ho hp).close hcounted

/-- INTERNAL: A flow that had ended holds none. -/
theorem finish_over (h : Metered b [] outstanding) (ho : Ordered b []) (hp : ¬ b.Live p) :
    Metered (b.finish p) [] outstanding := by
  have hpub : p ∉ b.pub := fun hpub => hp (ho.live_of_pub hpub)
  have hrel : p ∉ b.rel := fun hrel => hp (ho.live_of_rel hrel)
  refine h.congr ?_ ?_ rfl rfl
  · simp [listed, SendQueue.finish, SendQueue.close, SendQueue.unlink, setFlow,
      erase_of_not_mem hpub, erase_of_not_mem hrel]
  · intro q
    by_cases hq : q = p
    · subst hq
      simp [SendQueue.finish, SendQueue.close, SendQueue.unlink]
    · simp [SendQueue.finish, SendQueue.close, SendQueue.unlink, setFlow, hq]

section

variable (h : Metered b loose outstanding)
include h

/-- INTERNAL: The broker's answer gives the unit back. -/
theorem acked (ho : Ordered b loose)
    (hp : p ∈ b.pub ∨ p ∈ b.rel) : Metered (b.acked p) loose (outstanding.erase p) := by
  have hu := ho.unlink hp
  have hlive : (b.unlink p).Live p := (hu.mem p).mp (by simp [listed])
  exact ((h.unlink ho hp).credit hu hlive).close (credit_counted _ p)

/-- INTERNAL: A PUBREC does not. -/
theorem toRel (ho : Ordered b loose)
    (hp : p ∈ b.pub ∨ p ∈ b.rel) : Metered (b.toRel p) loose outstanding := by
  refine (h.unlink ho hp).congr ?_ ?_ rfl rfl
  · simp [SendQueue.toRel, SendQueue.pushRel, listed, setFlow, SendQueue.unlink]
  · intro q
    by_cases hq : q = p
    · subst hq; simp [SendQueue.toRel, SendQueue.pushRel, SendQueue.unlink, setFlow]
    · simp [SendQueue.toRel, SendQueue.pushRel, setFlow, hq]

/-- A PUBLISH handed out takes a unit of the quota. -/
theorem handOut (ho : Ordered b loose) (hp : b.Live p)
    (hc : (b.flows p).counted = false) (hquota : b.quota ≠ 0) :
    Metered (b.handOut p) loose (outstanding ++ [p]) := by
  have hnot : p ∉ outstanding := by
    intro hmem
    have := ((h.mem_outstanding_iff ho).mp hmem).2
    simp [hc] at this
  have hold : ∀ q, q ≠ p → (b.handOut p).flows q = b.flows q := fun q hq => by
    simp [SendQueue.handOut, setFlow, hq]
  have hself : (b.handOut p).flows p = { b.flows p with attempted := true, counted := true } := by
    simp [SendQueue.handOut]
  have hlisted : (b.handOut p).listed loose = b.listed loose := rfl
  have hnd : (outstanding ++ [p]).Nodup := by
    have := h.nodup ho
    rw [nodup_append]
    refine ⟨this, by simp, ?_⟩
    intro q hq r hr hqr
    rw [mem_singleton.mp hr] at hqr
    exact hnot (hqr ▸ hq)
  constructor
  · rw [perm_ext_iff_of_nodup hnd (by rw [hlisted]; exact ho.nodup.filter _)]
    intro q
    rw [mem_append, mem_singleton, h.perm.mem_iff, mem_filter, mem_filter,
      hlisted, ho.mem]
    by_cases hq : q = p
    · subst hq
      simp [hself, hp]
    · simp [hq, hold q hq]
  · have hsum := h.sum
    simp only [SendQueue.handOut, length_append, length_singleton, setFlow]
    omega
  · have := h.nonneg
    simp only [SendQueue.handOut]
    omega
  · intro q hmem hq
    by_cases hqp : q = p
    · rw [hqp, hself]
    · rw [hold q hqp] at hq ⊢
      exact h.tried q hmem hq

end

/-- INTERNAL: The flows leave their lists. -/
theorem drain (h : Metered b [] outstanding) (hperm : loose.Perm (b.pub ++ b.rel)) :
    Metered b.drain loose outstanding := by
  refine h.congr ?_ (fun _ => ⟨rfl, id⟩) rfl rfl
  simpa [listed, SendQueue.drain] using hperm

/-- INTERNAL: A flow without a unit is sent again. -/
theorem requeue (h : Metered b (p :: rest) outstanding) (hp : (b.flows p).counted = false) :
    Metered (b.requeue p) rest outstanding := by
  have hold : ∀ q, q ≠ p → (b.requeue p).flows q = b.flows q := fun q hq => by
    simp [SendQueue.requeue, setFlow, hq]
  have hcounted : ∀ q, ((b.requeue p).flows q).counted = (b.flows q).counted := by
    intro q
    by_cases hq : q = p
    · simp [SendQueue.requeue, hq]
    · rw [hold q hq]
  have hlisted : ((b.requeue p).listed rest).Perm (b.listed (p :: rest)) := by
    simp only [listed, SendQueue.requeue, append_assoc, singleton_append]
    exact List.Perm.append_left _ perm_middle.symm
  constructor
  · simp only [hcounted]
    exact h.perm.trans (hlisted.symm.filter _)
  · exact h.sum
  · exact h.nonneg
  · intro q hmem hq
    rw [hcounted] at hq
    by_cases hqp : q = p
    · rw [hqp, hp] at hq
      cases hq
    · rw [hold q hqp]
      exact h.tried q (hlisted.mem_iff.mp hmem) hq

/-- With nothing outstanding no flow of the session holds a unit. -/
theorem counted_of_idle (h : Metered b loose []) (hp : p ∈ b.listed loose) :
    (b.flows p).counted = false := by
  have hnil := h.perm.nil_eq
  have := (filter_eq_nil_iff.mp hnil.symm) p hp
  simpa using this

end Metered

end Mqttv5.Interface.SendQueue
