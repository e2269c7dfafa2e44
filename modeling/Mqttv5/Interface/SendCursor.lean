import Mqttv5.Interface.SendQueue

/-!
# The send cursor

What each operation of the send queue does to the cursor and to the PUBLISHes handed out on
the connection.
-/

set_option autoImplicit false

namespace Mqttv5.Interface.SendQueue

open Mqttv5.Computation List

variable {loose : List ℕ}

namespace Walked

variable {b b' : SendQueue} {handed : List ℕ} {p : ℕ}

/-- Only the send order, the cursor and the places in the order matter. -/
theorem congr (h : Walked b handed) (hpub : b'.pub = b.pub) (hcursor : b'.cursor = b.cursor)
    (hsize : b.size ≤ b'.size) (hnext : b.nextSeq ≤ b'.nextSeq)
    (hflow : ∀ p, (b'.flows p).pubSeq = (b.flows p).pubSeq) : Walked b' handed := by
  obtain ⟨done, todo, hsplit, hdone, htodo⟩ := h.split
  constructor
  · refine ⟨done, todo, by rw [hpub, hcursor]; exact hsplit, hdone, ?_⟩
    simp only [hflow]
    exact htodo
  · simp only [hflow]
    exact h.sorted
  · intro p hp
    have := h.bound p hp
    rw [hflow]
    omega

/-- A connection starts with its cursor at the first flow. -/
theorem start (b : SendQueue) : Walked b.rewind [] := by
  refine ⟨⟨[], b.pub, Splits.reset b.pub, by simp, by simp⟩, List.Pairwise.nil, by simp⟩

section

variable (h : Walked b handed)
include h

/-- An empty send order is walked, whatever was handed out before. -/
theorem of_empty (hpub : b'.pub = []) (hcursor : b'.cursor = none) (hsize : b.size ≤ b'.size)
    (hnext : b.nextSeq ≤ b'.nextSeq) (hflow : ∀ p, (b'.flows p).pubSeq = (b.flows p).pubSeq) :
    Walked b' handed := by
  constructor
  · exact ⟨[], [], ⟨by rw [hpub]; rfl, by rw [hcursor]; rfl⟩, by simp, by simp⟩
  · simp only [hflow]
    exact h.sorted
  · intro p hp
    have := h.bound p hp
    rw [hflow]
    omega

/-- INTERNAL: A new flow comes behind the cursor. -/
theorem add (id qos : ℕ) (ref : List UInt8) : Walked (b.add id qos ref) handed := by
  obtain ⟨done, todo, hsplit, hdone, htodo⟩ := h.split
  have hold : ∀ q ∈ handed, (b.add id qos ref).flows q = b.flows q := fun q hq => by
    have hne : q ≠ b.size := Nat.ne_of_lt (h.bound q hq).1
    simp [SendQueue.add, hne]
  have hself : ((b.add id qos ref).flows b.size).pubSeq = b.nextSeq := by
    simp [SendQueue.add]
  constructor
  · refine ⟨done, todo ++ [b.size], hsplit.push b.size, hdone, ?_⟩
    intro p hp q hq
    rw [hold q hq]
    rcases mem_append.mp hp with hp | hp
    · by_cases hps : p = b.size
      · rw [hps, hself]
        exact (h.bound q hq).2
      · have hpf : (b.add id qos ref).flows p = b.flows p := by simp [SendQueue.add, hps]
        rw [hpf]
        exact htodo p hp q hq
    · rw [mem_singleton.mp hp, hself]
      exact (h.bound q hq).2
  · refine h.sorted.imp_of_mem ?_
    intro q r hq hr hlt
    rw [hold q hq, hold r hr]
    exact hlt
  · intro q hq
    have := h.bound q hq
    rw [hold q hq]
    simp only [SendQueue.add]
    omega

/-- INTERNAL: The cursor is at a flow that was not handed out. -/
theorem cursor_mem (hc : b.cursor = some p) : p ∈ b.pub ∧ p ∉ handed := by
  obtain ⟨done, todo, hsplit, _, htodo⟩ := h.split
  obtain ⟨rest, rfl⟩ := (hc ▸ hsplit).todo_of_some
  refine ⟨by rw [hsplit.list]; simp, ?_⟩
  intro hp
  exact Nat.lt_irrefl _ (htodo p (by simp) p hp)

/-- INTERNAL: The cursor goes on when its flow leaves. -/
theorem unlink (ho : Ordered b loose) : Walked (b.unlink p) handed := by
  obtain ⟨done, todo, hsplit, hdone, htodo⟩ := h.split
  by_cases hpub : p ∈ b.pub
  · have hnext : b.next p = succIn b.pub p := if_pos hpub
    refine ⟨⟨done.erase p, todo.erase p, ?_, ?_, ?_⟩, h.sorted, h.bound⟩
    · have := hsplit.erase ho.pub_nodup p hpub
      simpa only [SendQueue.unlink, hnext] using this
    · exact fun q hq => hdone q (mem_of_mem_erase hq)
    · exact fun q hq => htodo q (mem_of_mem_erase hq)
  · have hc : b.cursor ≠ some p := fun hc => hpub (h.cursor_mem hc).1
    refine h.congr ?_ ?_ (le_refl _) (le_refl _) (fun _ => rfl)
    · exact erase_of_not_mem hpub
    · exact if_neg hc

/-- INTERNAL: A flow that keeps its first place. -/
theorem setFlow (f : Flow → Flow) (hf : (f (b.flows p)).pubSeq = (b.flows p).pubSeq) :
    Walked (b.setFlow p f) handed := by
  refine h.congr rfl rfl (le_refl _) (le_refl _) ?_
  intro q
  by_cases hq : q = p
  · rw [hq, setFlow_flows_self, hf]
  · rw [b.setFlow_flows_ne f hq]

/-- INTERNAL: The end of a flow. -/
theorem close : Walked (b.close p) handed :=
  (h.setFlow (p := p) (fun f => { f with finished := true, waiting := false }) rfl).congr rfl rfl
    (le_refl _) (le_refl _) fun _ => rfl

/-- INTERNAL: The quota that comes back. -/
theorem credit : Walked (b.credit p) handed := by
  unfold SendQueue.credit
  split
  · exact (h.setFlow (p := p) (fun f => { f with counted := false }) rfl).congr rfl rfl
      (le_refl _) (le_refl _) fun _ => rfl
  · exact h

section

variable (ho : Ordered b loose)
include ho

/-- INTERNAL: A flow ends and leaves. -/
theorem finish : Walked (b.finish p) handed :=
  (h.unlink ho).close

/-- INTERNAL: A flow ends on the broker's answer. -/
theorem acked : Walked (b.acked p) handed :=
  (h.unlink ho).credit.close

/-- INTERNAL: A flow goes over to the PUBREC order. -/
theorem toRel : Walked (b.toRel p) handed :=
  ((h.unlink ho).setFlow (p := p)
    (fun f => { f with waiting := true, seq := (b.unlink p).nextSeq }) rfl).congr rfl rfl
    (le_refl _) (Nat.le_succ _) fun _ => rfl

/-- Handing out the flow at the cursor. -/
theorem handOut (hc : b.cursor = some p) :
    Walked (b.handOut p) (handed ++ [p]) := by
  obtain ⟨done, todo, hsplit, hdone, htodo⟩ := h.split
  have hpub := (h.cursor_mem hc).1
  obtain ⟨rest, hrest, hadv⟩ := (hc ▸ hsplit).advance ho.pub_nodup
  have hp : p ∈ todo := by rw [hrest]; simp
  have hflow : ∀ q, ((b.handOut p).flows q).pubSeq = (b.flows q).pubSeq := by
    intro q
    by_cases hq : q = p
    · simp [SendQueue.handOut, hq]
    · simp [SendQueue.handOut, SendQueue.setFlow, hq]
  have hbehind : ∀ q ∈ rest, (b.flows p).pubSeq < (b.flows q).pubSeq := by
    have hsorted := ho.pub_sorted
    rw [hsplit.list, hrest, pairwise_append, pairwise_cons] at hsorted
    exact hsorted.2.1.1
  have hnext : b.next p = succIn b.pub p := if_pos hpub
  constructor
  · refine ⟨done ++ [p], rest, ?_, ?_, ?_⟩
    · show Splits b.pub (b.next p) _ _
      rw [hnext]
      exact hadv
    · intro q hq
      rcases mem_append.mp hq with hq | hq
      · exact mem_append_left _ (hdone q hq)
      · exact mem_append_right _ hq
    · intro q hq r hr
      rw [hflow, hflow]
      rcases mem_append.mp hr with hr | hr
      · exact htodo q (by rw [hrest]; exact .tail _ hq) r hr
      · rw [mem_singleton.mp hr]
        exact hbehind q hq
  · simp only [hflow]
    refine pairwise_append.mpr ⟨h.sorted, pairwise_singleton _ _, ?_⟩
    intro q hq r hr
    rw [mem_singleton.mp hr]
    exact htodo p hp q hq
  · intro q hq
    rw [hflow]
    rcases mem_append.mp hq with hq | hq
    · exact h.bound q hq
    · rw [mem_singleton.mp hq]
      have hlive := ho.live_of_pub hpub
      exact ⟨hlive.1, (ho.bound p hlive).2⟩

end

end

end Walked

/-- A send queue between two operations: in order, and its cursor stands in the send order,
whatever it has passed. -/
structure Steady (b : SendQueue) : Prop where
  ordered : b.Ordered []
  placed : ∃ done todo, Splits b.pub b.cursor done todo

namespace Steady

variable {b b' : SendQueue} {p : ℕ}

section

variable (h : Steady b)
include h

/-- INTERNAL: The cursor is in the send order. -/
theorem cursor_mem (hc : b.cursor = some p) : p ∈ b.pub := by
  obtain ⟨done, todo, hsplit⟩ := h.placed
  obtain ⟨rest, rfl⟩ := (hc ▸ hsplit).todo_of_some
  rw [hsplit.list]
  simp

/-- INTERNAL: A new flow. -/
theorem add (id qos : ℕ) (ref : List UInt8) (hid : b.out.get id = none) :
    Steady (b.add id qos ref) := by
  obtain ⟨done, todo, hsplit⟩ := h.placed
  exact ⟨h.ordered.add id qos ref hid, done, todo ++ [b.size], hsplit.push b.size⟩

/-- A flow taken off its list takes the cursor with it. -/
theorem placed_unlink (p : ℕ) :
    ∃ done todo, Splits (b.unlink p).pub (b.unlink p).cursor done todo := by
  obtain ⟨done, todo, hsplit⟩ := h.placed
  by_cases hpub : p ∈ b.pub
  · have hnext : b.next p = succIn b.pub p := if_pos hpub
    have herase := hsplit.erase h.ordered.pub_nodup p hpub
    exact ⟨_, _, by simpa only [SendQueue.unlink, hnext] using herase⟩
  · have hc : b.cursor ≠ some p := fun hc => hpub (h.cursor_mem hc)
    refine ⟨done, todo, ?_⟩
    have hcursor : (b.unlink p).cursor = b.cursor := if_neg hc
    have hlist : (b.unlink p).pub = b.pub := erase_of_not_mem hpub
    rw [hcursor, hlist]
    exact hsplit

/-- INTERNAL: A flow ends. -/
theorem finish (hp : p ∈ b.pub ∨ p ∈ b.rel) : Steady (b.finish p) :=
  ⟨h.ordered.finish hp, h.placed_unlink p⟩

/-- INTERNAL: A flow that had ended ends. -/
theorem finish_over (hp : ¬ b.Live p)
    (hfin : (b.flows p).finished = true ∧ (b.flows p).waiting = false)
    (hid : b.out.get (b.flows p).id = none) : Steady (b.finish p) :=
  ⟨h.ordered.finish_over hp hfin hid, h.placed_unlink p⟩

/-- INTERNAL: A flow ends on the broker's answer. -/
theorem acked (hp : p ∈ b.pub ∨ p ∈ b.rel) : Steady (b.acked p) := by
  refine ⟨h.ordered.acked hp, ?_⟩
  obtain ⟨done, todo, hsplit⟩ := h.placed_unlink p
  refine ⟨done, todo, ?_⟩
  unfold SendQueue.acked SendQueue.credit
  split
  · exact hsplit
  · exact hsplit

/-- INTERNAL: A flow goes over to the PUBREC order. -/
theorem toRel (hp : p ∈ b.pub ∨ p ∈ b.rel) : Steady (b.toRel p) :=
  ⟨h.ordered.toRel hp, h.placed_unlink p⟩

/-- INTERNAL: The cursor goes on. -/
theorem handOut (hc : b.cursor = some p) : Steady (b.handOut p) := by
  obtain ⟨done, todo, hsplit⟩ := h.placed
  obtain ⟨rest, -, hadv⟩ := (hc ▸ hsplit).advance h.ordered.pub_nodup
  have hnext : b.next p = succIn b.pub p := if_pos (h.cursor_mem hc)
  refine ⟨h.ordered.handOut, done ++ [p], rest, ?_⟩
  show Splits b.pub (b.next p) _ _
  rw [hnext]
  exact hadv

end

/-- INTERNAL: No flow, no cursor. -/
theorem of_empty (h : b.Ordered []) (hpub : b.pub = []) (hcursor : b.cursor = none) :
    Steady b :=
  ⟨h, [], [], by rw [hpub, hcursor]; exact Splits.reset []⟩

end Steady

end Mqttv5.Interface.SendQueue
