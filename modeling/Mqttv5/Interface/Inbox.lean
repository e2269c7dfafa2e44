import Mqttv5.Model.Engine

/-!
# The inbox

What the inbound half of the engine is for, without stores and without the PUBRELs it shares
its control queue with: the flows registered under an identifier, the arrival order of those
the application has yet to ack, and the acknowledgements owed to the broker. `Sound` says, per
identifier, which acknowledgements can be owed in which state of the flow.
-/

set_option autoImplicit false

namespace Mqttv5.Interface

open Mqttv5.Computation Model List FiniteMap

variable {c : CtrlFrame} {acks : List CtrlFrame}

structure Inbox where
  ins : ℕ → In
  size : ℕ
  inn : FiniteMap ℕ ℕ
  fifo : List ℕ
  acks : List CtrlFrame

/-- The acknowledgements an inbound flow owes. -/
def pubackOf (id h : ℕ) : CtrlFrame := ⟨.PUBACK, id, .success, false, some h, some (.inn h)⟩

def pubrecOf (id h : ℕ) : CtrlFrame := ⟨.PUBREC, id, .success, true, none, some (.inn h)⟩

def pubcompOf (id h : ℕ) : CtrlFrame := ⟨.PUBCOMP, id, .success, true, some h, some (.inn h)⟩

/-- The answer to a PUBREL for a flow that is not there. -/
def notFound (id : ℕ) : CtrlFrame := ⟨.PUBCOMP, id, .packetIdentifierNotFound, false, none, none⟩

namespace Inbox

def setIn (b : Inbox) (h : ℕ) (f : In → In) : Inbox :=
  { b with ins := Function.update b.ins h (f (b.ins h)) }

def push (b : Inbox) (c : CtrlFrame) : Inbox := { b with acks := b.acks ++ [c] }

/-- A new flow. -/
def register (b : Inbox) (id qos : ℕ) : Inbox :=
  { b with
    ins := Function.update b.ins b.size { id := id, qos := qos }
    size := b.size + 1
    inn := b.inn.set id b.size
    fifo := b.fifo ++ [b.size] }

/-- A flow of an earlier process that waits for its PUBREL. -/
def remember (b : Inbox) (id : ℕ) : Inbox :=
  { b with
    ins := Function.update b.ins b.size { id := id, qos := 2, state := .awaitPubrel }
    size := b.size + 1
    inn := b.inn.set id b.size }

/-- Acknowledge the head of the arrival order. -/
def ackHead (b : Inbox) (h : ℕ) : Inbox :=
  if (b.ins h).qos = 1 then b.push (pubackOf (b.ins h).id h)
  else (b.setIn h fun x => { x with state := .awaitPubrel }).push (pubrecOf (b.ins h).id h)

def ackLoop : List ℕ → Inbox → Inbox
  | [], b => { b with fifo := [] }
  | h :: rest, b =>
    if (b.ins h).state = .acked then ackLoop rest (b.ackHead h) else { b with fifo := h :: rest }

/-- The PUBREL of a flow that waits for it. -/
def release (b : Inbox) (id h : ℕ) : Inbox :=
  (b.setIn h fun x => { x with state := .released }).push (pubcompOf id h)

/-- The first acknowledgement is written. -/
def write (b : Inbox) : Inbox :=
  match b.acks with
  | [] => b
  | c :: rest =>
    if (c.typ = .PUBACK ∨ c.typ = .PUBCOMP) ∧ c.inn.isSome ∧ b.inn.get c.id = c.inn then
      { b with acks := rest, inn := b.inn.del c.id }
    else { b with acks := rest }

/-- The session is over. -/
def clear (b : Inbox) : Inbox :=
  { b with
    ins := fun h => if h ∈ b.inn.vals then { b.ins h with dead := true } else b.ins h
    inn := ∅
    fifo := []
    acks := [] }

/-- The acknowledgements owed for `id`. -/
def lane (b : Inbox) (id : ℕ) : List CtrlFrame := b.acks.filter fun c => c.id = id

/-- What the flow registered under `id` owes. -/
def Owes (b : Inbox) (id : ℕ) : Prop :=
  match b.inn.get id with
  | none => ∀ c ∈ b.lane id, c = notFound id
  | some h =>
    if h ∈ b.fifo then ∀ c ∈ b.lane id, c = notFound id
    else match (b.ins h).state with
      | .delivered => False
      | .acked => (b.ins h).qos = 1 ∧ ∃ pre post, b.lane id = pre ++ pubackOf id h :: post ∧
          (∀ c ∈ pre, c = notFound id) ∧ ∀ c ∈ post, c = notFound id
      | .awaitPubrel => (b.ins h).qos ≠ 1 ∧
          ∀ c ∈ b.lane id, c = notFound id ∨ c = pubrecOf id h
      | .released => (b.ins h).qos ≠ 1 ∧ ∃ pre, b.lane id = pre ++ [pubcompOf id h] ∧
          ∀ c ∈ pre, c = notFound id ∨ c = pubrecOf id h

structure Sound (b : Inbox) : Prop where
  reg : ∀ id h, b.inn.get id = some h → h < b.size ∧ (b.ins h).id = id ∧ (b.ins h).dead = false
  fresh : ∀ h, h < b.size → (b.ins h).dead = false → (b.ins h).state = .delivered → h ∈ b.fifo
  waiting : ∀ h ∈ b.fifo, b.inn.get (b.ins h).id = some h ∧
    ((b.ins h).state = .delivered ∨ (b.ins h).state = .acked)
  nodup : b.fifo.Nodup
  owes : ∀ id, b.Owes id

/-! ### Reading and writing `Owes` -/

section Owes

variable {b b' : Inbox} {id h : ℕ}

/-- INTERNAL: An identifier without a flow owes no answer. -/
theorem owes_none (hget : b.inn.get id = none) :
    b.Owes id ↔ ∀ c ∈ b.lane id, c = notFound id := by
  simp [Owes, hget]

section

variable (hget : b.inn.get id = some h)
include hget

/-- INTERNAL: Nor does a message that waits in line. -/
theorem owes_waiting (hfifo : h ∈ b.fifo) :
    b.Owes id ↔ ∀ c ∈ b.lane id, c = notFound id := by
  simp [Owes, hget, hfifo]

section

variable (hfifo : h ∉ b.fifo)
include hfifo

/-- INTERNAL: An acknowledged message of QoS 1 owes a PUBACK. -/
theorem owes_acked (hstate : (b.ins h).state = .acked) : b.Owes id ↔
    (b.ins h).qos = 1 ∧ ∃ pre post, b.lane id = pre ++ pubackOf id h :: post ∧
      (∀ c ∈ pre, c = notFound id) ∧ ∀ c ∈ post, c = notFound id := by
  simp [Owes, hget, hfifo, hstate]

/-- INTERNAL: A message that waits for its PUBREL may owe PUBRECs. -/
theorem owes_awaitPubrel (hstate : (b.ins h).state = .awaitPubrel) : b.Owes id ↔
    (b.ins h).qos ≠ 1 ∧ ∀ c ∈ b.lane id, c = notFound id ∨ c = pubrecOf id h := by
  simp [Owes, hget, hfifo, hstate]

/-- INTERNAL: A released message owes a PUBCOMP at the end. -/
theorem owes_released (hstate : (b.ins h).state = .released) : b.Owes id ↔
    (b.ins h).qos ≠ 1 ∧ ∃ pre, b.lane id = pre ++ [pubcompOf id h] ∧
      ∀ c ∈ pre, c = notFound id ∨ c = pubrecOf id h := by
  simp [Owes, hget, hfifo, hstate]

/-- INTERNAL: A delivered message waits in line. -/
theorem owes_delivered (hstate : (b.ins h).state = .delivered) : ¬ b.Owes id := by
  simp [Owes, hget, hfifo, hstate]

end

end

/-- What another identifier's flow does is no matter. -/
theorem owes_of (howes : b.Owes id) (hget : b'.inn.get id = b.inn.get id)
    (hlane : b'.lane id = b.lane id)
    (hflow : ∀ h, b.inn.get id = some h → (h ∈ b'.fifo ↔ h ∈ b.fifo) ∧
      (b'.ins h).state = (b.ins h).state ∧ (b'.ins h).qos = (b.ins h).qos) : b'.Owes id := by
  unfold Owes at howes ⊢
  rw [hget, hlane]
  cases hh : b.inn.get id with
  | none =>
    rw [hh] at howes
    exact howes
  | some h =>
    obtain ⟨hfifo, hstate, hqos⟩ := hflow h hh
    rw [hh] at howes
    simpa only [hfifo, hstate, hqos] using howes

/-- INTERNAL: An answer for the identifier. -/
theorem lane_push_self (b : Inbox) (hc : c.id = id) :
    (b.push c).lane id = b.lane id ++ [c] := by
  unfold lane push
  rw [filter_append]
  simp [hc]

/-- INTERNAL: An answer for another one. -/
theorem lane_push_ne (b : Inbox) (hc : c.id ≠ id) :
    (b.push c).lane id = b.lane id := by
  unfold lane push
  rw [filter_append]
  simp [hc]

/-- INTERNAL: The first answer is another identifier's. -/
theorem lane_tail_ne (hacks : b.acks = c :: acks)
    (hne : id ≠ c.id) : (acks.filter fun x => x.id = id) = b.lane id := by
  have hne' : ¬ c.id = id := fun heq => hne heq.symm
  simp [lane, hacks, hne']

end Owes

namespace Sound

variable {b : Inbox} {id h : ℕ} {rest : List ℕ}

/-- INTERNAL: An empty inbox is sound. -/
theorem empty (ins : ℕ → In) : Sound ⟨ins, 0, ∅, [], []⟩ := by
  refine ⟨?_, ?_, ?_, nodup_nil, ?_⟩
  · intro id h hget
    simp at hget
  · intro h hlt
    exact absurd hlt (Nat.not_lt_zero h)
  · intro h hmem
    simp at hmem
  · intro id
    rw [owes_none (by simp)]
    simp [lane]

section

variable (hs : Sound b)
include hs

/-- The state of a flow outside the arrival order is past `delivered`. -/
theorem state_of_not_waiting (hget : b.inn.get id = some h) (hfifo : h ∉ b.fifo) :
    (b.ins h).state ≠ .delivered := by
  intro hstate
  obtain ⟨hlt, _, hdead⟩ := hs.reg id h hget
  exact hfifo (hs.fresh h hlt hdead hstate)

/-- One flow changes, or is new; the others and what they owe stay. -/
theorem revise {b' : Inbox} (hown : ∀ x, b.inn.get id = some x → x = h)
    (hother : ∀ i, b.inn.get i = some h → i = id)
    (hinn : ∀ i, b'.inn.get i = if i = id then some h else b.inn.get i)
    (hlt : h < b'.size) (hsize : ∀ x, x ≠ h → (x < b'.size ↔ x < b.size))
    (hself : (b'.ins h).id = id ∧ (b'.ins h).dead = false)
    (hins : ∀ x, x ≠ h → b'.ins x = b.ins x) (hnodup : b'.fifo.Nodup)
    (hfifo : ∀ x, x ≠ h → (x ∈ b'.fifo ↔ x ∈ b.fifo))
    (hstate : h ∈ b'.fifo ∧ ((b'.ins h).state = .delivered ∨ (b'.ins h).state = .acked) ∨
      h ∉ b'.fifo ∧ (b'.ins h).state ≠ .delivered)
    (hlane : ∀ i, i ≠ id → b'.lane i = b.lane i) (howes : b'.Owes id) : Sound b' := by
  refine ⟨?_, ?_, ?_, hnodup, ?_⟩
  · intro i x hx
    rw [hinn] at hx
    split at hx
    · rename_i hi
      cases hx
      exact ⟨hlt, hself.1.trans hi.symm, hself.2⟩
    · rename_i hi
      have hxh : x ≠ h := fun heq => hi (hother i (heq ▸ hx))
      rw [hins x hxh, hsize x hxh]
      exact hs.reg i x hx
  · intro x hx hdead hst
    by_cases hxh : x = h
    · subst hxh
      rcases hstate with ⟨hmem, -⟩ | ⟨-, hne⟩
      · exact hmem
      · exact absurd hst hne
    · rw [hins x hxh] at hdead hst
      exact (hfifo x hxh).mpr (hs.fresh x ((hsize x hxh).mp hx) hdead hst)
  · intro x hx
    by_cases hxh : x = h
    · subst hxh
      rw [hself.1, hinn, if_pos rfl]
      rcases hstate with ⟨-, hst⟩ | ⟨hmem, -⟩
      · exact ⟨rfl, hst⟩
      · exact absurd hx hmem
    · have hold := hs.waiting x ((hfifo x hxh).mp hx)
      have hid : (b.ins x).id ≠ id := fun heq => hxh (hown x (heq ▸ hold.1))
      rw [hins x hxh, hinn, if_neg hid]
      exact hold
  · intro i
    by_cases hi : i = id
    · rw [hi]
      exact howes
    · refine owes_of (hs.owes i) (by rw [hinn, if_neg hi]) (hlane i hi) fun x hx => ?_
      have hxh : x ≠ h := fun heq => hi (hother i (heq ▸ hx))
      rw [hins x hxh]
      exact ⟨hfifo x hxh, rfl, rfl⟩

/-- `revise` for a flow that is registered. -/
theorem update {b' : Inbox} (hget : b.inn.get id = some h) (hinn : b'.inn = b.inn)
    (hsize : b'.size = b.size)
    (hself : (b'.ins h).id = (b.ins h).id ∧ (b'.ins h).dead = (b.ins h).dead)
    (hins : ∀ x, x ≠ h → b'.ins x = b.ins x) (hnodup : b'.fifo.Nodup)
    (hfifo : ∀ x, x ≠ h → (x ∈ b'.fifo ↔ x ∈ b.fifo))
    (hstate : h ∈ b'.fifo ∧ ((b'.ins h).state = .delivered ∨ (b'.ins h).state = .acked) ∨
      h ∉ b'.fifo ∧ (b'.ins h).state ≠ .delivered)
    (hlane : ∀ i, i ≠ id → b'.lane i = b.lane i) (howes : b'.Owes id) : Sound b' := by
  obtain ⟨hlt, hid, hdead⟩ := hs.reg id h hget
  refine hs.revise (fun x hx => ?_) (fun i hi => ?_) (fun i => ?_) (hsize ▸ hlt)
    (fun x _ => by rw [hsize]) ⟨hself.1.trans hid, hself.2.trans hdead⟩ hins hnodup hfifo hstate
    hlane howes
  · exact Option.some.inj (hx.symm.trans hget)
  · exact (hs.reg i h hi).2.1.symm.trans hid
  · rw [hinn]
    split
    · rename_i hi
      rw [hi, hget]
    · rfl

/-- `revise` for a new flow. -/
theorem add {b' : Inbox} (hnone : b.inn.get id = none)
    (hinn : b'.inn = b.inn.set id b.size) (hsize : b'.size = b.size + 1)
    (hself : (b'.ins b.size).id = id ∧ (b'.ins b.size).dead = false)
    (hins : ∀ x, x ≠ b.size → b'.ins x = b.ins x) (hnodup : b'.fifo.Nodup)
    (hfifo : ∀ x, x ≠ b.size → (x ∈ b'.fifo ↔ x ∈ b.fifo)) (hstate : b.size ∈ b'.fifo ∧
      ((b'.ins b.size).state = .delivered ∨ (b'.ins b.size).state = .acked) ∨
      b.size ∉ b'.fifo ∧ (b'.ins b.size).state ≠ .delivered)
    (hlane : ∀ i, i ≠ id → b'.lane i = b.lane i) (howes : b'.Owes id) : Sound b' := by
  refine hs.revise (fun x hx => ?_) (fun i hi => ?_) (fun i => ?_) (by omega)
    (fun x hx => by omega) hself hins hnodup hfifo hstate hlane howes
  · rw [hnone] at hx
    cases hx
  · exact absurd (hs.reg i _ hi).1 (Nat.lt_irrefl _)
  · rw [hinn, get_set]

/-- INTERNAL: A new flow is not in line yet. -/
theorem size_not_waiting : b.size ∉ b.fifo := fun hmem =>
  Nat.lt_irrefl _ (hs.reg _ _ (hs.waiting _ hmem).1).1

/-- INTERNAL: A message comes in. -/
theorem register (id qos : ℕ) (hnone : b.inn.get id = none) :
    Sound (b.register id qos) := by
  have hself : (b.register id qos).ins b.size = { id := id, qos := qos } := by
    simp [Inbox.register]
  have hmem : b.size ∈ (b.register id qos).fifo := by simp [Inbox.register]
  refine hs.add hnone rfl rfl (by simp [hself]) (fun x hx => by simp [Inbox.register, hx]) ?_
    (fun x hx => by simp [Inbox.register, hx]) (.inl ⟨hmem, by simp [hself]⟩) (fun _ _ => rfl) ?_
  · show (b.fifo ++ [b.size]).Nodup
    rw [nodup_append]
    refine ⟨hs.nodup, by simp, ?_⟩
    intro x hx y hy hxy
    rw [mem_singleton.mp hy] at hxy
    exact hs.size_not_waiting (hxy ▸ hx)
  · rw [owes_waiting (h := b.size) (by simp [Inbox.register]) hmem]
    exact (owes_none hnone).mp (hs.owes id)

/-- INTERNAL: A flow comes back from the store. -/
theorem remember (id : ℕ) (hnone : b.inn.get id = none) : Sound (b.remember id) := by
  have hself : (b.remember id).ins b.size = { id := id, qos := 2, state := .awaitPubrel } := by
    simp [Inbox.remember]
  have hnot : b.size ∉ (b.remember id).fifo := hs.size_not_waiting
  refine hs.add hnone rfl rfl (by simp [hself]) (fun x hx => by simp [Inbox.remember, hx]) hs.nodup
    (fun _ _ => Iff.rfl) (.inr ⟨hnot, by simp [hself]⟩) (fun _ _ => rfl) ?_
  refine (owes_awaitPubrel (by simp [Inbox.remember]) hnot (by rw [hself])).mpr
    ⟨by simp [hself], ?_⟩
  intro c hc
  exact .inl ((owes_none hnone).mp (hs.owes id) c hc)

/-- One more acknowledgement owed, for a flow that may owe it. -/
theorem push (c : CtrlFrame) (hc : (b.push c).Owes c.id) : Sound (b.push c) := by
  refine ⟨hs.reg, hs.fresh, hs.waiting, hs.nodup, ?_⟩
  intro i
  by_cases hi : i = c.id
  · rw [hi]
    exact hc
  · exact owes_of (hs.owes i) rfl (lane_push_ne b fun heq => hi heq.symm)
      fun _ _ => ⟨Iff.rfl, rfl, rfl⟩

/-- A PUBREL that finds no flow waiting for it. -/
theorem push_notFound (id : ℕ)
    (hstate : ∀ h, b.inn.get id = some h → (b.ins h).state ≠ .awaitPubrel ∧
      (b.ins h).state ≠ .released) : Sound (b.push (notFound id)) := by
  have howes := hs.owes id
  have hlane : (b.push (notFound id)).lane id = b.lane id ++ [notFound id] :=
    lane_push_self b rfl
  have hall : (∀ c ∈ b.lane id, c = notFound id) →
      ∀ c ∈ (b.push (notFound id)).lane id, c = notFound id := by
    intro hprev c hc
    rw [hlane] at hc
    rcases mem_append.mp hc with hc | hc
    · exact hprev c hc
    · exact mem_singleton.mp hc
  apply hs.push
  show (b.push (notFound id)).Owes id
  cases hget : b.inn.get id with
  | none =>
    rw [owes_none hget] at howes
    exact (owes_none (b := b.push (notFound id)) hget).mpr (hall howes)
  | some h =>
    by_cases hfifo : h ∈ b.fifo
    · rw [owes_waiting hget hfifo] at howes
      exact (owes_waiting (b := b.push (notFound id)) hget hfifo).mpr (hall howes)
    · obtain ⟨hna, hnr⟩ := hstate h hget
      have hnd := hs.state_of_not_waiting hget hfifo
      have hacked : (b.ins h).state = .acked := by
        cases hst : (b.ins h).state
        · exact absurd hst hnd
        · rfl
        · exact absurd hst hna
        · exact absurd hst hnr
      obtain ⟨hqos, pre, post, hl, hpre, hpost⟩ := (owes_acked hget hfifo hacked).mp howes
      refine (owes_acked (b := b.push (notFound id)) hget hfifo hacked).mpr
        ⟨hqos, pre, post ++ [notFound id], ?_, hpre, ?_⟩
      · rw [hlane, hl]
        simp
      · intro c hc
        rcases mem_append.mp hc with hc | hc
        · exact hpost c hc
        · exact mem_singleton.mp hc

/-- A PUBREC sent once more. -/
theorem push_pubrec (hget : b.inn.get id = some h)
    (hstate : (b.ins h).state = .awaitPubrel) : Sound (b.push (pubrecOf id h)) := by
  have hfifo : h ∉ b.fifo := by
    intro hmem
    rcases (hs.waiting h hmem).2 with hst | hst
    · rw [hstate] at hst; cases hst
    · rw [hstate] at hst; cases hst
  obtain ⟨hqos, hlane⟩ := (owes_awaitPubrel hget hfifo hstate).mp (hs.owes id)
  apply hs.push
  refine (owes_awaitPubrel (b := b.push (pubrecOf id h)) hget hfifo hstate).mpr ⟨hqos, ?_⟩
  intro c hc
  have hnew : (b.push (pubrecOf id h)).lane id = b.lane id ++ [pubrecOf id h] :=
    lane_push_self b rfl
  rw [hnew] at hc
  rcases mem_append.mp hc with hc | hc
  · exact hlane c hc
  · exact .inr (mem_singleton.mp hc)

/-- The application acks a message. -/
theorem setAcked (hlt : h < b.size) (hdead : (b.ins h).dead = false)
    (hstate : (b.ins h).state = .delivered) :
    Sound (b.setIn h fun x => { x with state := .acked }) := by
  have hfifo := hs.fresh h hlt hdead hstate
  have hget := (hs.waiting h hfifo).1
  refine hs.update hget rfl rfl (by simp [setIn]) (fun x hx => by simp [setIn, hx]) hs.nodup
    (fun _ _ => Iff.rfl) (.inl ⟨hfifo, by simp [setIn]⟩) (fun _ _ => rfl) ?_
  exact (owes_waiting (b := b.setIn h _) hget hfifo).mpr
    ((owes_waiting hget hfifo).mp (hs.owes _))

end

/-- Acknowledging the head of the arrival order. -/
theorem ackHead (hs : Sound { b with fifo := h :: rest }) (hstate : (b.ins h).state = .acked) :
    Sound (Inbox.ackHead { b with fifo := rest } h) := by
  have hwait := hs.waiting h mem_cons_self
  have hget : b.inn.get (b.ins h).id = some h := hwait.1
  have hlane := (owes_waiting hwait.1 mem_cons_self).mp (hs.owes (b.ins h).id)
  obtain ⟨hnot, hrest⟩ := nodup_cons.mp hs.nodup
  -- The other flows keep their place in the arrival order.
  have hmem : ∀ x, x ≠ h → (x ∈ rest ↔ x ∈ h :: rest) := by
    intro x hx
    simp [hx]
  unfold Inbox.ackHead
  simp only
  split
  · rename_i hqos
    refine hs.update hwait.1 rfl rfl ⟨rfl, rfl⟩ (fun _ _ => rfl) hrest hmem
      (.inr ⟨hnot, fun hcon => by cases hstate.symm.trans hcon⟩)
      (fun i hi => lane_push_ne _ fun heq => hi heq.symm) ?_
    exact (owes_acked (b := Inbox.push { b with fifo := rest } _) hget hnot hstate).mpr
      ⟨hqos, b.lane (b.ins h).id, [], lane_push_self { b with fifo := rest } rfl, hlane, by simp⟩
  · rename_i hqos
    refine hs.update hwait.1 rfl rfl (by simp [Inbox.push, setIn])
      (fun x hx => by simp [Inbox.push, setIn, hx]) hrest hmem
      (.inr ⟨hnot, by simp [Inbox.push, setIn]⟩)
      (fun i hi => lane_push_ne _ fun heq => hi heq.symm) ?_
    refine (owes_awaitPubrel (b := Inbox.push (setIn { b with fifo := rest } h _) _) hget hnot
      (by simp [Inbox.push, setIn])).mpr ⟨by simpa [Inbox.push, setIn] using hqos, ?_⟩
    intro c hc
    rw [lane_push_self _ (show (pubrecOf (b.ins h).id h).id = (b.ins h).id from rfl)] at hc
    rcases mem_append.mp hc with hc | hc
    · exact .inl (hlane c hc)
    · exact .inr (mem_singleton.mp hc)

/-- The loop over the arrival order; `l` is what is left of it. -/
theorem ackLoop (l : List ℕ) (b : Inbox) (hs : Sound { b with fifo := l }) :
    Sound (Inbox.ackLoop l b) := by
  induction l generalizing b with
  | nil => exact hs
  | cons h rest ih =>
    unfold Inbox.ackLoop
    split
    · rename_i hstate
      apply ih
      have hcomm : { b.ackHead h with fifo := rest } = Inbox.ackHead { b with fifo := rest } h := by
        unfold Inbox.ackHead
        simp only
        split <;> rfl
      rw [hcomm]
      exact hs.ackHead hstate
    · exact hs

section

variable (hs : Sound b)
include hs

/-- A PUBREL ends the wait of its flow. -/
theorem release (hget : b.inn.get id = some h)
    (hstate : (b.ins h).state = .awaitPubrel) : Sound (b.release id h) := by
  have hfifo : h ∉ b.fifo := by
    intro hmem
    rcases (hs.waiting h hmem).2 with hst | hst
    · rw [hstate] at hst; cases hst
    · rw [hstate] at hst; cases hst
  obtain ⟨hqos, hlane⟩ := (owes_awaitPubrel hget hfifo hstate).mp (hs.owes id)
  have hself : (b.release id h).ins h = { b.ins h with state := .released } := by
    simp [Inbox.release, Inbox.push, setIn]
  refine hs.update hget rfl rfl (by simp [hself])
    (fun x hx => by simp [Inbox.release, Inbox.push, setIn, hx]) hs.nodup (fun _ _ => Iff.rfl)
    (.inr ⟨hfifo, by simp [hself]⟩) (fun i hi => lane_push_ne _ fun heq => hi heq.symm) ?_
  exact (owes_released (b := b.release id h) hget hfifo (by rw [hself])).mpr
    ⟨by rw [hself]; exact hqos, b.lane id, lane_push_self (b.setIn h _) rfl, hlane⟩

section

variable (hacks : b.acks = c :: acks)
include hacks

/-- The acknowledgement owed first, and the state of the flow that owes it. -/
theorem head_cases :
    c = notFound c.id ∨
    (∃ h, b.inn.get c.id = some h ∧ h ∉ b.fifo ∧ (b.ins h).state = .acked ∧
      c = pubackOf c.id h) ∨
    (∃ h, b.inn.get c.id = some h ∧ h ∉ b.fifo ∧
      ((b.ins h).state = .awaitPubrel ∨ (b.ins h).state = .released) ∧ c = pubrecOf c.id h) ∨
    (∃ h, b.inn.get c.id = some h ∧ h ∉ b.fifo ∧ (b.ins h).state = .released ∧
      c = pubcompOf c.id h) := by
  have hmem : c ∈ b.lane c.id := by simp [lane, hacks]
  have howes := hs.owes c.id
  cases hget : b.inn.get c.id with
  | none => exact .inl ((owes_none hget).mp howes c hmem)
  | some h =>
    by_cases hfifo : h ∈ b.fifo
    · exact .inl ((owes_waiting hget hfifo).mp howes c hmem)
    · cases hstate : (b.ins h).state with
      | delivered => exact absurd howes (owes_delivered hget hfifo hstate)
      | acked =>
        obtain ⟨_, pre, post, hlane, hpre, hpost⟩ := (owes_acked hget hfifo hstate).mp howes
        rw [hlane] at hmem
        rcases mem_append.mp hmem with hmem | hmem
        · exact .inl (hpre c hmem)
        · rcases mem_cons.mp hmem with hc | hmem
          · exact .inr (.inl ⟨h, rfl, hfifo, hstate, hc⟩)
          · exact .inl (hpost c hmem)
      | awaitPubrel =>
        obtain ⟨_, hlane⟩ := (owes_awaitPubrel hget hfifo hstate).mp howes
        rcases hlane c hmem with hc | hc
        · exact .inl hc
        · exact .inr (.inr (.inl ⟨h, rfl, hfifo, .inl hstate, hc⟩))
      | released =>
        obtain ⟨_, pre, hlane, hpre⟩ := (owes_released hget hfifo hstate).mp howes
        rw [hlane] at hmem
        rcases mem_append.mp hmem with hmem | hmem
        · rcases hpre c hmem with hc | hc
          · exact .inl hc
          · exact .inr (.inr (.inl ⟨h, rfl, hfifo, .inr hstate, hc⟩))
        · exact .inr (.inr (.inr ⟨h, rfl, hfifo, hstate, mem_singleton.mp hmem⟩))

/-- An acknowledgement that ends no flow is written. -/
theorem write_keep (hc : c = notFound c.id ∨ ∃ h, c = pubrecOf c.id h) :
    Sound { b with acks := acks } := by
  have hcons : b.lane c.id = c :: acks.filter (fun x => x.id = c.id) := by
    simp [lane, hacks]
  refine ⟨hs.reg, hs.fresh, hs.waiting, hs.nodup, ?_⟩
  intro i
  have howes := hs.owes i
  by_cases hi : i = c.id
  · subst hi
    have hlane : ({ b with acks := acks } : Inbox).lane c.id =
        acks.filter (fun x => x.id = c.id) := rfl
    have hsub : ∀ x ∈ ({ b with acks := acks } : Inbox).lane c.id, x ∈ b.lane c.id := by
      intro x hx
      rw [hcons]
      exact .tail _ hx
    cases hget : b.inn.get c.id with
    | none =>
      exact (owes_none (b := { b with acks := acks }) hget).mpr fun x hx =>
        (owes_none hget).mp howes x (hsub x hx)
    | some h =>
      by_cases hfifo : h ∈ b.fifo
      · exact (owes_waiting (b := { b with acks := acks }) hget hfifo).mpr fun x hx =>
          (owes_waiting hget hfifo).mp howes x (hsub x hx)
      · cases hstate : (b.ins h).state with
        | delivered => exact absurd howes (owes_delivered hget hfifo hstate)
        | acked =>
          obtain ⟨hqos, pre, post, hl, hpre, hpost⟩ := (owes_acked hget hfifo hstate).mp howes
          rw [hcons] at hl
          cases pre with
          | nil =>
            obtain ⟨hcp, _⟩ := List.cons.inj hl
            exfalso
            rcases hc with hc | ⟨x, hc⟩
            · rw [hcp] at hc
              simp [pubackOf, notFound] at hc
            · rw [hcp] at hc
              simp [pubackOf, pubrecOf] at hc
          | cons y pre =>
            obtain ⟨_, hl⟩ := List.cons.inj hl
            exact (owes_acked (b := { b with acks := acks }) hget hfifo hstate).mpr
              ⟨hqos, pre, post, hl, fun x hx => hpre x (.tail _ hx), hpost⟩
        | awaitPubrel =>
          obtain ⟨hqos, hl⟩ := (owes_awaitPubrel hget hfifo hstate).mp howes
          exact (owes_awaitPubrel (b := { b with acks := acks }) hget hfifo hstate).mpr
            ⟨hqos, fun x hx => hl x (hsub x hx)⟩
        | released =>
          obtain ⟨hqos, pre, hl, hpre⟩ := (owes_released hget hfifo hstate).mp howes
          rw [hcons] at hl
          cases pre with
          | nil =>
            obtain ⟨hcp, _⟩ := List.cons.inj hl
            exfalso
            rcases hc with hc | ⟨x, hc⟩
            · rw [hcp] at hc
              simp [pubcompOf, notFound] at hc
            · rw [hcp] at hc
              simp [pubcompOf, pubrecOf] at hc
          | cons y pre =>
            obtain ⟨_, hl⟩ := List.cons.inj hl
            exact (owes_released (b := { b with acks := acks }) hget hfifo hstate).mpr
              ⟨hqos, pre, hl, fun x hx => hpre x (.tail _ hx)⟩
  · exact owes_of howes rfl (lane_tail_ne hacks hi) fun _ _ => ⟨Iff.rfl, rfl, rfl⟩

/-- The acknowledgement that ends a flow is written. -/
theorem write_end (hget : b.inn.get c.id = some h) (hfifo : h ∉ b.fifo)
    (hc : (b.ins h).state = .acked ∧ c = pubackOf c.id h ∨
      (b.ins h).state = .released ∧ c = pubcompOf c.id h) :
    Sound { b with acks := acks, inn := b.inn.del c.id } := by
  have hcons : b.lane c.id = c :: acks.filter (fun x => x.id = c.id) := by
    simp [lane, hacks]
  have howes := hs.owes c.id
  -- Nothing but answers to stray PUBRELs is left for the identifier.
  have hleft : ∀ x ∈ acks.filter (fun x => x.id = c.id), x = notFound c.id := by
    rcases hc with ⟨hstate, hc⟩ | ⟨hstate, hc⟩
    · obtain ⟨_, pre, post, hl, hpre, hpost⟩ := (owes_acked hget hfifo hstate).mp howes
      rw [hcons] at hl
      cases pre with
      | nil =>
        obtain ⟨_, hl⟩ := List.cons.inj hl
        rw [hl]
        exact hpost
      | cons y pre =>
        obtain ⟨hy, _⟩ := List.cons.inj hl
        have := hpre y mem_cons_self
        rw [← hy, hc] at this
        simp [pubackOf, notFound] at this
    · obtain ⟨_, pre, hl, hpre⟩ := (owes_released hget hfifo hstate).mp howes
      rw [hcons] at hl
      cases pre with
      | nil =>
        obtain ⟨_, hl⟩ := List.cons.inj hl
        rw [hl]
        simp
      | cons y pre =>
        obtain ⟨hy, _⟩ := List.cons.inj hl
        exfalso
        rcases hpre y mem_cons_self with hcon | hcon
        · rw [← hy, hc] at hcon
          simp [pubcompOf, notFound] at hcon
        · rw [← hy, hc] at hcon
          simp [pubcompOf, pubrecOf] at hcon
  have hdel : ∀ i, (b.inn.del c.id).get i = if i = c.id then none else b.inn.get i := fun i =>
    get_del _ _ _
  refine ⟨?_, hs.fresh, ?_, hs.nodup, ?_⟩
  · intro i x hx
    simp only [hdel] at hx
    split at hx
    · cases hx
    · exact hs.reg i x hx
  · intro x hx
    obtain ⟨h1, h2⟩ := hs.waiting x hx
    refine ⟨?_, h2⟩
    simp only [hdel]
    rw [if_neg]
    · exact h1
    · intro heq
      rw [heq, hget] at h1
      exact hfifo (Option.some.inj h1 ▸ hx)
  · intro i
    by_cases hi : i = c.id
    · subst hi
      exact (owes_none (b := { b with acks := acks, inn := b.inn.del c.id })
        (by simp only [hdel, if_true])).mpr hleft
    · exact owes_of (hs.owes i) (by simp only [hdel, if_neg hi]) (lane_tail_ne hacks hi)
        fun _ _ => ⟨Iff.rfl, rfl, rfl⟩

end

/-- INTERNAL: An answer is handed out. -/
theorem write : Sound b.write := by
  unfold Inbox.write
  split
  · exact hs
  · rename_i c acks hacks
    rcases hs.head_cases hacks with hc | ⟨h, hget, hfifo, hstate, hc⟩ | ⟨h, hget, hfifo, _, hc⟩ |
        ⟨h, hget, hfifo, hstate, hc⟩
    · rw [if_neg (by rw [hc]; simp [notFound])]
      exact hs.write_keep hacks (.inl hc)
    · rw [if_pos]
      · exact hs.write_end hacks hget hfifo (.inl ⟨hstate, hc⟩)
      · rw [hget, hc]
        simp [pubackOf]
    · rw [if_neg (by rw [hc]; simp [pubrecOf])]
      exact hs.write_keep hacks (.inr ⟨h, hc⟩)
    · rw [if_pos]
      · exact hs.write_end hacks hget hfifo (.inr ⟨hstate, hc⟩)
      · rw [hget, hc]
        simp [pubcompOf]

/-- INTERNAL: The inbox is cleared. -/
theorem clear : Sound b.clear := by
  refine ⟨?_, ?_, ?_, nodup_nil, ?_⟩
  · intro i x hx
    simp [Inbox.clear] at hx
  · intro x hx hdead hstate
    simp only [Inbox.clear] at hdead hstate
    split at hdead
    · cases hdead
    · rename_i hmem
      rw [if_neg hmem] at hstate
      have hfifo := hs.fresh x hx hdead hstate
      exact absurd ((mem_vals _ _).mpr ⟨_, (hs.waiting x hfifo).1⟩) hmem
  · intro x hx
    simp [Inbox.clear] at hx
  · intro i
    refine (owes_none (b := b.clear) (by simp [Inbox.clear])).mpr ?_
    simp [Inbox.clear, lane]

end

end Sound

end Inbox

end Mqttv5.Interface
