import Mqttv5.Interface.Inbox

/-!
# The order of the first acknowledgements

`Account` is what a broker session has seen of its inbound flows: those it received, in arrival
order, those the application acked, and the acknowledgements handed to the writer. The flows
whose first PUBACK or PUBREC has been handed out, then those for which it waits in the queue of
acknowledgements, then the arrival order of the inbox are together the flows received
(`Account.Tallies.order`). A PUBREC that answers a retransmission is never a flow's first.
-/

set_option autoImplicit false

namespace Mqttv5.Interface

open Mqttv5.Computation Model List FiniteMap
open Function (update_of_ne update_self)

variable {c : CtrlFrame}

/-- The frame acknowledges a PUBLISH. -/
def answersPublish (c : CtrlFrame) : Bool := c.typ = .PUBACK ∨ c.typ = .PUBREC

/-- The flow a PUBACK or PUBREC is for. -/
def ackedFlow (c : CtrlFrame) : Option ℕ :=
  if answersPublish c then
    match c.src with
    | some (.inn h) => some h
    | _ => none
  else none

/-- The flows seen so far, with that of `c`. -/
def note (old seen : List ℕ) (c : CtrlFrame) : List ℕ :=
  match ackedFlow c with
  | none => seen
  | some h => if h ∈ old ∨ h ∈ seen then seen else seen ++ [h]

/-- The flows, those of `old` apart, in the order of their first PUBACK or PUBREC. -/
def firsts (old : List ℕ) (l : List CtrlFrame) : List ℕ := l.foldl (note old) []

/-- What a broker session has seen of its inbound flows. `restored` are those an earlier process
had acked, and that came back from the store. -/
structure Account where
  received : List ℕ := []
  restored : List ℕ := []
  acked : List ℕ := []
  handed : List CtrlFrame := []

/-! ### First acknowledgements -/

section Firsts

variable {old : List ℕ}

/-- INTERNAL: One more frame. -/
theorem firsts_snoc (l : List CtrlFrame) (c : CtrlFrame) :
    firsts old (l ++ [c]) = note old (firsts old l) c := by
  unfold firsts
  rw [foldl_append]
  rfl

/-- INTERNAL: A frame that answers no flow. -/
theorem note_none (seen : List ℕ) (hc : ackedFlow c = none) :
    note old seen c = seen := by
  unfold note
  rw [hc]

/-- INTERNAL: A second answer is not noted. -/
theorem note_seen {h : ℕ} (seen : List ℕ) (hc : ackedFlow c = some h)
    (hseen : h ∈ old ∨ h ∈ seen) : note old seen c = seen := by
  unfold note
  rw [hc]
  exact if_pos hseen

/-- INTERNAL: A first answer is. -/
theorem note_new {h : ℕ} {seen : List ℕ} (hc : ackedFlow c = some h)
    (hold : h ∉ old) (hseen : h ∉ seen) : note old seen c = seen ++ [h] := by
  unfold note
  rw [hc]
  refine if_neg ?_
  rintro (hcon | hcon)
  · exact hold hcon
  · exact hseen hcon

/-- INTERNAL: What was noted stays. -/
theorem prefix_note (seen : List ℕ) (c : CtrlFrame) : seen <+: note old seen c := by
  unfold note
  split
  · exact prefix_refl _
  · split
    · exact prefix_refl _
    · exact prefix_append _ _

/-- INTERNAL: It stays over many frames. -/
theorem prefix_foldl_note (l : List CtrlFrame) (seen : List ℕ) :
    seen <+: l.foldl (note old) seen := by
  induction l generalizing seen with
  | nil => exact prefix_refl _
  | cons c rest ih => exact (prefix_note seen c).trans (ih _)

/-- INTERNAL: Later frames come behind. -/
theorem firsts_append_left (l l' : List CtrlFrame) : firsts old l <+: firsts old (l ++ l') := by
  unfold firsts
  rw [foldl_append]
  exact prefix_foldl_note l' _

/-- Frames that acknowledge no PUBLISH do not count. -/
theorem firsts_of_none {l : List CtrlFrame} (h : ∀ c ∈ l, ackedFlow c = none) :
    firsts old l = [] := by
  induction l with
  | nil => rfl
  | cons c rest ih =>
    show rest.foldl (note old) (note old [] c) = []
    rw [note_none _ (h c mem_cons_self)]
    exact ih fun c' hc' => h c' (.tail _ hc')

end Firsts

/-! ### The account of an inbox -/

/-- The head of the arrival order waits for the application. -/
def Inbox.Open (b : Inbox) : Prop := ∀ h rest, b.fifo = h :: rest → (b.ins h).state ≠ .acked

namespace Account

/-- The application has acked the flow, now or in an earlier process. -/
def Settled (A : Account) (h : ℕ) : Prop := h ∈ A.acked ∨ h ∈ A.restored

structure Tallies (A : Account) (b : Inbox) : Prop where
  order : A.received = firsts A.restored (A.handed ++ b.acks) ++ b.fifo
  nodup : A.received.Nodup
  bound : ∀ h, h ∈ A.received ∨ h ∈ A.restored ∨ h ∈ A.acked → h < b.size
  apart : ∀ h ∈ A.received, h ∉ A.restored
  known : ∀ id h, b.inn.get id = some h → h ∈ A.received ∨ h ∈ A.restored
  done : ∀ id h, b.inn.get id = some h → (b.ins h).state ≠ .delivered → A.Settled h
  frames : ∀ c ∈ A.handed ++ b.acks, answersPublish c = true →
    ∃ h, c.src = some (.inn h) ∧ A.Settled h
  marked : ∀ h ∈ b.fifo, h ∈ A.acked → (b.ins h).state = .acked

namespace Tallies

variable {A : Account} {b : Inbox} {id h : ℕ}

/-- INTERNAL: First answers are in the order of arrival. -/
theorem handed_in_order (hA : Tallies A b) : firsts A.restored A.handed <+: A.received := by
  rw [hA.order]
  exact (firsts_append_left _ _).trans (prefix_append _ _)

/-- A session without inbound flows. -/
theorem of_empty (hinn : ∀ id, b.inn.get id = none) (hfifo : b.fifo = [])
    (hacks : ∀ c ∈ b.acks, answersPublish c = false) : Tallies {} b := by
  refine ⟨?_, nodup_nil, ?_, ?_, ?_, ?_, ?_, ?_⟩
  · rw [hfifo, append_nil]
    exact (firsts_of_none fun c hc => by simp [ackedFlow, hacks c hc]).symm
  · rintro x (hx | hx | hx) <;> cases hx
  · intro x hx
    cases hx
  · intro i x hx
    rw [hinn] at hx
    cases hx
  · intro i x hx
    rw [hinn] at hx
    cases hx
  · intro c hc hans
    rw [hacks c hc] at hans
    cases hans
  · intro x hx
    rw [hfifo] at hx
    cases hx

/-- INTERNAL: An empty inbox owes nothing. -/
theorem clear (b : Inbox) : Tallies {} b.clear := by
  refine of_empty (fun id => get_empty id) rfl fun c hc => ?_
  cases hc

/-- The flows that come back from the store. -/
theorem of_restored (hs : b.Sound) (hfifo : b.fifo = [])
    (hacks : ∀ c ∈ b.acks, answersPublish c = false) : Tallies { restored := b.inn.vals } b := by
  have hvals : ∀ i x, b.inn.get i = some x → x ∈ b.inn.vals := fun i x hx =>
    (mem_vals _ _).mpr ⟨i, hx⟩
  refine ⟨?_, nodup_nil, ?_, ?_, fun i x hx => .inr (hvals i x hx),
    fun i x hx _ => .inr (hvals i x hx), ?_, ?_⟩
  · rw [hfifo, append_nil]
    exact (firsts_of_none fun c hc => by simp [ackedFlow, hacks c hc]).symm
  · rintro x (hx | hx | hx)
    · cases hx
    · obtain ⟨i, hi⟩ := (mem_vals _ _).mp hx
      exact (hs.reg i x hi).1
    · cases hx
  · intro x hx
    cases hx
  · intro c hc hans
    rw [hacks c hc] at hans
    cases hans
  · intro x hx
    rw [hfifo] at hx
    cases hx

section

variable (hA : Tallies A b)
include hA

/-- A frame that is no flow's first acknowledgement is queued. -/
theorem push (hnote : note A.restored (firsts A.restored (A.handed ++ b.acks)) c =
      firsts A.restored (A.handed ++ b.acks))
    (hframe : answersPublish c = true → ∃ h, c.src = some (.inn h) ∧ A.Settled h) :
    Tallies A (b.push c) := by
  refine ⟨?_, hA.nodup, hA.bound, hA.apart, hA.known, hA.done, ?_, hA.marked⟩
  · show A.received = firsts A.restored (A.handed ++ (b.acks ++ [c])) ++ b.fifo
    rw [← append_assoc, firsts_snoc, hnote]
    exact hA.order
  · intro c' hc'
    have hc' : c' ∈ A.handed ++ (b.acks ++ [c]) := hc'
    rw [← append_assoc] at hc'
    rcases mem_append.mp hc' with hc' | hc'
    · exact hA.frames c' hc'
    · rw [mem_singleton.mp hc']
      exact hframe

/-- INTERNAL: An answer to an unknown identifier is not noted. -/
theorem push_notFound (id : ℕ) : Tallies A (b.push (notFound id)) := by
  refine hA.push (note_none _ rfl) fun hcon => ?_
  cases hcon

/-- A flow that waits for its PUBREL has had its PUBREC queued. -/
theorem seen_of_awaitPubrel (hs : b.Sound) (hget : b.inn.get id = some h)
    (hstate : (b.ins h).state = .awaitPubrel) :
    h ∈ A.restored ∨ h ∈ firsts A.restored (A.handed ++ b.acks) := by
  rcases hA.known id h hget with hrec | hold
  · rw [hA.order] at hrec
    rcases mem_append.mp hrec with hrec | hrec
    · exact .inr hrec
    · rcases (hs.waiting h hrec).2 with hst | hst
      · rw [hst] at hstate
        cases hstate
      · rw [hst] at hstate
        cases hstate
  · exact .inl hold

/-- A retransmission is answered. -/
theorem push_pubrec (hs : b.Sound) (hget : b.inn.get id = some h)
    (hstate : (b.ins h).state = .awaitPubrel) : Tallies A (b.push (pubrecOf id h)) := by
  refine hA.push (note_seen _ rfl (hA.seen_of_awaitPubrel hs hget hstate)) fun _ =>
    ⟨h, rfl, hA.done id h hget ?_⟩
  rw [hstate]
  nofun

/-- A new flow is received. -/
theorem register (id qos : ℕ) :
    Tallies { A with received := A.received ++ [b.size] } (b.register id qos) := by
  have hfresh : ∀ h, h ∈ A.received ∨ h ∈ A.restored ∨ h ∈ A.acked → h ≠ b.size := fun h hh =>
    Nat.ne_of_lt (hA.bound h hh)
  have hold : ∀ h, h ≠ b.size → (b.register id qos).ins h = b.ins h := fun h hh =>
    update_of_ne hh _ _
  have hget : ∀ i h, (b.register id qos).inn.get i = some h → h = b.size ∨
    b.inn.get i = some h := by
    intro i h hi
    have hi : (b.inn.set id b.size).get i = some h := hi
    rw [get_set] at hi
    split at hi
    · exact .inl (Option.some.inj hi).symm
    · exact .inr hi
  refine ⟨?_, ?_, ?_, ?_, ?_, ?_, hA.frames, ?_⟩
  · show A.received ++ [b.size] =
      firsts A.restored (A.handed ++ b.acks) ++ (b.fifo ++ [b.size])
    rw [← append_assoc, ← hA.order]
  · refine List.Nodup.append hA.nodup (nodup_singleton _) ?_
    intro h hh hsize
    exact hfresh h (.inl hh) (mem_singleton.mp hsize)
  · intro h hh
    have hsize : (b.register id qos).size = b.size + 1 := rfl
    rw [hsize]
    rcases hh with hh | hh
    · rcases mem_append.mp hh with hh | hh
      · exact Nat.lt_succ_of_lt (hA.bound h (.inl hh))
      · rw [mem_singleton.mp hh]
        exact Nat.lt_succ_self _
    · exact Nat.lt_succ_of_lt (hA.bound h (.inr hh))
  · intro h hh
    rcases mem_append.mp hh with hh | hh
    · exact hA.apart h hh
    · rw [mem_singleton.mp hh]
      exact fun hcon => hfresh _ (.inr (.inl hcon)) rfl
  · intro i h hi
    rcases hget i h hi with rfl | hi
    · exact .inl (mem_append_right _ mem_cons_self)
    · rcases hA.known i h hi with hrec | hrest
      · exact .inl (mem_append_left _ hrec)
      · exact .inr hrest
  · intro i h hi hstate
    rcases hget i h hi with rfl | hi
    · refine absurd ?_ hstate
      simp [Inbox.register]
    · have hne : h ≠ b.size := by
        rcases hA.known i h hi with hrec | hrest
        · exact hfresh h (.inl hrec)
        · exact hfresh h (.inr (.inl hrest))
      rw [hold h hne] at hstate
      exact hA.done i h hi hstate
  · intro h hh hacked
    have hne := hfresh h (.inr (.inr hacked))
    rw [hold h hne]
    rcases mem_append.mp hh with hh | hh
    · exact hA.marked h hh hacked
    · exact absurd (mem_singleton.mp hh) hne

/-- The application is done with a flow; one that waits in the arrival order is marked. -/
theorem mark (hlt : h < b.size) {ins : ℕ → In}
    (hold : ∀ x, x ≠ h → ins x = b.ins x) (hself : h ∈ b.fifo → (ins h).state = .acked) :
    Tallies { A with acked := A.acked ++ [h] } { b with ins := ins } := by
  have hset : ∀ x, A.Settled x → Account.Settled { A with acked := A.acked ++ [h] } x := by
    rintro x (hx | hx)
    · exact .inl (mem_append_left _ hx)
    · exact .inr hx
  refine ⟨hA.order, hA.nodup, ?_, hA.apart, hA.known, ?_, ?_, ?_⟩
  · rintro x (hx | hx | hx)
    · exact hA.bound x (.inl hx)
    · exact hA.bound x (.inr (.inl hx))
    · rcases mem_append.mp hx with hx | hx
      · exact hA.bound x (.inr (.inr hx))
      · rw [mem_singleton.mp hx]
        exact hlt
  · intro i x hi hst
    by_cases hx : x = h
    · rw [hx]
      exact .inl (mem_append_right _ mem_cons_self)
    · refine hset x (hA.done i x hi ?_)
      rw [← hold x hx]
      exact hst
  · intro c hc hans
    obtain ⟨x, hx, hsettled⟩ := hA.frames c hc hans
    exact ⟨x, hx, hset x hsettled⟩
  · intro x hx hacked
    show (ins x).state = .acked
    by_cases hxh : x = h
    · subst hxh
      exact hself hx
    · rw [hold x hxh]
      rcases mem_append.mp hacked with hacked | hacked
      · exact hA.marked x hx hacked
      · exact absurd (mem_singleton.mp hacked) hxh

/-- A state is set that is no longer `delivered`. -/
theorem setState (st : InState) (hset : A.Settled h) (hfifo : h ∈ b.fifo → st = .acked) :
    Tallies A (b.setIn h fun x => { x with state := st }) := by
  have hself : ((b.setIn h fun x => { x with state := st }).ins h).state = st := by
    simp [Inbox.setIn]
  have hold : ∀ x, x ≠ h → (b.setIn h fun x => { x with state := st }).ins x = b.ins x :=
    fun x hx => update_of_ne hx _ _
  refine ⟨hA.order, hA.nodup, hA.bound, hA.apart, hA.known, ?_, hA.frames, ?_⟩
  · intro i x hi hst
    by_cases hx : x = h
    · rw [hx]
      exact hset
    · rw [hold x hx] at hst
      exact hA.done i x hi hst
  · intro x hx hacked
    by_cases hxh : x = h
    · subst hxh
      exact hself.trans (hfifo hx)
    · rw [hold x hxh]
      exact hA.marked x hx hacked

/-- The PUBREL of a flow that waits for it. -/
theorem release (hs : b.Sound) (hget : b.inn.get id = some h)
    (hstate : (b.ins h).state = .awaitPubrel) : Tallies A (b.release id h) := by
  have hset : A.Settled h := hA.done id h hget (by rw [hstate]; nofun)
  have hnot : h ∉ b.fifo := by
    intro hmem
    rcases (hs.waiting h hmem).2 with hst | hst
    · rw [hst] at hstate
      cases hstate
    · rw [hst] at hstate
      cases hstate
  refine (hA.setState .released hset fun hmem => absurd hmem hnot).push (note_none _ rfl)
    fun hcon => ?_
  cases hcon

end

/-- The first acknowledgement of the head of the arrival order is queued. -/
theorem ackHead {rest : List ℕ} (hA : Tallies A { b with fifo := h :: rest })
    (hs : Inbox.Sound { b with fifo := h :: rest }) (hstate : (b.ins h).state = .acked) :
    Tallies A { b.ackHead h with fifo := rest } := by
  have hmem : h ∈ A.received := by
    rw [hA.order]
    exact mem_append_right _ mem_cons_self
  have hset : A.Settled h := by
    refine hA.done (b.ins h).id h (hs.waiting h mem_cons_self).1 ?_
    rw [show ({ b with fifo := h :: rest } : Inbox).ins = b.ins from rfl, hstate]
    nofun
  have hnew : h ∉ firsts A.restored (A.handed ++ b.acks) := by
    have hnd := hA.nodup
    rw [hA.order] at hnd
    exact fun hcon => (disjoint_of_nodup_append hnd) hcon mem_cons_self
  -- Whatever the frame is, it is the first of its flow, which leaves the arrival order.
  have hgo : ∀ (c : CtrlFrame) (ins : ℕ → In), ackedFlow c = some h → c.src = some (.inn h) →
      (∀ x, x ≠ h → ins x = b.ins x) →
      Tallies A { b with ins := ins, fifo := rest, acks := b.acks ++ [c] } := by
    intro c ins hc hsrc hins
    refine ⟨?_, hA.nodup, hA.bound, hA.apart, hA.known, ?_, ?_, ?_⟩
    · show A.received = firsts A.restored (A.handed ++ (b.acks ++ [c])) ++ rest
      rw [← append_assoc, firsts_snoc, note_new hc (hA.apart h hmem) hnew, append_assoc]
      exact hA.order
    · intro i x hi hst
      by_cases hx : x = h
      · rw [hx]
        exact hset
      · refine hA.done i x hi ?_
        have hst : (ins x).state ≠ .delivered := hst
        rw [hins x hx] at hst
        exact hst
    · intro c' hc' hans
      have hc' : c' ∈ A.handed ++ (b.acks ++ [c]) := hc'
      rw [← append_assoc] at hc'
      rcases mem_append.mp hc' with hc' | hc'
      · exact hA.frames c' hc' hans
      · rw [mem_singleton.mp hc']
        exact ⟨h, hsrc, hset⟩
    · intro x hx hacked
      have hne : x ≠ h := by
        rintro rfl
        exact (nodup_cons.mp hs.nodup).1 hx
      show (ins x).state = .acked
      rw [hins x hne]
      exact hA.marked x (.tail _ hx) hacked
  unfold Inbox.ackHead
  split
  · exact hgo (pubackOf (b.ins h).id h) b.ins rfl rfl fun _ _ => rfl
  · exact hgo (pubrecOf (b.ins h).id h) _ rfl rfl fun x hx => update_of_ne hx _ _

/-- The loop over the arrival order; `l` is what is left of it. It stops at a flow the
application has not acked. -/
theorem ackLoop (l : List ℕ) (b : Inbox) (hA : Tallies A { b with fifo := l })
    (hs : Inbox.Sound { b with fifo := l }) :
    Tallies A (Inbox.ackLoop l b) ∧ (Inbox.ackLoop l b).Open := by
  induction l generalizing b with
  | nil =>
    refine ⟨hA, fun h rest hcon => ?_⟩
    cases hcon
  | cons h rest ih =>
    unfold Inbox.ackLoop
    split
    · rename_i hstate
      have hcomm : { b.ackHead h with fifo := rest } = Inbox.ackHead { b with fifo := rest } h := by
        unfold Inbox.ackHead
        simp only
        split <;> rfl
      refine ih _ (hA.ackHead hs hstate) ?_
      rw [hcomm]
      exact hs.ackHead hstate
    · rename_i hstate
      refine ⟨hA, fun h' rest' heq => ?_⟩
      obtain ⟨rfl, rfl⟩ := List.cons.inj heq
      exact hstate

/-- The application acks a flow. -/
theorem ack (hA : Tallies A b) (hs : b.Sound) (hlt : h < b.size) (hdead : (b.ins h).dead = false)
    (hstate : (b.ins h).state = .delivered) :
    Tallies { A with acked := A.acked ++ [h] }
      (Inbox.ackLoop b.fifo (b.setIn h fun x => { x with state := .acked })) ∧
    (Inbox.ackLoop b.fifo (b.setIn h fun x => { x with state := .acked })).Open := by
  have hself : (Function.update b.ins h { b.ins h with state := .acked } h).state = .acked := by
    rw [update_self]
  have hmark : Tallies { A with acked := A.acked ++ [h] }
      (b.setIn h fun x => { x with state := .acked }) :=
    hA.mark hlt (fun x hx => update_of_ne hx _ _) fun _ => hself
  exact ackLoop b.fifo _ hmark (hs.setAcked hlt hdead hstate)

/-- The writer is handed the first acknowledgements of the queue; some of them end
their flows. -/
theorem handOut (hA : Tallies A b) {pre post : List CtrlFrame} (hacks : b.acks = pre ++ post)
    {inn : FiniteMap ℕ ℕ} (hinn : ∀ i x, inn.get i = some x → b.inn.get i = some x) :
    Tallies { A with handed := A.handed ++ pre } { b with acks := post, inn := inn } := by
  have happ : A.handed ++ b.acks = A.handed ++ pre ++ post := by
    rw [hacks, append_assoc]
  refine ⟨?_, hA.nodup, hA.bound, hA.apart, fun i x hi => hA.known i x (hinn i x hi),
    fun i x hi => hA.done i x (hinn i x hi), ?_, hA.marked⟩
  · have horder := hA.order
    rw [happ] at horder
    exact horder
  · have hframes := hA.frames
    rw [happ] at hframes
    exact hframes

/-- When the application has acked every flow, the first acknowledgement of each is
queued or has left. -/
theorem all_queued (hA : Tallies A b) (hopen : b.Open) (hall : ∀ h ∈ A.received, h ∈ A.acked) :
    A.received = firsts A.restored (A.handed ++ b.acks) := by
  cases hfifo : b.fifo with
  | nil =>
    have horder := hA.order
    rw [hfifo, append_nil] at horder
    exact horder
  | cons h rest =>
    have hmem : h ∈ b.fifo := by
      rw [hfifo]
      exact mem_cons_self
    have hrec : h ∈ A.received := by
      rw [hA.order]
      exact mem_append_right _ hmem
    exact absurd (hA.marked h hmem (hall h hrec)) (hopen h rest hfifo)

end Tallies

end Account

end Mqttv5.Interface
