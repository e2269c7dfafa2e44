import Mqttv5.Model.Run

/-!
# The holder of an identifier and its writes

A flow holds its identifier from `Register` until its record is gone, and all that time the
write queue of its record is its own. `SlotOf` says which queues a flow can have: puts while
it is live; puts and, last of all, one settle-and-delete while it is being settled; and puts
alone while it waits, ended, for a producer to adopt it.
-/

set_option autoImplicit false

namespace Mqttv5.Analysis

open Model Program List

variable {rest : List Job}

/-- The settle-and-delete of a finished flow. -/
def isSettle : JobKind → Bool
  | .settle _ _ _ => true
  | _ => false

/-- The first Put of a flow. -/
def isNew : JobKind → Bool
  | .putNew _ => true
  | _ => false

/-- A write of an outbound record. -/
def isOutbound : JobKind → Bool
  | .putNew _ => true
  | .putOut _ => true
  | .settle _ _ _ => true
  | _ => false

/-- The record a write puts. -/
def putOf : JobKind → Option Record
  | .putNew r => some r
  | .putOut r => some r
  | .putIn r => some r
  | _ => none

/-- What is at the head of a queue is in it. -/
theorem head_mem {α : Type} {q rest : List α} {j : α} (hq : q = j :: rest) : j ∈ q := by
  rw [hq]
  exact mem_cons_self

theorem isOutbound_of_isSettle {k : JobKind} (h : isSettle k = true) : isOutbound k = true := by
  cases k <;> first | rfl | cases h

theorem isOutbound_of_isNew {k : JobKind} (h : isNew k = true) : isOutbound k = true := by
  cases k <;> first | rfl | cases h

/-- The queue of flow `o` at `p`, in the session of epoch `epoch`. -/
structure SlotOf (store : Bool) (epoch : ℕ) (p : OutPtr) (o : Out) (q : List Job) : Prop where
  owner : ∀ j ∈ q, j.owner = .out p
  epoch : ∀ j ∈ q, j.epoch = epoch
  kind : ∀ j ∈ q, isOutbound j.kind = true
  tail : ∀ j ∈ q.tail, j.stage = .queued ∧ isNew j.kind = false
  captured : ∀ j ∈ q, ∀ f err ref, j.kind = .settle f err ref → ref = o.ref
  failed : ∀ j ∈ q, ∀ c, j.stage = .ran (some (.settle c)) →
    ∃ f err ref, j.kind = .settle f err ref ∧ ref ≠ []
  noStore : store = false → ∀ j ∈ q, isSettle j.kind = true
  live : o.finished = false → o.settling = false ∧ o.adopted = false
  busy : o.settling = true → ∃ puts last, q = puts ++ [last] ∧ isSettle last.kind = true ∧
    ∀ j ∈ puts, isSettle j.kind = false
  idle : o.settling = false → ∀ j ∈ q, isSettle j.kind = false
  kept : o.finished = true → o.settling = false → o.settle = none ∧ o.ref ≠ [] ∧ o.adopted = false

namespace SlotOf

variable {store : Bool} {epoch : ℕ} {p : OutPtr} {o x : Out} {q : List Job}

section

variable (h : SlotOf store epoch p o q)
include h

/-- Only the producer's side of a flow matters here. -/
theorem congr (hfin : x.finished = o.finished)
    (hset : x.settling = o.settling) (had : x.adopted = o.adopted)
    (hsettle : x.settle = o.settle) (href : x.ref = o.ref) : SlotOf store epoch p x q := by
  refine ⟨h.owner, h.epoch, h.kind, h.tail, ?_, h.failed, h.noStore, ?_, ?_, ?_, ?_⟩
  · rw [href]; exact h.captured
  · rw [hfin, hset, had]; exact h.live
  · rw [hset]; exact h.busy
  · rw [hset]; exact h.idle
  · rw [hfin, hset, hsettle, href, had]; exact h.kept

/-- A live flow may get another producer. -/
theorem adopt_live (hfin : o.finished = false) (f : SettleFn) :
    SlotOf store epoch p { o with settle := some f } q := by
  refine ⟨h.owner, h.epoch, h.kind, h.tail, h.captured, h.failed, h.noStore, h.live, h.busy,
    h.idle, ?_⟩
  intro hcon
  rw [hfin] at hcon
  cases hcon

theorem adopt_busy (hset : o.settling = true) (f : SettleFn) :
    SlotOf store epoch p { o with settle := some f, adopted := true } q := by
  refine ⟨h.owner, h.epoch, h.kind, h.tail, h.captured, h.failed, h.noStore, ?_, h.busy,
    h.idle, ?_⟩
  · intro hfin
    have := (h.live hfin).1
    rw [hset] at this
    cases this
  · intro _ hcon
    rw [hset] at hcon
    cases hcon

/-- A flow that ends with nobody to tell is kept. -/
theorem finish_kept (hlive : o.finished = false)
    (hfin : x.finished = true) (hset : x.settling = o.settling) (had : x.adopted = o.adopted)
    (hsettle : x.settle = none) (href : x.ref = o.ref) (hne : o.ref ≠ []) :
    SlotOf store epoch p x q := by
  obtain ⟨hsettling, hadopted⟩ := h.live hlive
  refine ⟨h.owner, h.epoch, h.kind, h.tail, ?_, h.failed, h.noStore, ?_, ?_, ?_, ?_⟩
  · rw [href]; exact h.captured
  · intro hcon
    rw [hfin] at hcon
    cases hcon
  · rw [hset]; exact h.busy
  · rw [hset]; exact h.idle
  · intro _ _
    rw [href, had]
    exact ⟨hsettle, hne, hadopted⟩

end

theorem forall_mem_concat {P : Job → Prop} {a : Job} (h : ∀ j ∈ q, P j) (ha : P a) :
    ∀ j ∈ q ++ [a], P j :=
  forall_mem_append.mpr ⟨h, forall_mem_singleton.mpr ha⟩

theorem tail_append {a : Job} (h : ∀ j ∈ q.tail, j.stage = .queued ∧ isNew j.kind = false)
    (ha : a.stage = .queued ∧ (q ≠ [] → isNew a.kind = false)) :
    ∀ j ∈ (q ++ [a]).tail, j.stage = .queued ∧ isNew j.kind = false := by
  cases q with
  | nil => simp
  | cons b rest =>
    intro j hj
    simp only [cons_append, tail_cons, mem_append, mem_singleton] at hj
    rcases hj with hj | rfl
    · exact h j hj
    · exact ⟨ha.1, ha.2 (by simp)⟩

/-- A Put queued behind the others. -/
theorem put (h : SlotOf true epoch p o q) (hset : o.settling = false) (r : Record) :
    SlotOf true epoch p o (q ++ [⟨.putOut r, .out p, epoch, .queued⟩]) := by
  refine ⟨forall_mem_concat h.owner rfl, forall_mem_concat h.epoch rfl,
    forall_mem_concat h.kind rfl,
    tail_append h.tail ⟨rfl, fun _ => rfl⟩, forall_mem_concat h.captured ?_,
      forall_mem_concat h.failed ?_, ?_, h.live,
    ?_, fun _ => forall_mem_concat (h.idle hset) rfl, h.kept⟩
  · intro f err ref hk
    cases hk
  · intro c hc
    cases hc
  · intro hcon
    cases hcon
  · intro hcon
    rw [hset] at hcon
    cases hcon

/-- The settle-and-delete of an ended flow, queued behind its puts. -/
theorem settle (h : SlotOf store epoch p o q) (hset : o.settling = false)
    (hfin : x.finished = true) (hset' : x.settling = true) (href : x.ref = o.ref)
    (f : Option SettleFn) (err : Option PubErr) :
    SlotOf store epoch p x (q ++ [⟨.settle f err o.ref, .out p, epoch, .queued⟩]) := by
  refine ⟨forall_mem_concat h.owner rfl, forall_mem_concat h.epoch rfl,
    forall_mem_concat h.kind rfl,
    tail_append h.tail ⟨rfl, fun _ => rfl⟩, forall_mem_concat ?_ ?_,
    forall_mem_concat h.failed ?_, ?_, ?_, ?_, ?_, ?_⟩
  · rw [href]; exact h.captured
  · intro g err' ref hk
    cases hk
    exact href.symm
  · intro c hc
    cases hc
  · exact fun hs => forall_mem_concat (h.noStore hs) rfl
  · intro hcon
    rw [hfin] at hcon
    cases hcon
  · exact fun _ => ⟨q, _, rfl, rfl, h.idle hset⟩
  · intro hcon
    rw [hset'] at hcon
    cases hcon
  · intro _ hcon
    rw [hset'] at hcon
    cases hcon

/-- A new flow with its first Put. -/
theorem new (hfin : o.finished = false) (hset : o.settling = false) (had : o.adopted = false)
    (r : Record) : SlotOf true epoch p o [⟨.putNew r, .out p, epoch, .queued⟩] := by
  refine ⟨by simp, by simp, by simp [isOutbound], by simp, by simp, by simp, by simp,
    fun _ => ⟨hset, had⟩, ?_, by simp [isSettle], ?_⟩
  · intro hcon
    rw [hset] at hcon
    cases hcon
  · intro hcon
    rw [hfin] at hcon
    cases hcon

/-- A new flow without a store. -/
theorem new_unstored (hfin : o.finished = false) (hset : o.settling = false)
    (had : o.adopted = false) : SlotOf store epoch p o [] := by
  refine ⟨by simp, by simp, by simp, by simp, by simp, by simp, by simp,
    fun _ => ⟨hset, had⟩, ?_, by simp, ?_⟩
  · intro hcon
    rw [hset] at hcon
    cases hcon
  · intro hcon
    rw [hfin] at hcon
    cases hcon

/-- An ended flow kept for its producer, with no write to do. -/
theorem kept_empty (hfin : o.finished = true) (hset : o.settling = false)
    (had : o.adopted = false) (hsettle : o.settle = none) (href : o.ref ≠ []) :
    SlotOf store epoch p o [] := by
  refine ⟨by simp, by simp, by simp, by simp, by simp, by simp, by simp, ?_, ?_, by simp,
    fun _ _ => ⟨hsettle, href, had⟩⟩
  · intro hcon
    rw [hfin] at hcon
    cases hcon
  · intro hcon
    rw [hset] at hcon
    cases hcon

/-- A flow being settled, with nothing else to write. -/
theorem settle_only (hfin : o.finished = true) (hset : o.settling = true) (f : Option SettleFn)
    (err : Option PubErr) :
    SlotOf store epoch p o [⟨.settle f err o.ref, .out p, epoch, .queued⟩] := by
  refine ⟨by simp, by simp, by simp [isOutbound], by simp, ?_, by simp, by simp [isSettle], ?_,
    fun _ => ⟨[], _, rfl, rfl, by simp⟩, ?_, ?_⟩
  · intro j hj g err' ref hk
    rw [mem_singleton.mp hj] at hk
    cases hk
    rfl
  · intro hcon
    rw [hfin] at hcon
    cases hcon
  · intro hcon
    rw [hset] at hcon
    cases hcon
  · intro _ hcon
    rw [hset] at hcon
    cases hcon

/-- The write at the head gets on. -/
theorem stage {j : Job} (h : SlotOf store epoch p o (j :: rest)) (st : Stage)
    (hst : ∀ c, st = .ran (some (.settle c)) → ∃ f err ref, j.kind = .settle f err ref ∧ ref ≠ []) :
    SlotOf store epoch p o ({ j with stage := st } :: rest) := by
  have hmem : ∀ (P : Job → Prop), (∀ i ∈ j :: rest, P i) → (P j → P { j with stage := st }) →
      ∀ i ∈ { j with stage := st } :: rest, P i := by
    intro P hq hj i hi
    rcases mem_cons.mp hi with rfl | hi
    · exact hj (hq j mem_cons_self)
    · exact hq i (.tail _ hi)
  refine ⟨hmem _ h.owner id, hmem _ h.epoch id, hmem _ h.kind id, h.tail, hmem _ h.captured id,
    hmem _ h.failed (fun _ => hst), fun hs => hmem _ (h.noStore hs) id, h.live, ?_,
    fun hs => hmem _ (h.idle hs) id, h.kept⟩
  intro hs
  obtain ⟨puts, last, hq, hlast, hputs⟩ := h.busy hs
  cases puts with
  | nil =>
    obtain ⟨rfl, rfl⟩ := List.cons.inj hq
    exact ⟨[], _, rfl, hlast, by simp⟩
  | cons a puts =>
    obtain ⟨rfl, rfl⟩ := List.cons.inj hq
    refine ⟨{ j with stage := st } :: puts, last, rfl, hlast, ?_⟩
    intro i hi
    rcases mem_cons.mp hi with rfl | hi
    · exact hputs j mem_cons_self
    · exact hputs i (.tail _ hi)

/-- A Put at the head is done. -/
theorem pop {j : Job} (h : SlotOf store epoch p o (j :: rest))
    (hj : isSettle j.kind = false) : SlotOf store epoch p o rest := by
  have hsub : ∀ i ∈ rest, i ∈ j :: rest := fun i hi => .tail _ hi
  refine ⟨fun i hi => h.owner i (hsub i hi), fun i hi => h.epoch i (hsub i hi),
    fun i hi => h.kind i (hsub i hi), fun i hi => h.tail i (mem_of_mem_tail hi),
    fun i hi => h.captured i (hsub i hi), fun i hi => h.failed i (hsub i hi),
    fun hs i hi => h.noStore hs i (hsub i hi), h.live, ?_, fun hs i hi => h.idle hs i (hsub i hi),
    h.kept⟩
  intro hs
  obtain ⟨puts, last, hq, hlast, hputs⟩ := h.busy hs
  cases puts with
  | nil =>
    obtain ⟨rfl, rfl⟩ := List.cons.inj hq
    rw [hj] at hlast
    cases hlast
  | cons a puts =>
    obtain ⟨rfl, rfl⟩ := List.cons.inj hq
    exact ⟨puts, last, rfl, hlast, fun i hi => hputs i (.tail _ hi)⟩

/-- A settle-and-delete at the head is alone. -/
theorem settle_alone {j : Job} (h : SlotOf store epoch p o (j :: rest))
    (hj : isSettle j.kind = true) : rest = [] ∧ o.settling = true ∧ o.finished = true := by
  have hset : o.settling = true := by
    by_contra hcon
    have := h.idle (by simpa using hcon) j mem_cons_self
    rw [hj] at this
    cases this
  have hfin : o.finished = true := by
    by_contra hcon
    have := (h.live (by simpa using hcon)).1
    rw [hset] at this
    cases this
  obtain ⟨puts, last, hq, hlast, hputs⟩ := h.busy hset
  cases puts with
  | nil =>
    obtain ⟨_, hrest⟩ := List.cons.inj hq
    exact ⟨hrest, hset, hfin⟩
  | cons a puts =>
    obtain ⟨rfl, rfl⟩ := List.cons.inj hq
    have := hputs j mem_cons_self
    rw [hj] at this
    cases this

end SlotOf

end Mqttv5.Analysis
