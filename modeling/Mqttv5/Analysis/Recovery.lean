import Mqttv5.Analysis.Restore

/-!
# Sessions that are replaced

`Restore`, a new process and `Discard` replace the session as a whole. Each establishes the
invariant of the engine anew, as long as no store write is in progress and, for `Restore`, no
caller is between its parts.
-/

set_option autoImplicit false

namespace Mqttv5.Analysis

open Mqttv5.Computation Model Program Interface List FiniteMap

variable {recs : List Record}

/-- What `Restore` makes of an engine that is at rest. -/
structure Rebuilt (e e' : Engine) (recs : List Record) : Prop where
  owners : ∃ own, Owners e' [] 0 own
  healthy : e'.failure = none
  steady : (sendQueue e').Steady
  inbox : (inbox e').Sound
  jobs : e'.queues = e.queues ∧ e'.writes = e.writes
  frame : e'.gen = e.gen ∧ e'.quotaMax = e.quotaMax ∧ e'.cfg = e.cfg ∧ e'.epoch = e.epoch ∧
    e'.ids.max = e.ids.max
  nextSeq : e.nextSeq ≤ e'.nextSeq
  flows : ∀ p, (sendQueue e').Live p → ∃ r ∈ recs, Continues r ∧ e'.outs p = restoredOut r
  known : ∀ r ∈ recs, Continues r → 1 ≤ r.key.packetID ∧ r.key.packetID ≤ e'.ids.max →
    r.seq < e'.nextSeq ∧ (r.phase = .awaitPubcomp → r.pubrecSeq < e'.nextSeq)

/-- INTERNAL: **Restore rebuilds a session** from records as the store loads them. -/
theorem restoreLocked_rebuilt {e e' : Engine} {m : Meta}
    (hidle : ∀ k, e.queues k = []) (hrun : e.stuck = false) (hmax : 0 < e.ids.max)
    (hq : (sendQueue e).Steady) (hin : (Analysis.inbox e).Sound) (hl : Loadable recs)
    (h : restoreLocked e m recs = some e') : Rebuilt e e' recs := by
  obtain ⟨⟨sorted, hothers⟩, hseq⟩ := restoreLocked_frame h
  obtain ⟨hout, hinn, d, rel, hloop, -, rfl⟩ := restoreLocked_some h
  have hbuild : Rebuilding recs d rel := by
    have hfold := (rebuilding_start m hidle hrun hmax hout hinn hq hin).foldl
      (show Loadable ([] ++ recs) from hl)
    rw [hloop] at hfold
    exact hfold
  obtain ⟨own, hown⟩ := hbuild.owners
  have hmax' := congrArg (fun x : Engine => x.ids.max) hothers
  have hqueues := congrArg Engine.queues hothers
  have hwrites := congrArg Engine.writes hothers
  have hgen := congrArg Engine.gen hothers
  have hquota := congrArg Engine.quotaMax hothers
  have hcfg := congrArg Engine.cfg hothers
  have hepoch := congrArg Engine.epoch hothers
  refine ⟨⟨own, hown.congr rfl rfl ⟨rfl, rfl, rfl⟩ rfl (fun _ => ⟨rfl, rfl, rfl, rfl, rfl, rfl⟩)
    (fun _ => rfl) (fun _ _ hi => hi) fun _ _ hr => hr⟩, hbuild.healthy, hbuild.close hl,
    hbuild.inbox, ⟨hqueues, hwrites⟩, ⟨hgen, hquota, hcfg, hepoch, hmax'⟩, hseq, hbuild.flows,
    hbuild.known⟩

namespace Core

variable {on : Prop} {s t : Sys}

section

variable (h : Core on s)
include h

/-- A weaker account of the connection. -/
theorem mono {on' : Prop} (hon : on' → on) : Core on' s :=
  ⟨⟨h.send.steady, fun ho => h.send.metered (hon ho), fun ho => h.send.within (hon ho),
    fun ho => h.send.walked (hon ho), fun ho => h.send.sent (hon ho)⟩, h.owners, h.inbox, h.jobs,
    h.counted, h.dead⟩

/-- A rebuilt session; the account of a connection it is rebuilt under is lost. -/
theorem rebuilt {e : Engine} (hw : s.eng.writes = 0)
    (hr : Rebuilt s.eng e recs) (ht : t.eng = e) (hcallers : t.held = [] ∧ t.reserved = 0)
    (hmon : t.outstanding = s.outstanding ∧ t.sent = s.sent ∧ t.reporting = s.reporting)
    (hon : on → s.eng.gen = 0) : Core on t := by
  obtain ⟨hheld, hreserved⟩ := hcallers
  obtain ⟨hout, hsent, hreporting⟩ := hmon
  obtain ⟨hgen, hquota, -⟩ := hr.frame
  have hgen0 : on → t.eng.gen = 0 := fun ho => by rw [ht, hgen]; exact hon ho
  obtain ⟨hidle, hzero⟩ := h.counted.idle hw
  refine ⟨⟨?_, ?_, ?_, ?_, ?_⟩, ?_, ?_, ?_, ?_, ?_⟩
  · rw [ht]
    exact hr.steady
  · intro ho _ hg
    exact absurd (hgen0 ho) hg
  · intro ho
    rw [ht, hquota, hout]
    exact h.send.within ho
  · intro ho hg
    exact absurd (hgen0 ho) hg
  · intro ho
    rw [hout, hsent]
    exact h.send.sent ho
  · rw [ht, hheld, hreserved]
    exact hr.owners
  · rw [ht]
    exact hr.inbox
  · rw [ht]
    apply jobInv_of_idle
    intro k
    rw [hr.jobs.1]
    exact hidle k
  · rw [ht, hreporting]
    exact h.counted.congr hr.jobs.1 hr.jobs.2
  · intro hf
    rw [ht] at hf
    exact absurd hr.healthy hf

/-- The table of a session has identifiers. -/
theorem max_pos : 0 < s.eng.ids.max := by
  obtain ⟨own, hown⟩ := h.owners
  have hnext := hown.table.next
  omega

/-- The engine is not stuck. -/
theorem running : s.eng.stuck = false := by
  obtain ⟨own, hown⟩ := h.owners
  exact hown.running

/-- A Restore with no write and no caller in progress. -/
theorem restored {e : Engine} {m : Meta}
    (hw : s.eng.writes = 0) (hl : Loadable recs) (hr : restoreLocked s.eng m recs = some e) :
    Rebuilt s.eng e recs :=
  restoreLocked_rebuilt (h.counted.idle hw).1 h.running h.max_pos h.send.steady h.inbox hl hr

end

end Core

/-- A new process rebuilds the session of an earlier one. -/
theorem fresh_rebuilt {cfg : Config} {max : ℕ} {store : MemoryStore} {t : Sys} (hmax : 0 < max)
    (hl : Loadable store.load.2) (ht : Sys.fresh cfg max store = some t) :
    Rebuilt (new cfg max) t.eng store.load.2 ∧ t = { eng := t.eng, store := store } := by
  obtain ⟨e, he, rfl⟩ := Option.map_eq_some_iff.mp ht
  exact ⟨(core_init cfg max hmax).restored rfl hl he, rfl⟩

/-- A new process starts with the invariant. -/
theorem core_fresh {cfg : Config} {max : ℕ} {store : MemoryStore} {t : Sys} (hmax : 0 < max)
    (hl : Loadable store.load.2) (ht : Sys.fresh cfg max store = some t) : Core True t := by
  obtain ⟨hr, heq⟩ := fresh_rebuilt hmax hl ht
  rw [heq]
  exact (core_init cfg max hmax).rebuilt rfl hr rfl ⟨rfl, rfl⟩ ⟨rfl, rfl, rfl⟩ fun _ => rfl

/-! ### Discard -/

/-- A flow completed `n` times by `Discard`. -/
def discardedFlow (n : ℕ) (o : Out) : Out :=
  { o with finished := true, err := some .sessionLost, done := o.done + n }

/-- The Settle of a flow, if it has one. -/
def settleOf (outs : OutPtr → Out) (p : OutPtr) : List (OutPtr × SettleFn) :=
  ((outs p).settle.map fun f => (p, f)).toList

theorem mem_settleOf {outs : OutPtr → Out} {p : OutPtr} {x : OutPtr × SettleFn}
    (hx : x ∈ settleOf outs p) : x.1 = p := by
  simp only [settleOf, Option.mem_toList, Option.map_eq_some_iff] at hx
  obtain ⟨f, -, rfl⟩ := hx
  rfl

theorem foldl_discardFlow (l : List OutPtr) (e : Engine) (calls : List (OutPtr × SettleFn)) :
    ∃ ids stuck out refs, l.foldl discardFlow (e, calls) = ({ e with
      ids := ids
      stuck := stuck
      out := out
      refs := refs
      outs := fun q => if q ∈ l then discardedFlow (l.count q) (e.outs q) else e.outs q },
      calls ++ l.flatMap (settleOf e.outs)) := by
  induction l generalizing e calls with
  | nil => exact ⟨e.ids, e.stuck, e.out, e.refs, by simp⟩
  | cons p rest ih =>
    have hone : ∃ ids stuck out refs, discardFlow (e, calls) p = ({ e with
        ids := ids
        stuck := stuck
        out := out
        refs := refs
        outs := Function.update e.outs p (discardedFlow 1 (e.outs p)) },
        calls ++ settleOf e.outs p) := by
      obtain ⟨ids, stuck, hrel⟩ := releaseLocked_eq (finishLocked e p (some .sessionLost))
        ((finishLocked e p (some .sessionLost)).outs p).id .publish
      unfold discardFlow
      simp only [hrel]
      unfold finishLocked settleOf
      simp only
      split
      · exact ⟨ids, stuck, e.out.del (e.outs p).id, e.refs.del (e.outs p).ref, by
          simp [setOut, discardedFlow]⟩
      · exact ⟨ids, stuck, e.out.del (e.outs p).id, e.refs, by simp [setOut, discardedFlow]⟩
    obtain ⟨ids, stuck, out, refs, hone⟩ := hone
    obtain ⟨ids', stuck', out', refs', hrest⟩ := ih { e with
      ids := ids
      stuck := stuck
      out := out
      refs := refs
      outs := Function.update e.outs p (discardedFlow 1 (e.outs p)) } (calls ++ settleOf e.outs p)
    have hsettle : settleOf (Function.update e.outs p (discardedFlow 1 (e.outs p))) =
        settleOf e.outs := by
      funext q
      by_cases hq : q = p
      · subst hq
        simp [settleOf, discardedFlow]
      · simp [settleOf, hq]
    refine ⟨ids', stuck', out', refs', ?_⟩
    rw [foldl_cons, hone, hrest]
    simp only [hsettle, flatMap_cons, append_assoc]
    congr 2
    funext q
    by_cases hq : q = p
    · subst hq
      by_cases hmem : q ∈ rest
      · simp [hmem, discardedFlow, Nat.add_assoc, Nat.add_comm]
      · simp [hmem, count_eq_zero_of_not_mem hmem]
    · simp [hq, Ne.symm hq]

theorem foldl_discardOrphan (l : List (Bytes × OutPtr)) (e : Engine)
    (calls : List (OutPtr × SettleFn)) : ∃ ids stuck orphans, l.foldl discardOrphan (e, calls) =
      ({ e with ids := ids, stuck := stuck, orphans := orphans },
        calls ++ l.flatMap fun x => settleOf e.outs x.2) := by
  induction l generalizing e calls with
  | nil => exact ⟨e.ids, e.stuck, e.orphans, by simp⟩
  | cons x rest ih =>
    obtain ⟨ids, stuck, hrel⟩ := releaseLocked_eq e (e.outs x.2).id .publish
    obtain ⟨ids', stuck', orphans, hrest⟩ := ih { e with
      ids := ids, stuck := stuck, orphans := e.orphans.del x.1 } (calls ++ settleOf e.outs x.2)
    refine ⟨ids', stuck', orphans, ?_⟩
    rw [foldl_cons, flatMap_cons, ← append_assoc, ← hrest]
    unfold discardOrphan
    simp only [hrel]
    rfl

/-- INTERNAL: **The end of a session by `Discard`**, field by field, and the Settles it calls. -/
theorem discardLocked_eq (e : Engine) : ∃ ids stuck out refs orphans, discardLocked e = ({ e with
      ids := ids
      stuck := stuck
      ins := fun h => if h ∈ e.inn.vals then { e.ins h with dead := true } else e.ins h
      inn := ∅
      fifo := []
      ctrl := []
      outs := fun q => if q ∈ e.pub ++ e.rel then
          discardedFlow ((e.pub ++ e.rel).count q) (e.outs q)
        else e.outs q
      pub := []
      rel := []
      out := out
      refs := refs
      orphans := orphans
      cursor := none
      metaData := {} },
      (sortByPubSeq e (e.pub ++ e.rel)).flatMap (settleOf e.outs) ++
        e.orphans.toList.flatMap fun x => settleOf e.outs x.2) := by
  have hperm : (sortByPubSeq e (e.pub ++ e.rel)).Perm (e.pub ++ e.rel) :=
    perm_insertionSort _ _
  obtain ⟨d, hd⟩ : ∃ d, ({ e with
      ins := fun h => if h ∈ e.inn.vals then { e.ins h with dead := true } else e.ins h
      inn := ∅, fifo := [], ctrl := [], pub := [], rel := [] } : Engine) = d := ⟨_, rfl⟩
  have hstart : drainFlowsLocked (clearIn (e.inn.vals.foldl killIn e)) =
      (d, sortByPubSeq e (e.pub ++ e.rel)) := by
    rw [foldl_killIn, ← hd]
    rfl
  unfold discardLocked
  simp only [hstart]
  generalize sortByPubSeq e (e.pub ++ e.rel) = flows at hperm ⊢
  have houts : (fun q => if q ∈ flows then discardedFlow (flows.count q) (e.outs q) else e.outs q)
      = fun q => if q ∈ e.pub ++ e.rel then discardedFlow ((e.pub ++ e.rel).count q) (e.outs q)
        else e.outs q := by
    funext q
    simp only [hperm.count_eq, hperm.mem_iff]
  have hsettle : settleOf (fun q => if q ∈ flows then discardedFlow (flows.count q) (e.outs q)
      else e.outs q) = settleOf e.outs := by
    funext q
    by_cases hq : q ∈ flows
    · simp only [settleOf, if_pos hq, discardedFlow]
    · simp only [settleOf, if_neg hq]
  obtain ⟨ids, stuck, out, refs, hflows⟩ := foldl_discardFlow flows d []
  obtain ⟨ids', stuck', orphans, horphans⟩ := foldl_discardOrphan
    (flows.foldl discardFlow (d, [])).1.orphans.toList (flows.foldl discardFlow (d, [])).1
    (flows.foldl discardFlow (d, [])).2
  refine ⟨ids', stuck', out, refs, orphans, ?_⟩
  rw [Prod.mk.eta] at horphans
  rw [horphans, hflows, ← hd]
  simp only [houts, nil_append] at hsettle ⊢
  rw [hsettle]

/-- What holds while `Discard` ends the flows `flows` of the session of `s`. -/
structure Discarding (s : Sys) (e : Engine) (flows : List OutPtr) : Prop where
  ordered : (sendQueue e).Ordered flows
  drained : e.pub = [] ∧ e.rel = []
  statics : statics e = statics s.eng
  quota : e.quotaMax = s.eng.quotaMax
  inbox : inbox e = (inbox s.eng).clear
  jobs : e.queues = s.eng.queues ∧ e.writes = s.eng.writes
  nextSeq : e.nextSeq = s.eng.nextSeq

namespace Discarding

variable {s : Sys} {e : Engine} {flows : List OutPtr} {p : OutPtr}

/-- A release is seen in the identifier table only. -/
theorem release (h : Discarding s e flows) (id : PacketID) (o : Owner) :
    Discarding s (releaseLocked e id o) flows := by
  have hstat := (Acts.releaseLocked e id o).statics
  obtain ⟨ids, stuck, heq⟩ := releaseLocked_eq e id o
  rw [heq] at hstat ⊢
  exact ⟨h.ordered, h.drained, hstat.trans h.statics, h.quota, h.inbox, h.jobs, h.nextSeq⟩

/-- One flow is ended and gives its identifier up. -/
theorem flow (h : Discarding s e (p :: flows)) (hidle : ∀ k, s.eng.queues k = [])
    (howners : ∃ own, Owners e s.held s.reserved own) (l : List (OutPtr × SettleFn)) :
    Discarding s (discardFlow (e, l) p).1 flows ∧
    ∃ own, Owners (discardFlow (e, l) p).1 s.held s.reserved own := by
  obtain ⟨own, hown⟩ := howners
  have hlive : (sendQueue e).Live p := (h.ordered.mem p).mp (by simp [SendQueue.listed])
  have hget : e.out.get (e.outs p).id = some p := (h.ordered.get _ p).mpr ⟨hlive, rfl⟩
  have ht := Touches.finishLocked e p (e.outs p).id (some .sessionLost)
  generalize hd : finishLocked e p (some .sessionLost) = d at ht
  have hq : sendQueue d = (sendQueue e).close p := by
    rw [← hd]
    exact sendQueue_finishLocked e p _
  have hin : inside d = inside e := by
    rw [← hd]
    exact (Acts.finishLocked e p _).inside
  have hsame : d.queues = e.queues ∧ d.writes = e.writes ∧ d.orphans = e.orphans ∧
      d.pub = e.pub ∧ d.rel = e.rel ∧ d.nextSeq = e.nextSeq ∧ d.quotaMax = e.quotaMax := by
    rw [← hd]
    unfold finishLocked
    simp only
    split
    · exact ⟨rfl, rfl, rfl, rfl, rfl, rfl, rfl⟩
    · exact ⟨rfl, rfl, rfl, rfl, rfl, rfl, rfl⟩
  obtain ⟨hqueues, hwrites, horphans, hpub, hrel, hseq, hquota⟩ := hsame
  have hout : d.out.get (e.outs p).id = none := by
    have hdel : d.out = e.out.del (e.outs p).id := congrArg SendQueue.out hq
    rw [hdel, get_del, if_pos rfl]
  have hstep : (discardFlow (e, l) p).1 = releaseLocked d (e.outs p).id .publish := by
    unfold discardFlow
    simp only [hd, ht.id_eq]
  rw [hstep]
  refine ⟨release ⟨?_, ⟨hpub.trans h.drained.1, hrel.trans h.drained.2⟩,
    ht.statics.trans h.statics, hquota.trans h.quota, (congrArg Inside.box hin).trans h.inbox,
    ⟨hqueues.trans h.jobs.1, hwrites.trans h.jobs.2⟩, hseq.trans h.nextSeq⟩ _ _, _,
    hown.release (hown.live _ p hget) ht ?_ hout ?_⟩
  · rw [hq]
    exact h.ordered.close
  · rw [hqueues, h.jobs.1]
    exact hidle _
  · intro r hr
    rw [horphans] at hr
    have hfin := (hown.orphan r p hr).2.1
    have hnot : (e.outs p).finished = false := hlive.2
    rw [hnot] at hfin
    cases hfin

/-- All the flows. -/
theorem foldl_flow {l : List (OutPtr × SettleFn)} (h : Discarding s e flows)
    (hidle : ∀ k, s.eng.queues k = []) (howners : ∃ own, Owners e s.held s.reserved own) :
    Discarding s (flows.foldl discardFlow (e, l)).1 [] ∧
    ∃ own, Owners (flows.foldl discardFlow (e, l)).1 s.held s.reserved own := by
  induction flows generalizing e l with
  | nil => exact ⟨h, howners⟩
  | cons p flows ih =>
    obtain ⟨hone, hones⟩ := h.flow hidle howners l
    exact ih hone hones

/-- One orphan is dropped and gives its identifier up. -/
theorem orphan (h : Discarding s e []) (hidle : ∀ k, s.eng.queues k = [])
    (howners : ∃ own, Owners e s.held s.reserved own) {x : Bytes × OutPtr}
    (hx : e.orphans.get x.1 = some x.2) (l : List (OutPtr × SettleFn)) :
    Discarding s (discardOrphan (e, l) x).1 [] ∧
    (∃ own, Owners (discardOrphan (e, l) x).1 s.held s.reserved own) ∧
    (discardOrphan (e, l) x).1.orphans = e.orphans.del x.1 := by
  obtain ⟨own, hown⟩ := howners
  obtain ⟨hmine, hfin, href, -⟩ := hown.orphan x.1 x.2 hx
  have hstep : (discardOrphan (e, l) x).1 = releaseLocked { e with orphans := e.orphans.del x.1 }
      (e.outs x.2).id .publish := by
    unfold discardOrphan releaseLocked
    simp only
    split
    · rfl
    · rfl
  rw [hstep]
  have hdrop : Discarding s { e with orphans := e.orphans.del x.1 } [] :=
    ⟨h.ordered, h.drained, h.statics, h.quota, h.inbox, h.jobs, h.nextSeq⟩
  refine ⟨hdrop.release _ _,
    ⟨_, hown.release hmine (Touches.delOrphan e x.2 _ x.1) ?_ ?_ ?_⟩, ?_⟩
  · show e.queues _ = []
    rw [h.jobs.1]
    exact hidle _
  · show e.out.get (e.outs x.2).id = none
    cases hget : e.out.get (e.outs x.2).id with
    | none => rfl
    | some q =>
      have hq := hown.live _ q hget
      rw [hmine] at hq
      have hlive := ((h.ordered.get _ q).mp hget).1.2
      have hlive : (e.outs q).finished = false := hlive
      rw [← Option.some.inj hq, hfin] at hlive
      cases hlive
  · intro r hr
    rw [get_del] at hr
    split at hr
    · cases hr
    · rename_i hne
      exact hne ((hown.orphan r x.2 hr).2.2.1.symm.trans href)
  · obtain ⟨ids, stuck, heq⟩ := releaseLocked_eq { e with orphans := e.orphans.del x.1 }
      (e.outs x.2).id .publish
    rw [heq]

/-- All the orphans. -/
theorem foldl_orphan {todo : List (Bytes × OutPtr)} {l : List (OutPtr × SettleFn)}
    (h : Discarding s e []) (hidle : ∀ k, s.eng.queues k = [])
    (howners : ∃ own, Owners e s.held s.reserved own)
    (hget : ∀ x ∈ todo, e.orphans.get x.1 = some x.2) (hnodup : (todo.map Prod.fst).Nodup)
    (hall : ∀ r, e.orphans.get r ≠ none → r ∈ todo.map Prod.fst) :
    Discarding s (todo.foldl discardOrphan (e, l)).1 [] ∧
    (∃ own, Owners (todo.foldl discardOrphan (e, l)).1 s.held s.reserved own) ∧
    ∀ r, (todo.foldl discardOrphan (e, l)).1.orphans.get r = none := by
  induction todo generalizing e l with
  | nil =>
    refine ⟨h, howners, ?_⟩
    intro r
    by_contra hcon
    cases hall r hcon
  | cons x todo ih =>
    obtain ⟨hone, hones, hdel⟩ := h.orphan hidle howners (hget x mem_cons_self) l
    rw [map_cons, nodup_cons] at hnodup
    apply ih hone hones
    · intro y hy
      have hne : y.1 ≠ x.1 := fun heq => hnodup.1 (heq ▸ mem_map_of_mem hy)
      rw [hdel, get_del, if_neg hne]
      exact hget y (.tail _ hy)
    · exact hnodup.2
    · intro r hr
      rw [hdel, get_del] at hr
      split at hr
      · exact absurd rfl hr
      · rename_i hne
        rcases mem_cons.mp (hall r hr) with heq | hmem
        · exact absurd heq hne
        · exact hmem

end Discarding

/-- INTERNAL: **Discard** with no write in progress leaves an empty session. -/
theorem Core.discarded {on : Prop} {s : Sys} (h : Core on s) (hw : s.eng.writes = 0) :
    Discarding s (discardLocked s.eng).1 [] ∧
    (∃ own, Owners (discardLocked s.eng).1 s.held s.reserved own) ∧
    (∀ r, (discardLocked s.eng).1.orphans.get r = none) ∧
    (discardLocked s.eng).1.cursor = none := by
  have hidle := (h.counted.idle hw).1
  obtain ⟨own, hown⟩ := h.owners
  -- The session with its inbound half dropped and its lists drained.
  generalize hd : (drainFlowsLocked (clearIn (s.eng.inn.vals.foldl killIn s.eng))).1 = d
  generalize hflows : (drainFlowsLocked (clearIn (s.eng.inn.vals.foldl killIn s.eng))).2 = flows
  have hstart : Discarding s d flows ∧ ∃ own, Owners d s.held s.reserved own := by
    rw [foldl_killIn] at hd hflows
    subst hd hflows
    refine ⟨⟨?_, ⟨rfl, rfl⟩, rfl, rfl, rfl, ⟨rfl, rfl⟩, rfl⟩, own, hown.congr rfl rfl
      ⟨rfl, rfl, rfl⟩ rfl (fun _ => ⟨rfl, rfl, rfl, rfl, rfl, rfl⟩) (fun _ => rfl)
      (fun _ _ hi => hi) fun _ _ hr => hr⟩
    exact h.ordered.drain (perm_insertionSort _ _)
  obtain ⟨hloop, hloops⟩ := hstart.1.foldl_flow (l := []) hidle hstart.2
  generalize hst : flows.foldl discardFlow (d, []) = st at hloop hloops
  obtain ⟨hdone, howners, hnone⟩ := hloop.foldl_orphan (l := st.2) hidle hloops
    (fun x (hx : x ∈ st.1.orphans.toList) => (mem_toList _ _ _).mp hx)
    (nodup_keys _)
    (fun r hr => by
      obtain ⟨q, hq⟩ := Option.ne_none_iff_exists'.mp hr
      exact mem_map.mpr ⟨(r, q), (mem_toList _ _ _).mpr hq, rfl⟩)
  have heq : (discardLocked s.eng).1 = { (st.1.orphans.toList.foldl discardOrphan st).1 with
      cursor := none
      metaData := {} } := by
    unfold discardLocked
    simp only [hd, hflows, hst]
  rw [heq]
  obtain ⟨own', hown'⟩ := howners
  refine ⟨⟨?_, hdone.drained, hdone.statics, hdone.quota, hdone.inbox, hdone.jobs,
    hdone.nextSeq⟩, ⟨own', hown'.congr rfl rfl ⟨rfl, rfl, rfl⟩ rfl
      (fun _ => ⟨rfl, rfl, rfl, rfl, rfl, rfl⟩) (fun _ => rfl) (fun _ _ hi => hi)
      fun _ _ hr => hr⟩, hnone, rfl⟩
  exact hdone.ordered.congr rfl rfl (fun _ => rfl) rfl rfl (fun _ _ hr => hr)
    fun _ => ⟨rfl, rfl, rfl, rfl, rfl, rfl⟩

/-- Discard before a connection. -/
theorem Core.discard {on : Prop} {s : Sys} (h : Core on s) (hw : s.eng.writes = 0)
    (hon : on → s.eng.gen = 0) (stage : Option DiscardStage) :
    Core on { s with eng := (discardLocked s.eng).1, discarding := stage } := by
  obtain ⟨hd, howners, horphans, hcursor⟩ := h.discarded hw
  have hidle := (h.counted.idle hw).1
  have hgen : (discardLocked s.eng).1.gen = s.eng.gen := same_gen hd.statics
  have hfail : (discardLocked s.eng).1.failure = s.eng.failure :=
    same_failure hd.statics
  refine ⟨⟨SendQueue.Steady.of_empty hd.ordered hd.drained.1 hcursor, ?_, ?_, ?_,
    h.send.sent⟩, howners, ?_, ?_, h.counted.congr hd.jobs.1 hd.jobs.2, ?_⟩
  · intro ho _ hg
    exact absurd (hgen.trans (hon ho)) hg
  · intro ho
    show _ ≤ (discardLocked s.eng).1.quotaMax
    rw [hd.quota]
    exact h.send.within ho
  · intro ho hg
    exact absurd (hgen.trans (hon ho)) hg
  · show (Analysis.inbox (discardLocked s.eng).1).Sound
    rw [hd.inbox]
    exact h.inbox.clear
  · apply jobInv_of_idle
    intro k
    show (discardLocked s.eng).1.queues k = []
    rw [hd.jobs.1]
    exact hidle k
  · intro hf
    have hdead := h.dead (by rw [← hfail]; exact hf)
    show Dead (discardLocked s.eng).1
    unfold discardLocked drainFlowsLocked
    simp only [foldl_killIn, clearIn, hdead.pub, hdead.rel, hdead.orphans, append_nil]
    exact ⟨hdead.out, hdead.refs, rfl, rfl, rfl, rfl, rfl, rfl, rfl⟩

end Mqttv5.Analysis
