import Mqttv5.Analysis.Sequence

/-!
# Every step keeps the session

`Session` joins the invariant of the engine and the account of the sequence numbers. All steps
keep it, a new process over the store included, as long as `Restore` and `Discard` come when
they may: with no write in progress, and with no caller that holds an identifier or a
reservation of the table `Restore` is about to replace.
-/

set_option autoImplicit false

namespace Mqttv5.Analysis

open Mqttv5.Computation Model Program Interface FiniteMap

/-- `Restore` and `Discard` find nothing in progress; with `on` also no connection. -/
def AtRest (on : Prop) (s : Sys) : Event → Prop
  | .restore => s.eng.writes = 0 ∧ s.held = [] ∧ s.reserved = 0 ∧ (on → s.eng.gen = 0)
  | .discardLocked => s.eng.writes = 0 ∧ (on → s.eng.gen = 0)
  | _ => True

structure Session (on : Prop) (s : Sys) : Prop where
  core : Core on s
  known : ∃ who, Known s who

/-- INTERNAL: No number is taken at the start. -/
theorem known_init (cfg : Config) (max : ℕ) : Known (Sys.init cfg max) fun _ => none := by
  refine ⟨⟨?_, ?_, ?_⟩, ?_, ?_, ?_⟩
  · intro n m hn
    cases hn
  · intro id p hp
    rw [show (Sys.init cfg max).eng.out = ∅ from rfl, get_empty] at hp
    cases hp
  · intro k j hj
    cases hj
  · intro k r hr
    rw [show (Sys.init cfg max).store.records = ∅ from rfl, get_empty] at hr
    cases hr
  · intro k r hr
    rw [show (Sys.init cfg max).store.records = ∅ from rfl, get_empty] at hr
    cases hr
  · intro m recs hrecs
    cases hrecs

namespace Session

variable {on : Prop} {s t : Sys}

/-- INTERNAL: A new process without a store has a session. -/
theorem init (cfg : Config) {max : ℕ} (hmax : 0 < max) : Session True (Sys.init cfg max) :=
  ⟨core_init cfg max hmax, _, known_init cfg max⟩

/-- A weaker account of the connection. -/
theorem mono (h : Session on s) {on' : Prop} (hon : on' → on) : Session on' s :=
  ⟨h.core.mono hon, h.known⟩

section

variable {who : ℕ → Option Mark} (hc : Core on s) (hk : Known s who)
include hc hk

/-- Restore rebuilds the session from the records it has loaded. -/
theorem restore (ha : AtRest on s .restore) (hstep : s.step .restore = some t) :
    Core on t ∧ ∃ who', Known t who' ∧ Noted s .restore t who who' := by
  obtain ⟨hw, hheld, hreserved, hgen⟩ := ha
  cases (stepped hstep).2 with
  | restored m recs e hloaded he =>
    obtain ⟨hl, hplaces⟩ := hk.loaded m recs hloaded
    have hr := hc.restored hw hl he
    refine ⟨hc.rebuilt hw hr rfl ⟨hheld, hreserved⟩ ⟨rfl, rfl, rfl⟩ hgen, who, ⟨?_, hk.keys,
      hk.stored, ?_⟩, .same⟩
    · refine Known.rebuilt hr (hc.counted.idle hw).1 hplaces ?_
      intro n m hn
      obtain ⟨hlt, hrange⟩ := hk.traced.bound n m hn
      rw [hr.frame.2.2.2.2]
      exact ⟨hlt.trans_le hr.nextSeq, hrange⟩
    · intro _ _ hcon
      cases hcon
  | notRestored =>
    refine ⟨hc.of_eng rfl ⟨rfl, rfl⟩ ⟨rfl, rfl, rfl⟩, who, ⟨hk.traced, hk.keys, hk.stored, ?_⟩,
      .same⟩
    intro _ _ hcon
    cases hcon

/-- Discard leaves a session without flows. -/
theorem discard (ha : AtRest on s .discardLocked) (hstep : s.step .discardLocked = some t) :
    Core on t ∧ ∃ who', Known t who' ∧ Noted s .discardLocked t who who' := by
  obtain ⟨hw, hgen⟩ := ha
  cases (stepped hstep).2
  obtain ⟨hd, -⟩ := hc.discarded hw
  refine ⟨hc.discard hw hgen _, who, hk.of_traced (Grows.refl who) ?_ rfl rfl, .same⟩
  refine hk.traced.shrink hd.nextSeq.ge (congrArg Statics.max hd.statics) ?_ ?_
  · intro i q hq
    have hmem := (hd.ordered.mem q).mpr (hd.ordered.live_of_get hq)
    simp [SendQueue.listed, hd.drained.1, hd.drained.2] at hmem
  · intro k j hj r hr
    rw [hd.jobs.1] at hj
    exact .inl ⟨j, hj, hr⟩

/-- INTERNAL: **Every step keeps the session**, and takes the numbers it may. -/
theorem step_noted {a : Event} (ha : AtRest on s a) (hstep : s.step a = some t) :
    Core on t ∧ ∃ who', Known t who' ∧ Noted s a t who who' := by
  by_cases hrestore : a = .restore
  · subst hrestore
    exact restore hc hk ha hstep
  by_cases hdiscard : a = .discardLocked
  · subst hdiscard
    exact discard hc hk ha hstep
  by_cases hrestart : a = .restart
  · subst hrestart
    cases (stepped hstep).2
    rename_i hfresh
    exact ⟨(core_fresh hc.max_pos hk.loadable hfresh).mono fun _ => trivial,
      hk.fresh hc.max_pos hfresh⟩
  · have hplain : Plain a := ⟨hrestore, hdiscard, hrestart⟩
    exact ⟨hc.step hplain hstep, hk.change hc (hc.change hplain hstep)⟩

end

/-- INTERNAL: Every step keeps the session. -/
theorem step (h : Session on s) {a : Event} (ha : AtRest on s a) (hstep : s.step a = some t) :
    Session on t := by
  obtain ⟨who, hk⟩ := h.known
  obtain ⟨hc, who', hk', -⟩ := step_noted h.core hk ha hstep
  exact ⟨hc, who', hk'⟩

/-- INTERNAL: **The session through a run.** -/
theorem run {cfg : Config} {max : ℕ} (hmax : 0 < max) {ok : Sys → Event → Prop}
    (hok : ∀ s a, ok s a → AtRest on s a)
    (h : Reach Sys.step ok (· = Sys.init cfg max) s) : Session on s := by
  refine h.invariant (Session on) ?_ ?_
  · rintro s rfl
    exact (Session.init cfg hmax).mono fun _ => trivial
  · intro s a t hs ha hstep
    exact hs.step (hok s a ha) hstep

end Session

/-- INTERNAL: Only `Restore` and `Discard` have to wait. -/
theorem atRest_of_plain {on : Prop} {s : Sys} {a : Event} (h : a ≠ .restore ∧ a ≠ .discardLocked) :
    AtRest on s a := by
  cases a with
  | restore => exact absurd rfl h.1
  | discardLocked => exact absurd rfl h.2
  | _ => trivial

/-- A list of events without a `Restore` or a `Discard` is a run at rest. -/
theorem reach_of_execute {on : Prop} {init s t : Sys} {as : List Event}
    (hs : Reach Sys.step (AtRest on) (· = init) s)
    (hplain : ∀ a ∈ as, a ≠ .restore ∧ a ≠ .discardLocked)
    (ht : execute Sys.step s as = some t) : Reach Sys.step (AtRest on) (· = init) t := by
  induction as generalizing s with
  | nil =>
    cases ht
    exact hs
  | cons a rest ih =>
    obtain ⟨u, hu, hrest⟩ := Option.bind_eq_some_iff.mp ht
    have ha : AtRest on s a := atRest_of_plain (hplain a List.mem_cons_self)
    exact ih (.next a hs ha hu) (fun b hb => hplain b (.tail _ hb)) hrest

end Mqttv5.Analysis
