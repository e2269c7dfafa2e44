import Mqttv5.Analysis.SettleSteps

/-!
# Who finds a Ref

The flow an Adopt finds under a Ref: a live flow is in `refs`, an ended one whose record is not
deleted yet in `orphans`. A flow that was found is found until the write that deletes its record
has completed, as long as every Register brings a Ref that is not in use.
-/

set_option autoImplicit false

namespace Mqttv5.Analysis

open Mqttv5.Computation Model Program Interface List FiniteMap
open Function (update_of_ne update_self)

/-- Every flow with a Ref that holds its identifier is found under it. -/
structure Findable (e : Engine) : Prop where
  live : ∀ id p, e.out.get id = some p → (e.outs p).ref ≠ [] → e.refs.get (e.outs p).ref = some p
  refs : ∀ r p, e.refs.get r = some p → (e.outs p).ref = r ∧ r ≠ []
  apart : ∀ r p, e.orphans.get r = some p → e.refs.get r = none
  kept : ∀ id, ∀ j ∈ e.queues (outKey id), ∀ p, j.owner = .out p → (e.outs p).finished = true →
    (e.outs p).ref ≠ [] → e.orphans.get (e.outs p).ref = some p

/-- What was found is found under the same Ref. -/
def Keeps (e e' : Engine) : Prop := ∀ r p, adoptee e r = some p → adoptee e' r = some p

theorem Keeps.refl (e : Engine) : Keeps e e := fun _ _ h => h

theorem Keeps.trans {a b c : Engine} (h : Keeps a b) (h' : Keeps b c) : Keeps a c :=
  fun r p hr => h' r p (h r p hr)

theorem Keeps.of_eq {e e' : Engine} (hrefs : e'.refs = e.refs) (horph : e'.orphans = e.orphans) :
    Keeps e e' := by
  intro r p hr
  unfold adoptee at hr ⊢
  rw [hrefs, horph]
  exact hr

theorem adoptee_iff {e : Engine} {r : Bytes} {p : OutPtr} : adoptee e r = some p ↔
    e.refs.get r = some p ∨ e.refs.get r = none ∧ e.orphans.get r = some p := by
  unfold adoptee
  cases e.refs.get r with
  | none => simp
  | some q => simp

theorem adoptee_none {e : Engine} {r : Bytes} :
    adoptee e r = none ↔ e.refs.get r = none ∧ e.orphans.get r = none := by
  unfold adoptee
  cases e.refs.get r with
  | none => simp
  | some q => simp

namespace Findable

variable {e e' : Engine}

/-- A step that changes no map, and adds no write for a flow that has none. -/
theorem congr (h : Findable e) (hout : e'.out = e.out) (hrefs : e'.refs = e.refs)
    (horph : e'.orphans = e.orphans)
    (houts : ∀ q, (e'.outs q).finished = (e.outs q).finished ∧ (e'.outs q).ref = (e.outs q).ref)
    (hjobs : ∀ id, ∀ j' ∈ e'.queues (outKey id), ∀ p, j'.owner = .out p →
      (∃ j ∈ e.queues (outKey id), j.owner = .out p) ∨ e.orphans.get (e.outs p).ref = some p ∨
        (e.outs p).finished = false) : Findable e' := by
  refine ⟨?_, ?_, ?_, ?_⟩
  · intro id p hp hne
    rw [(houts p).2] at hne ⊢
    rw [hout] at hp
    rw [hrefs]
    exact h.live id p hp hne
  · intro r p hr
    rw [hrefs] at hr
    rw [(houts p).2]
    exact h.refs r p hr
  · intro r p hr
    rw [horph] at hr
    rw [hrefs]
    exact h.apart r p hr
  · intro id j' hj' p howner hfin hne
    rw [(houts p).1] at hfin
    rw [(houts p).2] at hne ⊢
    rw [horph]
    rcases hjobs id j' hj' p howner with ⟨j, hj, hjp⟩ | hget | hlive
    · exact h.kept id j hj p hjp hfin hne
    · exact hget
    · rw [hlive] at hfin
      cases hfin

theorem quiet (h : Findable e) (hq : Quiet e e') : Findable e' := by
  refine h.congr hq.out hq.refs hq.orphans (fun q => ⟨(hq.outs q).finished, (hq.outs q).ref⟩) ?_
  intro id j hj p hjp
  rw [hq.queues] at hj
  exact .inl ⟨j, hj, hjp⟩

/-- A flow under a Ref is the only one. -/
theorem ref_ne {held : List (PacketID × Owner)} {reserved : ℕ} {own : PacketID → Option OutPtr}
    (h : Findable e) (hown : Owners e held reserved own) {p q : OutPtr} {id : PacketID}
    (hp : e.out.get id = some p) (hne : (e.outs p).ref ≠ [])
    (hq : (∃ i, e.out.get i = some q) ∨ ∃ r, e.orphans.get r = some q) (hqp : q ≠ p) :
    (e.outs q).ref ≠ (e.outs p).ref := by
  intro heq
  have hget := h.live id p hp hne
  rcases hq with ⟨i, hi⟩ | ⟨r, hr⟩
  · have hq' := h.live i q hi (by rw [heq]; exact hne)
    rw [heq, hget] at hq'
    exact hqp (Option.some.inj hq').symm
  · have href := (hown.orphan r q hr).2.2.1
    have hnone := h.apart r q hr
    rw [← href, heq, hget] at hnone
    cases hnone

end Findable

section Flows

variable {held : List (PacketID × Owner)} {reserved : ℕ} {own : PacketID → Option OutPtr}
  {e d : Engine} {p : OutPtr} {id : PacketID}

/-- The maps after the end of a flow. -/
theorem retireLocked_maps (d : Engine) (p : OutPtr) :
    (retireLocked d p).out = d.out ∧ (retireLocked d p).refs = d.refs ∧
    (retireLocked d p).orphans =
      (if (d.outs p).ref ≠ [] then d.orphans.set (d.outs p).ref p else d.orphans) := by
  have horphaned : (orphaned d p).orphans =
      (if (d.outs p).ref ≠ [] then d.orphans.set (d.outs p).ref p else d.orphans) := by
    unfold orphaned
    split
    · rfl
    · rfl
  obtain ⟨hkout, hkrefs, -⟩ := orphaned_keeps d p
  rcases retireLocked_cases d p with ⟨-, -, heq⟩ | ⟨href, -, -, heq⟩ | ⟨-, heq⟩
  · obtain ⟨-, -, -, -, hout, hrefs, horph, -⟩ := completeLocked_keeps (orphaned d p) p
    rw [heq, hout, hrefs, horph, hkout, hkrefs, horphaned]
    exact ⟨rfl, rfl, rfl⟩
  · obtain ⟨ids, stuck, hrel⟩ := releaseLocked_eq d (d.outs p).id .publish
    rw [heq, hrel]
    exact ⟨rfl, rfl, (if_neg (by simp [href])).symm⟩
  · obtain ⟨hout, hrefs, horph, -⟩ := settleLocked_keeps (orphaned d p) p
    rw [heq, hout, hrefs, horph, hkout, hkrefs, horphaned]
    exact ⟨rfl, rfl, rfl⟩

/-- The end of a flow changes its own state and its own writes only. -/
theorem retireLocked_frame (hl : LiveFlow e p id) (hd : Ended e d p id) :
    (∀ q, q ≠ p → (retireLocked d p).outs q = e.outs q) ∧
    ((retireLocked d p).outs p).ref = (e.outs p).ref ∧
    (∀ k, k ≠ outKey id → (retireLocked d p).queues k = e.queues k) := by
  have hidd : (d.outs p).id = id := by rw [hd.touches.id_eq]; exact hl.id_eq
  have hto := hd.touches.trans (Touches.orphaned d p id hd.finished)
  have hoid : ((orphaned d p).outs p).id = id := by rw [orphaned_outs]; exact hidd
  rcases retireLocked_cases d p with ⟨-, -, heq⟩ | ⟨-, -, -, heq⟩ | ⟨-, heq⟩
  · have htc := Touches.completeLocked (orphaned d p) p
    rw [hoid] at htc
    rw [heq]
    exact ⟨(hto.trans htc).outs, (hto.trans htc).ref_eq, (hto.trans htc).queues⟩
  · obtain ⟨ids, stuck, hrel⟩ := releaseLocked_eq d (d.outs p).id .publish
    rw [heq, hrel]
    exact ⟨hd.touches.outs, hd.touches.ref_eq, hd.touches.queues⟩
  · have hts := Touches.settleLocked (orphaned d p) p
    rw [hoid] at hts
    rw [heq]
    exact ⟨(hto.trans hts).outs, (hto.trans hts).ref_eq, (hto.trans hts).queues⟩

/-- A flow that ends goes over from `refs` to the orphans. -/
theorem Findable.retire (h : Findable e) (hown : Owners e held reserved own)
    (hf : e.failure = none) (hl : LiveFlow e p id) (hd : Ended e d p id) :
    Findable (retireLocked d p) ∧ Keeps e (retireLocked d p) := by
  have hp := hown.live id p hl.get
  obtain ⟨hout, hrefs, horph⟩ := retireLocked_maps d p
  obtain ⟨houts, href, hqueues⟩ := retireLocked_frame hl hd
  rw [hd.refs] at hrefs
  rw [hd.ref, hd.orphans] at horph
  have hlive : ∀ i q, (retireLocked d p).out.get i = some q → e.out.get i = some q ∧ q ≠ p := by
    intro i q hq
    rw [hout] at hq
    have hold := hd.touches.out i q hq
    refine ⟨hold, ?_⟩
    rintro rfl
    have hi := (hown.ptr i q (hown.live i q hold)).2
    rw [← hi, hl.id_eq, hd.out] at hq
    cases hq
  have horphan : ∀ r q, (retireLocked d p).orphans.get r = some q →
      e.orphans.get r = some q ∨ q = p ∧ r = (e.outs p).ref ∧ (e.outs p).ref ≠ [] := by
    intro r q hr
    rw [horph] at hr
    split at hr
    · rename_i hne
      exact (of_get_set hr).imp_right fun ⟨heq, hq⟩ => ⟨hq, heq, hne⟩
    · exact .inl hr
  refine ⟨⟨?_, ?_, ?_, ?_⟩, ?_⟩
  · intro i q hq hne
    obtain ⟨hold, hqp⟩ := hlive i q hq
    rw [houts q hqp] at hne ⊢
    have hget := h.live i q hold hne
    rw [hrefs]
    split
    · rename_i hpne
      rw [get_del, if_neg (h.ref_ne hown hl.get hpne (.inl ⟨i, hold⟩) hqp)]
      exact hget
    · exact hget
  · intro r q hr
    have hold : e.refs.get r = some q ∧ (q = p → False) := by
      rw [hrefs] at hr
      split at hr
      · obtain ⟨hr', hne⟩ := of_get_del hr
        refine ⟨hr', ?_⟩
        rintro rfl
        exact hne (h.refs r q hr').1.symm
      · rename_i hne
        refine ⟨hr, ?_⟩
        rintro rfl
        obtain ⟨hqr, hqne⟩ := h.refs r q hr
        rw [hqr] at hne
        exact hne hqne
    rw [houts q hold.2]
    exact h.refs r q hold.1
  · intro r q hr
    rw [hrefs]
    rcases horphan r q hr with hold | ⟨-, rfl, hne⟩
    · have hnone := h.apart r q hold
      split
      · rw [get_del]
        split
        · rfl
        · exact hnone
      · exact hnone
    · rw [if_pos hne]
      simp
  · intro i j hj q howner hfin hne
    by_cases hqp : q = p
    · subst hqp
      rw [href] at hne ⊢
      rw [horph, if_pos hne]
      simp
    · have hi : outKey i ≠ outKey id := by
        intro hcon
        have hcon' := retire_owner hown hf hl hd j (hcon ▸ hj)
        rw [howner] at hcon'
        cases hcon'
        exact hqp rfl
      rw [hqueues _ hi] at hj
      rw [houts q hqp] at hfin hne ⊢
      have hget := h.kept i j hj q howner hfin hne
      rw [horph]
      split
      · rename_i hpne
        rw [get_set, if_neg (h.ref_ne hown hl.get hpne (.inr ⟨_, hget⟩) hqp)]
        exact hget
      · exact hget
  · intro r q hr
    rw [adoptee_iff] at hr ⊢
    rw [hrefs, horph]
    by_cases hpne : (e.outs p).ref ≠ []
    · have hpget := h.live id p hl.get hpne
      rw [if_pos hpne, if_pos hpne, get_del, get_set]
      by_cases hrp : r = (e.outs p).ref
      · rw [if_pos hrp, if_pos hrp]
        rw [hrp, hpget] at hr
        exact .inr ⟨rfl, hr.resolve_right (by simp)⟩
      · rw [if_neg hrp, if_neg hrp]
        exact hr
    · rw [if_neg hpne, if_neg hpne]
      exact hr

/-- A live flow and its record change. -/
theorem Findable.rewrite (h : Findable e) (hown : Owners e held reserved own)
    (hf : e.failure = none) (hl : LiveFlow e p id) (hd : Rewritten e d p id) :
    Findable (putOutLocked d p) ∧ Keeps e (putOutLocked d p) := by
  have hp := hown.live id p hl.get
  have hafter := hown.rewrite hp hf hl.live hd.touches hd.queues hd.finished hd.settling hd.adopted
    hd.settle hd.ref
  have hmaps : (putOutLocked d p).outs = d.outs ∧ (putOutLocked d p).out = d.out ∧
      (putOutLocked d p).refs = d.refs ∧ (putOutLocked d p).orphans = d.orphans := by
    unfold putOutLocked
    split
    · exact ⟨rfl, rfl, rfl, rfl⟩
    · exact ⟨rfl, rfl, rfl, rfl⟩
  obtain ⟨houts, hout, hrefs, horph⟩ := hmaps
  have htp := Touches.putOutLocked d p
  rw [hd.touches.id_eq, hl.id_eq] at htp
  have ht := hd.touches.trans htp
  rw [hd.refs] at hrefs
  rw [hd.orphans] at horph
  refine ⟨h.congr (hout.trans hd.out) hrefs horph ?_ ?_, Keeps.of_eq hrefs horph⟩
  · intro q
    by_cases hqp : q = p
    · subst hqp
      rw [houts]
      exact ⟨hd.finished, hd.ref⟩
    · rw [ht.outs q hqp]
      exact ⟨rfl, rfl⟩
  · intro i j hj q howner
    by_cases hqp : q = p
    · exact .inr (.inr (hqp ▸ hl.live))
    · have hi : outKey i ≠ outKey id := fun hcon =>
        hqp (Option.some.inj ((hafter.of_job (hcon ▸ hj) howner).symm.trans hp))
      rw [ht.queues _ hi] at hj
      exact .inl ⟨j, hj, howner⟩

/-- Operations on flows that exist keep what is found. -/
theorem findable_flowRule (held : List (PacketID × Owner)) (reserved : ℕ) (e₀ : Engine) :
    FlowRule fun e => (∃ own, Owners e held reserved own) ∧
      (e.failure = none → Findable e ∧ Keeps e₀ e) := by
  have hrule := owners_flowRule held reserved
  refine ⟨?_, ?_, ?_⟩
  · rintro e e' ⟨hown, h⟩ hq
    refine ⟨hrule.quiet e e' hown hq, fun hf => ?_⟩
    obtain ⟨hfind, hkeep⟩ := h (hq.failure ▸ hf)
    exact ⟨hfind.quiet hq, hkeep.trans (Keeps.of_eq hq.refs hq.orphans)⟩
  · rintro e d p id ⟨⟨own, hown⟩, h⟩ hf hl hd
    obtain ⟨hfind, hkeep⟩ := h hf
    obtain ⟨hfind', hkeep'⟩ := hfind.retire hown hf hl hd
    exact ⟨hrule.retire e d p id ⟨own, hown⟩ hf hl hd, fun _ => ⟨hfind', hkeep.trans hkeep'⟩⟩
  · rintro e d p id ⟨⟨own, hown⟩, h⟩ hf hl hd
    obtain ⟨hfind, hkeep⟩ := h hf
    obtain ⟨hfind', hkeep'⟩ := hfind.rewrite hown hf hl hd
    exact ⟨hrule.rewrite e d p id ⟨own, hown⟩ hf hl hd, fun _ => ⟨hfind', hkeep.trans hkeep'⟩⟩

end Flows

/-- The write that settles a flow is its own. -/
theorem settleLocked_queues (e : Engine) (p : OutPtr) (k : RecordKey) (j : Job) :
    j ∈ (settleLocked e p).queues k → j ∈ e.queues k ∨ k = outKey (e.outs p).id ∧
      j.owner = .out p := by
  intro hj
  by_cases hk : k = outKey (e.outs p).id
  · rw [hk, (settleLocked_self e p).2] at hj
    rcases mem_append.mp hj with hj | hj
    · exact .inl (hk ▸ hj)
    · cases mem_singleton.mp hj
      exact .inr ⟨hk, rfl⟩
  · rw [(Touches.settleLocked e p).queues k hk] at hj
    exact .inl hj

section Producers

variable {held : List (PacketID × Owner)} {reserved : ℕ} {own : PacketID → Option OutPtr}
  {e : Engine}

/-- A new flow enters the session, under a Ref that is not in use. -/
theorem Findable.enter (h : Findable e) (hown : Owners e held reserved own) {rel : List OutPtr}
    (ho : (sendQueue e).Ordered rel) {e' : Engine} {o : Out} {id : PacketID}
    (houts : e'.outs = Function.update e.outs e.nextOut o) (hout : e'.out = e.out.set id e.nextOut)
    (hrefs : e'.refs = if o.ref ≠ [] then e.refs.set o.ref e.nextOut else e.refs)
    (horph : e'.orphans = e.orphans)
    (hfree : o.ref ≠ [] → e.refs.get o.ref = none ∧ e.orphans.get o.ref = none)
    (hkept : ∀ i, ∀ j ∈ e'.queues (outKey i), ∀ p, j.owner = .out p →
      (e'.outs p).finished = true → (e'.outs p).ref ≠ [] →
        e'.orphans.get (e'.outs p).ref = some p) :
    Findable e' ∧ Keeps e e' ∧ ∀ r q, e'.refs.get r = some q →
      e.refs.get r = some q ∨ r = o.ref ∧ o.ref ≠ [] ∧ q = e.nextOut := by
  have hold : ∀ q, q < e.nextOut → e'.outs q = e.outs q := by
    intro q hlt
    rw [houts, update_of_ne hlt.ne]
  have hself : e'.outs e.nextOut = o := by rw [houts, update_self]
  have hother : ∀ r, (o.ref ≠ [] → r ≠ o.ref) → e'.refs.get r = e.refs.get r := by
    intro r hr
    rw [hrefs]
    split
    · rename_i hne
      rw [get_set, if_neg (hr hne)]
    · rfl
  have hrefs_old : ∀ r q, e.refs.get r = some q → e'.refs.get r = some q := by
    intro r q hr
    rw [hother r, hr]
    rintro hne rfl
    rw [(hfree hne).1] at hr
    cases hr
  have hapart : ∀ r q, e.orphans.get r = some q → e'.refs.get r = e.refs.get r := by
    intro r q hr
    apply hother
    rintro hne rfl
    rw [(hfree hne).2] at hr
    cases hr
  have hrefs_new : ∀ r q, e'.refs.get r = some q →
      e.refs.get r = some q ∨ r = o.ref ∧ o.ref ≠ [] ∧ q = e.nextOut := by
    intro r q hr
    rw [hrefs] at hr
    split at hr
    · rename_i hne
      exact (of_get_set hr).imp_right fun ⟨heq, hq⟩ => ⟨heq, hne, hq⟩
    · exact .inl hr
  refine ⟨⟨?_, ?_, ?_, hkept⟩, ?_, hrefs_new⟩
  · intro i q hq hne
    rw [hout, get_set] at hq
    split at hq
    · cases hq
      rw [hself] at hne ⊢
      rw [hrefs, if_pos hne, get_set]
      exact if_pos rfl
    · rw [hold q (hown.ptr i q (hown.live i q hq)).1] at hne ⊢
      exact hrefs_old _ q (h.live i q hq hne)
  · intro r q hr
    rcases hrefs_new r q hr with hr | ⟨rfl, hne, rfl⟩
    · rw [hold q (ho.refs r q hr).1.1]
      exact h.refs r q hr
    · rw [hself]
      exact ⟨rfl, hne⟩
  · intro r q hr
    rw [horph] at hr
    rw [hapart r q hr]
    exact h.apart r q hr
  · intro r q hr
    rw [adoptee_iff] at hr ⊢
    rcases hr with hr | ⟨hnone, hr⟩
    · exact .inl (hrefs_old r q hr)
    · rw [hapart r q hr, horph]
      exact .inr ⟨hnone, hr⟩

/-- A Register whose Ref is not in use. -/
theorem Findable.register (h : Findable e) (hown : Owners e held reserved own) (m : Message)
    (now : Time) (hf : e.failure = none) (hheld : (m.id, Owner.publish) ∈ held)
    (ho : (sendQueue e).Ordered []) (hfree : m.ref ≠ [] → adoptee e m.ref = none) :
    Findable (register e m now).1 ∧ Keeps e (register e m now).1 := by
  obtain ⟨-, houts, hout, hrefs, horph, -, -, -, hother, extra, hq, hextra⟩ :=
    register_keeps (e := e) m now hf
  have hempty : e.queues (outKey m.id) = [] := hown.empty m.id (hown.caller m.id _ hheld).1
  obtain ⟨hfind, hkeeps, -⟩ := h.enter hown ho houts hout hrefs horph
    (fun hne => adoptee_none.mp (hfree hne)) (by
      intro i j hj q howner hfin hne
      by_cases hi : outKey i = outKey m.id
      · rw [hi, hq, hempty, nil_append] at hj
        rcases hextra with rfl | ⟨-, rfl⟩
        · cases hj
        · cases mem_singleton.mp hj
          cases howner
          rw [houts, update_self] at hfin
          cases hfin
      · rw [hother _ hi] at hj
        have hqlt : q < e.nextOut := (hown.ptr i q (hown.of_job hj howner)).1
        rw [houts, update_of_ne hqlt.ne] at hfin hne ⊢
        rw [horph]
        exact h.kept i j hj q howner hfin hne)
  exact ⟨hfind, hkeeps⟩

/-- An Adopt moves nothing. -/
theorem Findable.adopt (h : Findable e) (hown : Owners e held reserved own)
    (ho : (sendQueue e).Ordered []) (ref : Bytes) (f : SettleFn) :
    Findable (adopt e ref f).1 ∧ Keeps e (adopt e ref f).1 := by
  have hset : ∀ (p : OutPtr) (g : Out → Out), ((g (e.outs p)).finished = (e.outs p).finished ∧
      (g (e.outs p)).ref = (e.outs p).ref) → Findable (setOut e p g) := by
    intro p g hg
    refine h.congr rfl rfl rfl ?_ (fun _ j hj _ hjp => .inl ⟨j, hj, hjp⟩)
    intro q
    by_cases hqp : q = p
    · subst hqp
      simpa [setOut] using hg
    · simp [setOut, hqp]
  rcases adopt_cases ho ref f with ⟨-, heq⟩ | ⟨p, -, -, heq⟩ | ⟨p, -, -, -, heq⟩ |
    ⟨p, -, hget, -, heq⟩
  · rw [heq]
    exact ⟨h, Keeps.refl e⟩
  · rw [heq]
    exact ⟨hset p (fun o => { o with settle := some f }) ⟨rfl, rfl⟩, Keeps.of_eq rfl rfl⟩
  · have hone : setOut (setOut e p fun o => { o with settle := some f }) p
        (fun o => { o with adopted := true }) =
        setOut e p fun o => { o with settle := some f, adopted := true } := by
      simp [setOut]
    rw [heq, hone]
    exact ⟨hset p (fun o => { o with settle := some f, adopted := true }) ⟨rfl, rfl⟩,
      Keeps.of_eq rfl rfl⟩
  · -- The orphan gets a write, and it is found already.
    obtain ⟨hp, hfin, href, hne⟩ := hown.orphan ref p hget
    rw [heq]
    refine ⟨h.congr rfl rfl rfl ?_ ?_, Keeps.of_eq rfl rfl⟩
    · intro q
      by_cases hqp : q = p
      · subst hqp
        simp [settleLocked, queueLocked, setOut]
      · simp [settleLocked, queueLocked, setOut, hqp]
    · intro i j hj q hjq
      rcases settleLocked_queues _ p _ j hj with hj | ⟨-, hown'⟩
      · exact .inl ⟨j, hj, hjq⟩
      · rw [hjq] at hown'
        cases hown'
        rw [href]
        exact .inr (.inl hget)

end Producers

/-! ### The end of a write -/

section Ends

variable {held : List (PacketID × Owner)} {reserved : ℕ} {own : PacketID → Option OutPtr}
  {e e' : Engine} {p : OutPtr} {id : PacketID} {j : Job} {rest : List Job}

section

variable (h : Findable e) (hown : Owners e held reserved own) (hp : own id = some p)
include h hown hp

/-- A flow leaves the session altogether: it has no write any more, and no map leads to
it. Every other flow is found as before. -/
theorem Findable.leave (houts : ∀ q, q ≠ p → (e'.outs q).finished = (e.outs q).finished ∧
      (e'.outs q).ref = (e.outs q).ref) (hempty : e'.queues (outKey id) = [])
    (hqueues : ∀ k, k ≠ outKey id → e'.queues k = e.queues k)
    (hout : ∀ i q, e'.out.get i = some q → e.out.get i = some q ∧ q ≠ p)
    (hrefs : ∀ r q, e'.refs.get r = some q → e.refs.get r = some q ∧ q ≠ p)
    (hrefs' : ∀ r q, e.refs.get r = some q → q ≠ p → e'.refs.get r = some q)
    (horph : ∀ r q, e'.orphans.get r = some q → e.orphans.get r = some q)
    (horph' : ∀ r q, e.orphans.get r = some q → q ≠ p → e'.orphans.get r = some q) :
    Findable e' ∧ ∀ r q, adoptee e r = some q → q ≠ p → adoptee e' r = some q := by
  have hnone : ∀ r, e.refs.get r = none → e'.refs.get r = none := by
    intro r hr
    cases hget : e'.refs.get r with
    | none => rfl
    | some q =>
      rw [(hrefs r q hget).1] at hr
      cases hr
  refine ⟨⟨?_, ?_, ?_, ?_⟩, ?_⟩
  · intro i q hq hne
    obtain ⟨hold, hqp⟩ := hout i q hq
    rw [(houts q hqp).2] at hne ⊢
    exact hrefs' _ q (h.live i q hold hne) hqp
  · intro r q hr
    obtain ⟨hold, hqp⟩ := hrefs r q hr
    rw [(houts q hqp).2]
    exact h.refs r q hold
  · intro r q hr
    exact hnone r (h.apart r q (horph r q hr))
  · intro i j hj q howner hfin hne
    by_cases hi : outKey i = outKey id
    · rw [hi, hempty] at hj
      cases hj
    · rw [hqueues _ hi] at hj
      have hqp : q ≠ p := by
        rintro rfl
        have h1 := (hown.ptr i q (hown.of_job hj howner)).2
        rw [← h1, (hown.ptr id q hp).2] at hi
        exact hi rfl
      rw [(houts q hqp).1] at hfin
      rw [(houts q hqp).2] at hne ⊢
      exact horph' _ q (h.kept i j hj q howner hfin hne) hqp
  · intro r q hr hqp
    rw [adoptee_iff] at hr ⊢
    rcases hr with hr | ⟨hr, hget⟩
    · exact .inl (hrefs' r q hr hqp)
    · exact .inr ⟨hnone r hr, horph' r q hget hqp⟩

/-- No other flow is found under the Ref of a flow that has a write. -/
theorem Findable.alone (ho : (sendQueue e).Ordered []) (hq : e.queues (outKey id) = j :: rest)
    {q : OutPtr} (hget : e.refs.get (e.outs p).ref = some q) : q = p := by
  have hne := (h.refs _ q hget).2
  obtain ⟨hlt, hid⟩ := hown.ptr id p hp
  cases hfin : (e.outs p).finished with
  | false =>
    have hlive : e.out.get (e.outs p).id = some p := (ho.get _ p).mpr ⟨⟨hlt, hfin⟩, rfl⟩
    rw [h.live _ p hlive hne] at hget
    exact (Option.some.inj hget).symm
  | true =>
    have hmem := head_mem hq
    have hkept := h.kept id j hmem p (hown.jobs id p hp j hmem) hfin hne
    rw [h.apart _ p hkept] at hget
    cases hget

/-- A failed first Put. -/
theorem Findable.dropNew (hf : e.failure = none) (ho : (sendQueue e).Ordered [])
    (hq : e.queues (outKey id) = j :: rest) (err : ℕ) :
    Findable (popJob (dropNew e p err) (outKey id)) ∧ ∀ r q, adoptee e r = some q → q ≠ p →
      adoptee (popJob (dropNew e p err) (outKey id)) r = some q := by
  have hid := (hown.ptr id p hp).2
  have hempty : (popJob (Program.dropNew e p err) (outKey id)).queues (outKey id) = [] :=
    (hown.dropNew hp hf hq err).empty id (update_self ..)
  have hrefs := dropNew_refs e p err
  obtain ⟨d, heq, ht, hout, -, horph, -, -⟩ := dropNew_eq e p err
  rw [hid] at heq ht hout
  obtain ⟨ids, stuck, hrel⟩ := releaseLocked_eq d id .publish
  rw [heq, hrel] at hrefs hempty ⊢
  have hrefs : d.refs = if (e.outs p).ref ≠ [] then e.refs.del (e.outs p).ref else e.refs := hrefs
  refine h.leave hown hp ?_ hempty ?_ ?_ ?_ ?_ ?_ ?_
  · intro q hqp
    show (d.outs q).finished = _ ∧ (d.outs q).ref = _
    rw [ht.outs q hqp]
    exact ⟨rfl, rfl⟩
  · intro k hk
    simp only [popJob, update_of_ne hk]
    exact ht.queues k hk
  · intro i q hget
    have hget : d.out.get i = some q := hget
    refine ⟨ht.out i q hget, ?_⟩
    rintro rfl
    have hi := (hown.ptr i q (hown.live i q (ht.out i q hget))).2
    rw [← hi, hid, hout] at hget
    cases hget
  · intro r q hget
    have hget : d.refs.get r = some q := hget
    rw [hrefs] at hget
    have hold : e.refs.get r = some q := by
      split at hget
      · exact (of_get_del hget).1
      · exact hget
    refine ⟨hold, ?_⟩
    rintro rfl
    obtain ⟨hqr, hqne⟩ := h.refs r q hold
    rw [hqr, if_pos hqne] at hget
    simp at hget
  · intro r q hget hqp
    show d.refs.get r = some q
    rw [hrefs]
    split
    · rw [get_del, if_neg]
      · exact hget
      · rintro rfl
        exact hqp (h.alone hown hp ho hq hget)
    · exact hget
  · intro r q hget
    have hget : d.orphans.get r = some q := hget
    rw [horph] at hget
    split at hget
    · exact (of_get_del hget).1
    · exact hget
  · intro r q hget hqp
    show d.orphans.get r = some q
    rw [horph]
    split
    · rename_i hcond
      rw [get_del, if_neg]
      · exact hget
      · rintro rfl
        rw [hcond.2] at hget
        exact hqp (Option.some.inj hget).symm
    · exact hget

/-- The flow of a settle-and-delete is kept, with writes of its own. -/
theorem Findable.stay (hq : e.queues (outKey id) = j :: rest) (ht : Touches e e' p id)
    (hfin : (e.outs p).finished = true)
    (hmaps : e'.out = e.out ∧ e'.refs = e.refs ∧ e'.orphans = e.orphans)
    (howner : ∀ i ∈ e'.queues (outKey id), i.owner = .out p) : Findable e' ∧ Keeps e e' := by
  have hmem := head_mem hq
  refine ⟨h.congr hmaps.1 hmaps.2.1 hmaps.2.2 ?_ ?_, Keeps.of_eq hmaps.2.1 hmaps.2.2⟩
  · intro q
    by_cases hqp : q = p
    · subst hqp
      exact ⟨(ht.finished hfin).trans hfin.symm, ht.ref_eq⟩
    · rw [ht.outs q hqp]
      exact ⟨rfl, rfl⟩
  · intro i j' hj' q hjq
    by_cases hi : outKey i = outKey id
    · rw [hi] at hj' ⊢
      have := howner j' hj'
      rw [hjq] at this
      cases this
      exact .inl ⟨j, hmem, hown.jobs id _ hp j hmem⟩
    · rw [ht.queues _ hi] at hj'
      exact .inl ⟨j', hj', hjq⟩

/-- A settle-and-delete for an adopter follows the one that ended. -/
theorem Findable.resettle (hq : e.queues (outKey id) = [j]) (hfin : (e.outs p).finished = true)
    {d : Engine} (ht : Touches e d p id)
    (hmaps : d.out = e.out ∧ d.refs = e.refs ∧ d.orphans = e.orphans)
    (howner : ∀ i ∈ d.queues (outKey id), i.owner = .out p) :
    Findable (popJob (settleLocked (setOut d p fun o => { o with adopted := false }) p)
      (outKey id)) ∧
    Keeps e (popJob (settleLocked (setOut d p fun o => { o with adopted := false }) p)
      (outKey id)) := by
  have hid : (d.outs p).id = id := by rw [ht.id_eq]; exact (hown.ptr id p hp).2
  obtain ⟨g, hg⟩ : ∃ g, setOut d p (fun o => { o with adopted := false }) = g := ⟨_, rfl⟩
  have hgid : (g.outs p).id = id := by rw [← hg]; simpa [setOut] using hid
  have htg : Touches e g p id := by
    rw [← hg]
    exact ht.trans (Touches.setOut d p id (fun o => { o with adopted := false }) rfl rfl
      (fun h => h))
  have hts := Touches.settleLocked g p
  rw [hgid] at hts
  rw [hg]
  refine h.stay hown hp hq ((htg.trans hts).trans (Touches.popJob _ p id)) hfin ?_ ?_
  · rw [← hg]
    exact hmaps
  · intro i hi
    rw [popJob_self] at hi
    rcases settleLocked_queues g p _ i (mem_of_mem_tail hi) with hi | ⟨-, hi⟩
    · rw [← hg] at hi
      exact howner i hi
    · exact hi

/-- The end of a settle-and-delete: the flow is given up unless it was adopted or its
Settle failed. -/
theorem Findable.settled (ho : (sendQueue e).Ordered []) (hq : e.queues (outKey id) = [j])
    (hfin : (e.outs p).finished = true) (failed : Bool) :
    Findable (popJob (settleAfter (setOut e p fun o => { o with settling := false }) p failed)
      (outKey id)) ∧ ∀ r q, adoptee e r = some q → failed = true ∨ q ≠ p →
        adoptee (popJob (settleAfter (setOut e p fun o => { o with settling := false }) p failed)
          (outKey id)) r = some q := by
  have hid := (hown.ptr id p hp).2
  obtain ⟨d, extra, hw, hnil, heq⟩ := settleAfter_woundUp hid hq failed
  have ht := hw.touches
  have howner : ∀ i ∈ d.queues (outKey id), i.owner = .out p := by
    intro i hi
    rw [hw.queue] at hi
    rcases mem_cons.mp hi with rfl | hi
    · exact hown.jobs id p hp i (head_mem hq)
    · exact (hw.puts i hi).2
  rw [heq]
  by_cases had : (e.outs p).adopted = true
  · rw [if_pos had]
    obtain ⟨hfind, hkeep⟩ := h.resettle hown hp hq hfin ht hw.maps howner
    exact ⟨hfind, fun r q hr _ => hkeep r q hr⟩
  rw [if_neg had]
  cases failed with
  | false =>
    obtain ⟨orphans, hgive, -, -, hsub, hsup⟩ :=
      popJob_giveUp (ht.id_eq.trans hid) (outKey id)
    obtain ⟨ids, stuck, hrel⟩ :=
      releaseLocked_eq (popJob { d with orphans := orphans } (outKey id)) id .publish
    rw [hw.maps.2.2] at hsub hsup
    simp only [Bool.false_eq_true, if_false, false_or]
    rw [hgive, hrel]
    have hover : ∀ q, (e.outs q).finished = false → q ≠ p := by
      rintro q hlive rfl
      rw [hfin] at hlive
      cases hlive
    refine h.leave hown hp ?_ ?_ ?_ ?_ ?_ ?_ hsub hsup
    · intro q hqp
      show (d.outs q).finished = _ ∧ (d.outs q).ref = _
      rw [ht.outs q hqp]
      exact ⟨rfl, rfl⟩
    · show (popJob { d with orphans := orphans } (outKey id)).queues (outKey id) = []
      rw [popJob_self]
      exact (congrArg List.tail hw.queue).trans (hnil rfl)
    · intro k hk
      simp only [popJob, update_of_ne hk]
      exact ht.queues k hk
    · intro i q hget
      have hget : d.out.get i = some q := hget
      rw [hw.maps.1] at hget
      exact ⟨hget, hover q (ho.live_of_get hget).2⟩
    · intro r q hget
      have hget : d.refs.get r = some q := hget
      rw [hw.maps.2.1] at hget
      exact ⟨hget, hover q (ho.refs r q hget).1.2⟩
    · intro r q hget _
      show d.refs.get r = some q
      rw [hw.maps.2.1]
      exact hget
  | true =>
    have hset := Touches.setOut d p id (fun o => { o with settle := none }) rfl rfl (fun h => h)
    obtain ⟨hfind, hkeep⟩ := h.stay hown hp hq ((ht.trans hset).trans (Touches.popJob _ p id)) hfin
      hw.maps fun i hi => howner i (mem_of_mem_tail (popJob_self _ (outKey id) ▸ hi))
    exact ⟨hfind, fun r q hr _ => hkeep r q hr⟩

end

end Ends

/-- A failure keeps the configuration, the connection and the sequence. -/
theorem failLocked_frame (e : Engine) (err : StoreError) :
    (failLocked e err).failure ≠ none ∧ (failLocked e err).cfg = e.cfg ∧
    (failLocked e err).gen = e.gen ∧ (failLocked e err).nextSeq = e.nextSeq := by
  by_cases hf : e.failure = none
  · have heq := failLocked_eq e err hf
    rw [heq]
    exact ⟨by simp, rfl, rfl, rfl⟩
  · rw [failLocked_of_failed e err hf]
    exact ⟨hf, rfl, rfl, rfl⟩

/-- What has to end for a flow to be found no longer: its first Put, with an error, or the delete of
its record, without one. -/
def Ends (e : Engine) (k : RecordKey) (p : OutPtr) : Prop :=
  ∃ j rest, e.queues k = j :: rest ∧ j.owner = .out p ∧
    ((∃ r err, j.kind = .putNew r ∧ j.stage = .ran (some err)) ∨
      ∃ f o ref, j.kind = .settle f o ref ∧ j.stage = .ran none)

/-- INTERNAL: **What the end of a write does to what is found.** -/
theorem Findable.finish {on : Prop} {s : Sys} {k : RecordKey} {j : Job} {rest : List Job}
    {res : Option JobErr} (hc : Core on s) (h : s.eng.failure = none → Findable s.eng)
    (hq : s.eng.queues k = j :: rest) (hstage : j.stage = .ran res)
    (hf' : (finishJob s.eng k j res).failure = none) :
    Findable (finishJob s.eng k j res) ∧ ∀ r p, adoptee s.eng r = some p →
      adoptee (finishJob s.eng k j res) r = some p ∨ Ends s.eng k p := by
  obtain ⟨own, hown⟩ := hc.owners
  have hexcept : ∀ p e', Ends s.eng k p →
      (∀ r q, adoptee s.eng r = some q → q ≠ p → adoptee e' r = some q) →
      ∀ r q, adoptee s.eng r = some q → adoptee e' r = some q ∨ Ends s.eng k q := by
    intro p e' hends hkeep r q hr
    by_cases hqp : q = p
    · exact .inr (hqp ▸ hends)
    · exact .inl (hkeep r q hr hqp)
  have hcases := hc.finished hown hq hstage
  generalize finishJob s.eng k j res = e' at hf' hcases ⊢
  cases hcases with
  | gone =>
    refine ⟨(h hf').congr rfl rfl rfl (fun _ => ⟨rfl, rfl⟩) ?_, fun r p hr => .inl hr⟩
    intro i j' hj' p hjp
    obtain ⟨i', hi', -, howner, -⟩ := subJobs_popJob s.eng k _ j' hj'
    exact .inl ⟨i', hi', howner.trans hjp⟩
  | failed err | deleteFailed c err => exact absurd hf' (failLocked_frame _ _).1
  | dropNew err hf hp howner hkind =>
    obtain ⟨hfind, hkeep⟩ := (h hf).dropNew hown hp hf hc.ordered hq err
    obtain ⟨r, hkind⟩ := hkind
    exact ⟨hfind, hexcept _ _ ⟨j, rest, hq, howner, .inl ⟨r, _, hkind, hstage⟩⟩ hkeep⟩
  | settled failed hf hs hres =>
    obtain ⟨hfind, hkeep⟩ := (h hf).settled hown hs.holder hc.ordered hs.queue hs.finished failed
    refine ⟨hfind, ?_⟩
    rcases hres with ⟨rfl, rfl⟩ | ⟨rfl, -⟩
    · obtain ⟨f, o, hkind⟩ := hs.kind
      exact hexcept _ _ ⟨j, rest, hq, hs.owner, .inr ⟨f, o, _, hkind, hstage⟩⟩
        fun r q hr hqp => hkeep r q hr (.inr hqp)
    · exact fun r q hr => .inl (hkeep r q hr (.inl rfl))

end Mqttv5.Analysis
