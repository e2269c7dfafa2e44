import Mqttv5.Analysis.Found

/-!
# The producers after a Restore

A session that `Restore` rebuilds has no Settle to call, and finds the Ref of every record it
could restore, as long as no two records it loads have the same Ref.
-/

set_option autoImplicit false

namespace Mqttv5.Analysis

open Mqttv5.Computation Model Program Interface List FiniteMap

/-- The account of a session that is rebuilt: nothing is owed but the calls of the one
before it. -/
theorem Accounts.rebuilt {calls given : List (OutPtr × SettleFn)} {nils : List OutPtr}
    {told : List (OutPtr × Option PubErr)} {e e' : Engine} {m : Meta} {recs : List Record}
    (h : Accounts e calls given nils told) (hidle : ∀ k, e.queues k = [])
    (hr : Rebuilt e e' recs) (hres : restoreLocked e m recs = some e') :
    Accounts e' calls given nils told := by
  obtain ⟨-, -, d, rel', -, ⟨hrev, hothers, -⟩, rfl⟩ := restoreLocked_some hres
  have hdropped := congrArg Engine.dropped hothers
  have hdropped : d.dropped = e.dropped := hdropped
  have hnext : e.nextOut ≤ d.nextOut := hrev.grows
  have hempty : ∀ k, d.queues k = [] := by
    intro k
    have hq := congrFun hr.jobs.1 k
    exact hq.trans (hidle k)
  refine ⟨?_, ?_, ?_, ?_, ?_⟩
  · intro p f
    have howed : owed { d with
        rel := d.rel ++ rel'.insertionSort fun a b => (d.outs a).seq ≤ (d.outs b).seq } p f =
          0 := by
      unfold owed
      rw [if_neg]
      rintro ⟨hs, hlive | ⟨-, hbusy⟩⟩
      · obtain ⟨r, -, -, hout⟩ := hr.flows p (hr.steady.ordered.live_of_get hlive)
        rw [hout] at hs
        cases hs
      · unfold busy at hbusy
        simp [hempty] at hbusy
    have hsum := h.sum p f
    unfold due at hsum ⊢
    rw [howed, hdropped]
    simp only [hempty, countP_nil]
    omega
  · intro x hx
    exact (h.known x hx).trans_le hnext
  · intro k j hj
    have hj : j ∈ d.queues k := hj
    rw [hempty] at hj
    cases hj
  · intro x hx
    obtain ⟨hlt, hfin, herr⟩ := h.told x hx
    have hsame : d.outs x.1 = e.outs x.1 := hrev.old hlt
    refine ⟨hlt.trans_le hnext, ?_, ?_⟩
    · show (d.outs x.1).finished = true
      rw [hsame]
      exact hfin
    · show (d.outs x.1).err = x.2
      rw [hsame]
      exact herr
  · intro p
    show (d.outs p).adopted = true → (d.outs p).settle ≠ none
    rcases hrev.heap p with hq | ⟨-, had⟩
    · rw [hq]
      exact h.ready p
    · rw [had]
      intro hcon
      cases hcon

/-- A record with a Ref that `Restore` brings back: it can be read, and its identifier exists. -/
structure Returns (max : ℕ) (r : Record) : Prop where
  dir : r.key.dir = .outbound
  valid : r.phase.valid .outbound = true
  qos : r.qos = 1 ∨ r.qos = 2
  ref : r.ref ≠ []
  outcome : r.phase = .completed → decodeOutcomeLocked r.outcome r.qos ≠ none
  packet : r.phase ≠ .completed → r.packet ≠ []
  range : 1 ≤ r.key.packetID ∧ r.key.packetID ≤ max

/-- Such a record gets a flow when its identifier is free. -/
theorem restoreRecord_returns {e : Engine} {rel : List OutPtr} {r : Record} {ids : IDTable}
    (h : Returns e.ids.max r) (hclaim : claim e.ids r.key.packetID .publish = some ids) :
    (restoreRecord (e, rel) r).1.nextOut = e.nextOut + 1 := by
  have hgood : ¬ (¬ r.phase.valid .outbound ∨ r.qos ≠ 1 ∧ r.qos ≠ 2) := by
    rintro (hcon | ⟨h1, h2⟩)
    · exact hcon h.valid
    · rcases h.qos with hq | hq
      · exact h1 hq
      · exact h2 hq
  unfold restoreRecord
  simp only [h.dir, if_neg hgood]
  by_cases hphase : r.phase = .completed
  · obtain ⟨err, herr⟩ := Option.ne_none_iff_exists'.mp (h.outcome hphase)
    rw [if_pos hphase, herr]
    simp only [if_neg h.ref, hclaim]
    rfl
  · rw [if_neg hphase, if_neg (h.packet hphase), hclaim]
    simp only
    split
    · rfl
    · rfl

/-- What is found after the records `seen`. -/
structure Regained (seen : List Record) (e : Engine) : Prop where
  find : Findable e
  refs : ∀ r p, e.refs.get r = some p → ∃ rec ∈ seen, rec.ref = r
  orphans : ∀ r p, e.orphans.get r = some p → ∃ rec ∈ seen, rec.ref = r
  found : ∀ rec ∈ seen, Returns e.ids.max rec →
    ∃ p, adoptee e rec.ref = some p ∧ (e.outs p).id = rec.key.packetID

/-- No two records have the same Ref. -/
def Distinct (recs : List Record) : Prop := recs.Pairwise fun a b => b.ref ≠ [] → a.ref ≠ b.ref

namespace Regained

variable {seen : List Record} {e : Engine} {rel : List OutPtr} {r : Record}

/-- A record goes by that keeps what was found; what may be new is under its own Ref. -/
theorem pass (h : Regained seen e) (hb : Rebuilding seen e rel) {e' : Engine}
    (hp : Passed [r] e e') (hfind : Findable e') (hkeeps : Keeps e e')
    (hrefs : ∀ r' p, e'.refs.get r' = some p → e.refs.get r' = some p ∨ r' = r.ref)
    (horph : ∀ r' p, e'.orphans.get r' = some p → e.orphans.get r' = some p ∨ r' = r.ref)
    (hnew : Returns e.ids.max r →
      ∃ p, adoptee e' r.ref = some p ∧ (e'.outs p).id = r.key.packetID) :
    Regained (seen ++ [r]) e' := by
  obtain ⟨own, hown⟩ := hb.owners
  have hmax := congrArg (fun x : Engine => x.ids.max) hp.others
  have hmax : e'.ids.max = e.ids.max := hmax
  refine ⟨hfind, fun r' p hr' => ?_, fun r' p hr' => ?_, fun rec hrec hret => ?_⟩
  · rcases hrefs r' p hr' with hr' | rfl
    · exact Rebuilding.more (h.refs r' p hr')
    · exact ⟨r, by simp, rfl⟩
  · rcases horph r' p hr' with hr' | rfl
    · exact Rebuilding.more (h.orphans r' p hr')
    · exact ⟨r, by simp, rfl⟩
  · rw [hmax] at hret
    rcases mem_append.mp hrec with hrec | hrec
    · obtain ⟨p, hfound, hid⟩ := h.found rec hrec hret
      have hlt : p < e.nextOut := by
        rcases adoptee_iff.mp hfound with hfound | ⟨-, hfound⟩
        · exact (hb.ordered.refs _ p hfound).1.1
        · exact (hown.ptr _ p (hown.orphan _ p hfound).1).1
      exact ⟨p, hkeeps _ p hfound, by rw [hp.revives.old hlt]; exact hid⟩
    · cases mem_singleton.mp hrec
      exact hnew hret

/-- One record. -/
theorem record (h : Regained seen e) (hb : Rebuilding seen e rel) (hl : Loadable (seen ++ [r]))
    (hd : Distinct (seen ++ [r])) : Regained (seen ++ [r]) (restoreRecord (e, rel) r).1 := by
  obtain ⟨own, hown⟩ := hb.owners
  have hp := Passed.record (mem_singleton_self r) (e, rel)
  have hfresh : ∀ r' ∈ seen, r.ref ≠ [] → r'.ref ≠ r.ref := fun r' hr' =>
    (pairwise_append.mp hd).2.2 r' hr' r (by simp)
  have hnoref : r.ref ≠ [] → e.refs.get r.ref = none ∧ e.orphans.get r.ref = none := by
    intro hne
    constructor
    · cases hget : e.refs.get r.ref with
      | none => rfl
      | some p =>
        obtain ⟨r', hr', heq⟩ := h.refs _ p hget
        exact absurd heq (hfresh r' hr' hne)
    · cases hget : e.orphans.get r.ref with
      | none => rfl
      | some p =>
        obtain ⟨r', hr', heq⟩ := h.orphans _ p hget
        exact absurd heq (hfresh r' hr' hne)
  have hgrows : Returns e.ids.max r → (restoreRecord (e, rel) r).1.nextOut = e.nextOut + 1 := by
    intro hret
    have hfree : e.ids.owner r.key.packetID = .none := by
      by_contra hcon
      obtain ⟨r', hr', hkey⟩ := hb.taken _ hcon
      have hnodup := hl.keys
      rw [map_append, nodup_append] at hnodup
      refine hnodup.2.2 r'.key (mem_map_of_mem hr') r.key (by simp) ?_
      rw [hkey, outKey, ← hret.dir]
    obtain ⟨ids, hids⟩ := claim_some hown.table hret.range hfree .publish
    exact restoreRecord_returns hret hids
  rcases restoreRecord_cases e rel r with ⟨heq, -⟩ | ⟨-, -, href, ids, err, -, heq⟩ |
    ⟨-, ids, -, heq⟩ | ⟨-, hdir, heq⟩
  · rw [heq] at hp hgrows ⊢
    exact h.pass hb hp h.find (.refl e) (fun _ _ => .inl) (fun _ _ => .inl) fun hret =>
      absurd (hgrows hret) (Nat.lt_succ_self _).ne
  · -- An ended flow, back among the orphans.
    rw [heq] at hp ⊢
    have hold : ∀ q, q < e.nextOut → (buried e ids r err).outs q = e.outs q := fun q hq =>
      hp.revives.old hq
    have hself : (buried e ids r err).outs e.nextOut = restoredOrphan r err :=
      Function.update_self ..
    have horph : ∀ r', (buried e ids r err).orphans.get r' =
        if r' = r.ref then some e.nextOut else e.orphans.get r' := fun r' => get_set ..
    refine h.pass hb hp ⟨?_, ?_, ?_, ?_⟩ ?_ (fun _ _ => .inl) ?_ ?_
    · intro i p hp hne
      rw [hold p (hown.ptr i p (hown.live i p hp)).1] at hne ⊢
      exact h.find.live i p hp hne
    · intro r' p hp
      rw [hold p (hb.ordered.refs r' p hp).1.1]
      exact h.find.refs r' p hp
    · intro r' p hp
      rcases of_get_set hp with hp | ⟨rfl, -⟩
      · exact h.find.apart r' p hp
      · exact (hnoref href).1
    · intro i j hj
      have hj : j ∈ e.queues (outKey i) := hj
      rw [hb.idle] at hj
      cases hj
    · intro r' p hfound
      rw [adoptee_iff] at hfound ⊢
      rw [horph, if_neg]
      · exact hfound
      · rintro rfl
        simp [hnoref href] at hfound
    · exact fun r' p hp => (of_get_set hp).imp_right And.left
    · intro _
      refine ⟨e.nextOut, ?_, by rw [hself]; rfl⟩
      rw [adoptee_iff, horph, if_pos rfl]
      exact .inr ⟨(hnoref href).1, rfl⟩
  · -- A flow of the session.
    have hrevived : ∀ pub, Passed [r] e { revived e ids r with pub := pub } →
        Regained (seen ++ [r]) { revived e ids r with pub := pub } := by
      intro pub hp
      have henter : Findable { revived e ids r with pub := pub } ∧ _ :=
        h.find.enter hown hb.ordered (o := restoredOut r) rfl rfl rfl rfl hnoref
          fun i j (hj : j ∈ e.queues (outKey i)) => by
            rw [hb.idle] at hj
            cases hj
      obtain ⟨hfind, hkeeps, hrefs⟩ := henter
      have hself : (revived e ids r).outs e.nextOut = restoredOut r := Function.update_self ..
      refine h.pass hb hp hfind hkeeps (fun r' p hp => (hrefs r' p hp).imp_right And.left)
        (fun _ _ => .inl) fun hret => ⟨e.nextOut, adoptee_iff.mpr (.inl ?_), by
          show ((revived e ids r).outs e.nextOut).id = _
          rw [hself]
          rfl⟩
      have hlive := hfind.live r.key.packetID e.nextOut
        (by exact (get_set ..).trans (if_pos rfl))
      simp only [hself] at hlive
      exact hlive hret.ref
    rw [heq] at hp ⊢
    by_cases hphase : r.phase = .awaitPubcomp
    · rw [if_pos hphase] at hp ⊢
      exact hrevived _ hp
    · rw [if_neg hphase] at hp ⊢
      exact hrevived _ hp
  · rw [heq] at hp ⊢
    refine h.pass hb hp ⟨h.find.live, h.find.refs, h.find.apart, h.find.kept⟩ (.of_eq rfl rfl)
      (fun _ _ => .inl) (fun _ _ => .inl) fun hret => ?_
    rw [hret.dir] at hdir
    cases hdir

/-- All the records. -/
theorem foldl {rest : List Record} (h : Regained seen e) (hb : Rebuilding seen e rel)
    (hl : Loadable (seen ++ rest)) (hd : Distinct (seen ++ rest)) :
    Regained (seen ++ rest) (rest.foldl restoreRecord (e, rel)).1 := by
  induction rest generalizing seen e rel with
  | nil => simpa using h
  | cons r rest ih =>
    have heq : seen ++ r :: rest = seen ++ [r] ++ rest := by simp
    rw [heq] at hl hd ⊢
    exact ih (h.record hb hl.left (pairwise_append.mp hd).1) (hb.record hl.left) hl hd

/-- INTERNAL: **After a Restore** every record that it could read is found. -/
theorem restored {e e' : Engine} {m : Meta} {recs : List Record}
    (hidle : ∀ k, e.queues k = []) (hrun : e.stuck = false) (hmax : 0 < e.ids.max)
    (hq : (sendQueue e).Steady) (hin : (Analysis.inbox e).Sound) (hl : Loadable recs)
    (hd : Distinct recs) (h : restoreLocked e m recs = some e') : Regained recs e' := by
  obtain ⟨hout, hinn, d, rel, hloop, -, rfl⟩ := restoreLocked_some h
  have hrefs : ∀ r, e.refs.get r = none := by
    intro r
    cases hget : e.refs.get r with
    | none => rfl
    | some p =>
      have hlive := (hq.ordered.refs r p hget).1
      have hcon := (hq.ordered.get _ p).mpr ⟨hlive, rfl⟩
      have hcon : e.out.get _ = some p := hcon
      rw [hout] at hcon
      cases hcon
  have hstart : Regained [] (cleared e m) := by
    refine ⟨⟨?_, ?_, ?_, ?_⟩, ?_, ?_, by simp⟩
    · intro i p hp
      have hp : e.out.get i = some p := hp
      rw [hout] at hp
      cases hp
    · intro r p hp
      have hp : e.refs.get r = some p := hp
      rw [hrefs] at hp
      cases hp
    · intro r p _
      exact hrefs r
    · intro i j hj
      have hj : j ∈ e.queues (outKey i) := hj
      rw [hidle] at hj
      cases hj
    · intro r p hp
      have hp : e.refs.get r = some p := hp
      rw [hrefs] at hp
      cases hp
    · intro r p hp
      have hp : (∅ : FiniteMap Bytes OutPtr).get r = some p := hp
      simp at hp
  have hfold := hstart.foldl (rebuilding_start m hidle hrun hmax hout hinn hq hin)
    (show Loadable ([] ++ recs) from hl) (show Distinct ([] ++ recs) from hd)
  rw [hloop] at hfold
  exact ⟨⟨hfold.find.live, hfold.find.refs, hfold.find.apart, hfold.find.kept⟩, hfold.refs,
    hfold.orphans, hfold.found⟩

end Regained

end Mqttv5.Analysis
