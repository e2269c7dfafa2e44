import Mathlib.Tactic.Common
import Mqttv5.Computation.Transition
import Mqttv5.Program.GroupCommit

/-!
# Group commit is one transaction per write

`Sequential` is what the group commit stands for: every write alone in a transaction of its own,
in the order the writes were queued. The shared transaction is a shortcut through it (`Sequential`
of a batch without an error), and its failure leaves no trace. In every reachable state the
database is where the writes settled so far lead, one by one, and the answers are theirs.
-/

set_option autoImplicit false

namespace Mqttv5.Guarantees

open Mqttv5.Computation Program List

variable {σ ε : Type}

variable {db db' db₀ : σ} {ops : List (CommitOp σ ε)} {rs : List (Option ε)} {fn : TxFn σ ε}
  {bad : List (ℕ × ε)} {commit : Option ε} {c t : Committer σ ε} {e : CommitEvent σ ε}

/-- The writes one by one, each in its own transaction: from the first state to the last, with
the result of each. A write has an effect exactly when its result is nil; otherwise its result is
the error of its function on the state it found, or the one that `bad` notes for the commit of
its own transaction. -/
inductive Sequential (bad : List (ℕ × ε)) : σ → List (CommitOp σ ε) → List (Option ε) → σ → Prop
  | nil (db : σ) : Sequential bad db [] [] db
  | done {db db' db'' : σ} {op : CommitOp σ ε} {ops : List (CommitOp σ ε)} {rs : List (Option ε)}
      (h : op.fn db = .ok db') (hrest : Sequential bad db' ops rs db'') :
      Sequential bad db (op :: ops) (none :: rs) db''
  | failed {db db'' : σ} {op : CommitOp σ ε} {ops : List (CommitOp σ ε)} {rs : List (Option ε)}
      {e : ε} (h : op.fn db = .error e) (hrest : Sequential bad db ops rs db'') :
      Sequential bad db (op :: ops) (some e :: rs) db''
  | refused {db db' db'' : σ} {op : CommitOp σ ε} {ops : List (CommitOp σ ε)}
      {rs : List (Option ε)} {e : ε} (h : op.fn db = .ok db') (hbad : (op.no, e) ∈ bad)
      (hrest : Sequential bad db ops rs db'') :
      Sequential bad db (op :: ops) (some e :: rs) db''

theorem Sequential.append {db'' : σ} {ops' : List (CommitOp σ ε)} {rs' : List (Option ε)}
    (h : Sequential bad db ops rs db') (h' : Sequential bad db' ops' rs' db'') :
    Sequential bad db (ops ++ ops') (rs ++ rs') db'' := by
  induction h with
  | nil => exact h'
  | done hop _ ih => exact .done hop (ih h')
  | failed hop _ ih => exact .failed hop (ih h')
  | refused hop hbad _ ih => exact .refused hop hbad (ih h')

/-- INTERNAL: Failures noted later take nothing back. -/
theorem Sequential.mono {more : List (ℕ × ε)} (h : Sequential bad db ops rs db')
    (hsub : bad ⊆ more) : Sequential more db ops rs db' := by
  induction h with
  | nil => exact .nil _
  | done hop _ ih => exact .done hop ih
  | failed hop _ ih => exact .failed hop ih
  | refused hop hbad _ ih => exact .refused hop (hsub hbad) ih

theorem Sequential.length (h : Sequential bad db ops rs db') : rs.length = ops.length := by
  induction h with
  | nil => rfl
  | done _ _ ih | failed _ _ ih | refused _ _ _ ih => exact congrArg (· + 1) ih

/-- INTERNAL: A batch that runs through in one transaction runs through one by one. -/
theorem Sequential.of_runAll (bad : List (ℕ × ε)) (ops : List (CommitOp σ ε)) :
    ∀ {db db' : σ}, runAll ops db = .ok db' →
      Sequential bad db ops (List.replicate ops.length none) db' := by
  induction ops with
  | nil =>
    intro db db' h
    cases h
    exact .nil db
  | cons op rest ih =>
    intro db db' h
    unfold runAll at h
    cases hop : op.fn db with
    | error e =>
      rw [hop] at h
      cases h
    | ok db₁ =>
      rw [hop] at h
      exact .done hop (ih h)

/-- INTERNAL: One write in its own transaction. -/
theorem Sequential.of_boltUpdate (op : CommitOp σ ε) (commit : Option ε) (db : σ) :
    Sequential (commit.map fun e => (op.no, e)).toList db [op] [(boltUpdate op.fn commit db).2]
      (boltUpdate op.fn commit db).1 := by
  unfold boltUpdate
  cases hop : op.fn db with
  | error e => exact .failed hop (.nil db)
  | ok db' =>
    cases commit with
    | none => exact .done hop (.nil db')
    | some e => exact .refused hop (mem_singleton.mpr rfl) (.nil db)

/-- INTERNAL: A transaction that returns an error leaves no trace. -/
theorem boltUpdate_error {e : ε} (h : (boltUpdate fn commit db).2 = some e) :
    (boltUpdate fn commit db).1 = db := by
  unfold boltUpdate at h ⊢
  cases hfn : fn db with
  | error e => rfl
  | ok db' =>
    rw [hfn] at h
    cases commit with
    | none => cases h
    | some e => rfl

theorem boltUpdate_none (h : (boltUpdate fn commit db).2 = none) :
    fn db = .ok (boltUpdate fn commit db).1 := by
  unfold boltUpdate at h ⊢
  cases hfn : fn db with
  | error e =>
    rw [hfn] at h
    cases h
  | ok db' =>
    rw [hfn] at h
    cases commit with
    | none => rfl
    | some e => cases h

/-! ### The invariant -/

/-- The writes of the batch the committer has in hand that it has not settled, and those settled
whose answer it has still to send. -/
def inHand : CommitterPC σ ε → List (CommitOp σ ε) × List (CommitOp σ ε × Option ε)
  | .none => ([], [])
  | .starting => ([], [])
  | .loop => ([], [])
  | .took batch => (batch, [])
  | .answering rest => ([], rest.map fun op => (op, none))
  | .alone rest => (rest, [])
  | .sending op res rest => (rest, [(op, res)])

/-- The committer is past the answers it owes, or has a batch in hand. -/
def Busy : CommitterPC σ ε → Prop
  | .took batch => batch ≠ []
  | .answering rest => rest ≠ []
  | .alone rest => rest ≠ []
  | _ => True

/-- The writes in the order they were queued are those settled and answered, those settled that
wait for their answer, those in hand and those pending. -/
structure Grouped (db₀ : σ) (c : Committer σ ε) : Prop where
  settled : ∃ (ops : List (CommitOp σ ε)) (rs : List (Option ε)),
    Sequential c.failures db₀ ops rs c.db ∧
    c.queued = ops ++ (inHand c.pc).1 ++ c.pending ∧
    (ops.map CommitOp.no).zip rs =
      c.answers ++ (inHand c.pc).2.map fun x => (x.1.no, x.2)
  numbered : c.queued.map CommitOp.no = List.range c.queued.length
  running : c.running = true ↔ c.pc ≠ .none
  idle : c.pc = .none → c.pending = []
  busy : Busy c.pc

theorem grouped_start (db₀ : σ) : Grouped db₀ ({ db := db₀ } : Committer σ ε) := by
  refine ⟨⟨[], [], .nil db₀, rfl, rfl⟩, rfl, ?_, fun _ => rfl, trivial⟩
  exact ⟨fun h => (Bool.false_ne_true h).elim, fun h => absurd rfl h⟩

theorem inHand_after_answering (rest : List (CommitOp σ ε)) :
    inHand (.after .answering rest) = ([], rest.map fun op => (op, none)) ∧
      Busy (CommitterPC.after .answering rest) := by
  cases rest with
  | nil => exact ⟨rfl, trivial⟩
  | cons op rest => exact ⟨rfl, cons_ne_nil op rest⟩

theorem inHand_after_alone (rest : List (CommitOp σ ε)) :
    inHand (.after .alone rest) = (rest, []) ∧ Busy (CommitterPC.after .alone rest) := by
  cases rest with
  | nil => exact ⟨rfl, trivial⟩
  | cons op rest => exact ⟨rfl, cons_ne_nil op rest⟩

theorem after_ne_none (pc : List (CommitOp σ ε) → CommitterPC σ ε) (h : ∀ l, pc l ≠ .none)
    (rest : List (CommitOp σ ε)) : CommitterPC.after pc rest ≠ .none := by
  cases rest with
  | nil => nofun
  | cons op rest => exact h _

/-- INTERNAL: A writer queues its write; if it finds no committer it starts one. -/
theorem Grouped.update (h : Grouped db₀ c) (fn : TxFn σ ε) :
    Grouped db₀ { c with
      pending := c.pending ++ [⟨c.queued.length, fn⟩]
      running := true
      pc := if c.running then c.pc else .starting
      queued := c.queued ++ [⟨c.queued.length, fn⟩] } := by
  obtain ⟨ops, rs, hseq, hq, hans⟩ := h.settled
  -- a committer that is started has nothing in hand, as before
  have hhand : inHand (if c.running then c.pc else .starting) = inHand c.pc := by
    by_cases hr : c.running = true
    · rw [if_pos hr]
    · have hpc : c.pc = .none := by
        by_contra hne
        exact hr (h.running.mpr hne)
      rw [if_neg hr, hpc]
      rfl
  have hpc : (if c.running then c.pc else .starting) ≠ .none := by
    by_cases hr : c.running = true
    · rw [if_pos hr]
      exact h.running.mp hr
    · rw [if_neg hr]
      nofun
  refine ⟨⟨ops, rs, hseq, ?_, ?_⟩, ?_, ⟨fun _ => hpc, fun _ => rfl⟩, fun hcon => absurd hcon hpc,
    ?_⟩
  · simp only [hhand]
    rw [hq, append_assoc, append_assoc, append_assoc]
  · simp only [hhand]
    exact hans
  · rw [map_append, h.numbered, length_append, map_singleton, length_singleton,
      range_succ]
  · simp only
    by_cases hr : c.running = true
    · rw [if_pos hr]
      exact h.busy
    · rw [if_neg hr]
      trivial

/-- INTERNAL: The shared transaction. -/
theorem Grouped.shared (h : Grouped db₀ c) {batch : List (CommitOp σ ε)} (hpc : c.pc = .took batch)
    (commit : Option ε) :
    Grouped db₀ { c with
      db := (boltUpdate (runAll batch) commit c.db).1
      pc := match (boltUpdate (runAll batch) commit c.db).2 with
        | none => .answering batch
        | some _ => .alone batch } := by
  obtain ⟨ops, rs, hseq, hq, hans⟩ := h.settled
  have hrun : c.running = true := h.running.mpr (by rw [hpc]; nofun)
  have hbusy := h.busy
  rw [hpc] at hq hans hbusy
  simp only [inHand, map_nil, append_nil] at hq hans
  cases hr : (boltUpdate (runAll batch) commit c.db).2 with
  | none =>
    have hbatch := Sequential.of_runAll c.failures batch (boltUpdate_none hr)
    refine ⟨⟨ops ++ batch, rs ++ List.replicate batch.length none, hseq.append hbatch, ?_, ?_⟩,
      h.numbered, ⟨fun _ h => (by cases h), fun _ => hrun⟩, fun h => (by cases h), hbusy⟩
    · simp only [inHand, append_nil]
      exact hq
    · rw [map_append, zip_append (by rw [length_map, hseq.length]), hans]
      simp only [inHand, map_map]
      congr 1
      clear hq hbatch hr hbusy hpc
      induction batch with
      | nil => rfl
      | cons op rest ih =>
        rw [length_cons, replicate_succ, map_cons, zip_cons_cons, ih]
        rfl
  | some e =>
    rw [boltUpdate_error hr]
    refine ⟨⟨ops, rs, hseq, ?_, ?_⟩, h.numbered, ⟨fun _ h => (by cases h), fun _ => hrun⟩,
      fun h => (by cases h), hbusy⟩
    · simp only [inHand]
      exact hq
    · simp only [inHand, map_nil, append_nil]
      exact hans

/-- INTERNAL: **One move.** -/
theorem Grouped.step (h : Grouped db₀ c) (hstep : c.step e = some t) : Grouped db₀ t := by
  obtain ⟨ops, rs, hseq, hq, hans⟩ := h.settled
  unfold Committer.step at hstep
  split at hstep
  · -- update
    cases hstep
    exact h.update _
  · -- start
    rename_i hpc
    cases hstep
    rw [hpc] at hq hans
    refine ⟨⟨ops, rs, hseq, hq, hans⟩, h.numbered, ⟨fun _ h => (by cases h), fun _ => ?_⟩,
      fun h => (by cases h), trivial⟩
    exact h.running.mpr (by rw [hpc]; nofun)
  · -- take
    rename_i hpc
    have hrun : c.running = true := h.running.mpr (by rw [hpc]; nofun)
    rw [hpc] at hq hans
    simp only [inHand, append_nil] at hq hans
    split at hstep
    · rename_i hnil
      cases hstep
      refine ⟨⟨ops, rs, hseq, ?_, ?_⟩, h.numbered, ?_, fun _ => hnil, trivial⟩
      · simpa only [inHand, append_nil] using hq
      · simpa only [inHand, map_nil, append_nil] using hans
      · exact ⟨fun hf => (Bool.false_ne_true hf).elim, fun hf => absurd rfl hf⟩
    · rename_i hne
      cases hstep
      refine ⟨⟨ops, rs, hseq, ?_, ?_⟩, h.numbered, ⟨fun _ h => (by cases h), fun _ => hrun⟩,
        fun h => (by cases h), fun hnil => hne hnil⟩
      · simpa only [inHand, append_nil] using hq
      · simpa only [inHand, map_nil, append_nil] using hans
  · -- shared
    rename_i commit batch hpc
    have hshared := h.shared hpc commit
    cases hr : (boltUpdate (runAll batch) commit c.db).2 with
    | none | some e =>
      simp only [hr] at hstep hshared
      cases hstep
      exact hshared
  · -- answer
    rename_i op rest hpc
    cases hstep
    have hrun : c.running = true := h.running.mpr (by rw [hpc]; nofun)
    obtain ⟨hhand, hbusy⟩ := inHand_after_answering rest
    have hne := after_ne_none (CommitterPC.answering (σ := σ) (ε := ε)) (fun _ h => by cases h) rest
    rw [hpc] at hq hans
    refine ⟨⟨ops, rs, hseq, ?_, ?_⟩, h.numbered, ⟨fun _ => hne, fun _ => hrun⟩,
      fun hcon => absurd hcon hne, hbusy⟩
    · simp only [hhand]
      simpa only [inHand] using hq
    · simp only [inHand, map_cons] at hans
      simp only [hhand]
      rw [append_assoc, singleton_append]
      exact hans
  · -- alone
    rename_i commit op rest hpc
    cases hstep
    have hrun : c.running = true := h.running.mpr (by rw [hpc]; nofun)
    rw [hpc] at hq hans
    simp only [inHand, map_nil, append_nil] at hq hans
    have hone := (hseq.mono (subset_append_left _ _)).append
      ((Sequential.of_boltUpdate op commit c.db).mono (subset_append_right c.failures _))
    refine ⟨⟨_, _, hone, ?_, ?_⟩, h.numbered, ⟨fun _ h => (by cases h), fun _ => hrun⟩,
      fun h => (by cases h), trivial⟩
    · simp only [inHand]
      rw [hq, append_assoc ops [op]]
      rfl
    · rw [map_append, zip_append (by rw [length_map, hseq.length]), hans]
      rfl
  · -- send
    rename_i op res rest hpc
    cases hstep
    have hrun : c.running = true := h.running.mpr (by rw [hpc]; nofun)
    obtain ⟨hhand, hbusy⟩ := inHand_after_alone rest
    have hne := after_ne_none (CommitterPC.alone (σ := σ) (ε := ε)) (fun _ h => by cases h) rest
    rw [hpc] at hq hans
    refine ⟨⟨ops, rs, hseq, ?_, ?_⟩, h.numbered, ⟨fun _ => hne, fun _ => hrun⟩,
      fun hcon => absurd hcon hne, hbusy⟩
    · simp only [hhand]
      simpa only [inHand] using hq
    · simp only [hhand, map_nil, append_nil]
      simpa only [inHand, map_cons, map_nil] using hans
  · cases hstep

/-! ### Every write is answered -/

theorem Grouped.counts (h : Grouped db₀ c) :
    c.answers.length + (inHand c.pc).2.length + (inHand c.pc).1.length + c.pending.length =
      c.queued.length := by
  obtain ⟨ops, rs, hseq, hq, hans⟩ := h.settled
  have hlen := congrArg List.length hans
  rw [length_zip, length_map, hseq.length, Nat.min_self, length_append,
    length_map] at hlen
  rw [hq, length_append, length_append, hlen]

/-- The moves of the committer, as opposed to those of the writers. -/
def Commits : CommitEvent σ ε → Prop
  | .update _ => False
  | _ => True

/-- How far the committer is from the next answer. -/
def offset : CommitterPC σ ε → ℕ
  | .none => 0
  | .starting => 4
  | .loop => 3
  | .took _ => 2
  | .answering _ => 1
  | .alone _ => 1
  | .sending _ _ _ => 0

/-- A bound on the moves of the committer before it answers the write numbered `i`. -/
def wait (c : Committer σ ε) (i : ℕ) : ℕ := 4 * (i + 1 - c.answers.length) + offset c.pc

theorem offset_after (pc : List (CommitOp σ ε) → CommitterPC σ ε) (h : ∀ l, offset (pc l) = 1)
    (rest : List (CommitOp σ ε)) : offset (CommitterPC.after pc rest) ≤ 3 := by
  cases rest with
  | nil => exact Nat.le_refl 3
  | cons op rest =>
    rw [CommitterPC.after, h]
    omega

/-- INTERNAL: While a write is unanswered the committer can move. -/
theorem Grouped.enabled (h : Grouped db₀ c) (hi : c.answers.length < c.queued.length) :
    ∃ e t, Commits e ∧ c.step e = some t := by
  suffices hsome : ∃ e, Commits e ∧ (c.step e).isSome = true by
    obtain ⟨e, he, hs⟩ := hsome
    obtain ⟨t, ht⟩ := Option.isSome_iff_exists.mp hs
    exact ⟨e, t, he, ht⟩
  have hcounts := h.counts
  have hbusy := h.busy
  cases hpc : c.pc with
  | none =>
    rw [hpc, h.idle hpc] at hcounts
    simp only [inHand, length_nil] at hcounts
    omega
  | starting =>
    refine ⟨.start, trivial, ?_⟩
    simp only [Committer.step, hpc, Option.isSome_some]
  | loop =>
    refine ⟨.take, trivial, ?_⟩
    cases hp : c.pending <;> simp only [Committer.step, hpc, hp, Option.isSome_some]
  | took batch =>
    refine ⟨.shared none, trivial, ?_⟩
    cases hr : (boltUpdate (runAll batch) none c.db).2 <;>
      simp only [Committer.step, hpc, hr, Option.isSome_some]
  | answering rest =>
    rw [hpc] at hbusy
    obtain ⟨op, rest, rfl⟩ := exists_cons_of_ne_nil hbusy
    refine ⟨.answer, trivial, ?_⟩
    simp only [Committer.step, hpc, Option.isSome_some]
  | alone rest =>
    rw [hpc] at hbusy
    obtain ⟨op, rest, rfl⟩ := exists_cons_of_ne_nil hbusy
    refine ⟨.alone none, trivial, ?_⟩
    simp only [Committer.step, hpc, Option.isSome_some]
  | sending op res rest =>
    refine ⟨.send, trivial, ?_⟩
    simp only [Committer.step, hpc, Option.isSome_some]

/-- INTERNAL: Every move of the committer brings the answer nearer, and no writer moves it away. -/
theorem Grouped.wait_step (h : Grouped db₀ c) {i : ℕ} (hi : c.answers.length ≤ i)
    (hq : i < c.queued.length) (hstep : c.step e = some t) :
    wait t i ≤ wait c i ∧ (Commits e → wait t i < wait c i) := by
  have hcounts := h.counts
  have hpcs : c.pc ≠ .none := by
    intro hpc
    rw [hpc, h.idle hpc] at hcounts
    simp only [inHand, length_nil] at hcounts
    omega
  unfold Committer.step at hstep
  unfold wait
  split at hstep
  · cases hstep
    simp only [h.running.mpr hpcs, if_true]
    exact ⟨Nat.le_refl _, fun hc => hc.elim⟩
  · rename_i hpc
    cases hstep
    simp only [hpc, offset]
    exact ⟨by omega, fun _ => by omega⟩
  · rename_i hpc
    split at hstep
    · rename_i hnil
      rw [hpc, hnil] at hcounts
      simp only [inHand, length_nil] at hcounts
      omega
    · cases hstep
      simp only [hpc, offset]
      exact ⟨by omega, fun _ => by omega⟩
  · rename_i commit batch hpc
    simp only at hstep
    split at hstep
    · cases hstep
      simp only [hpc, offset]
      exact ⟨by omega, fun _ => by omega⟩
    · cases hstep
      simp only [hpc, offset]
      exact ⟨by omega, fun _ => by omega⟩
  · rename_i op rest hpc
    cases hstep
    have hafter := offset_after (σ := σ) (ε := ε) .answering (fun _ => rfl) rest
    simp only [hpc, length_append, length_singleton]
    rw [show offset (CommitterPC.answering (op :: rest)) = 1 from rfl]
    exact ⟨by omega, fun _ => by omega⟩
  · rename_i hpc
    cases hstep
    simp only [hpc, offset]
    exact ⟨by omega, fun _ => by omega⟩
  · rename_i op res rest hpc
    cases hstep
    have hafter := offset_after (σ := σ) (ε := ε) .alone (fun _ => rfl) rest
    simp only [hpc, length_append, length_singleton]
    rw [show offset (CommitterPC.sending op res rest) = 0 from rfl]
    exact ⟨by omega, fun _ => by omega⟩
  · cases hstep

/-! ### The equivalence -/

/-- The writes whose result is nil. -/
def successful (ops : List (CommitOp σ ε)) (rs : List (Option ε)) : List (CommitOp σ ε) :=
  ((ops.zip rs).filter fun x => x.2.isNone).map Prod.fst

/-- The writes alone, each in a transaction that its commit does not fail. -/
def replay (ops : List (CommitOp σ ε)) (db : σ) : σ :=
  ops.foldl (fun db op => (boltUpdate op.fn none db).1) db

/-- INTERNAL: The writes that fail leave no trace. -/
theorem Sequential.replay (h : Sequential bad db ops rs db') :
    db' = Guarantees.replay (successful ops rs) db := by
  induction h with
  | nil => rfl
  | done hop _ ih =>
    rw [ih]
    show _ = Guarantees.replay _ (boltUpdate _ none _).1
    rw [boltUpdate, hop]
    rfl
  | failed _ _ ih => exact ih
  | refused _ _ _ ih => exact ih

/-- **Group commit.** In every state of every run, with any writes failing and any commits
failing:
the database is in the state that the writes settled so far reach one by one, each in its own
transaction in the order they were queued, which is the state the successful ones among them
reach alone, and a write is refused only by its own function or by the failure of its own commit;
the answers sent are the results of these writes, in the same order, none of them
twice; a pending write has a running committer; when there is no committer every write is settled
and answered; and an unanswered write has a committer that can move, whose every move brings its
answer nearer. -/
theorem group_commit_is_one_by_one (db₀ : σ) {c : Committer σ ε}
    (hrun : Reach Committer.step (fun _ _ => True) (· = { db := db₀ }) c) :
    (∃ ops rs todo unsent, Sequential c.failures db₀ ops rs c.db ∧
      c.db = replay (successful ops rs) db₀ ∧
      c.queued = ops ++ todo ∧ (ops.map CommitOp.no).zip rs = c.answers ++ unsent) ∧
    c.queued.map CommitOp.no = List.range c.queued.length ∧
    (c.pending ≠ [] → c.running = true ∧ c.pc ≠ .none) ∧
    (c.pc = .none → ∃ rs, Sequential c.failures db₀ c.queued rs c.db ∧
      c.answers = (c.queued.map CommitOp.no).zip rs) ∧
    (∀ i, c.answers.length ≤ i → i < c.queued.length →
      (∃ e t, Commits e ∧ c.step e = some t) ∧
      ∀ e t, c.step e = some t → wait t i ≤ wait c i ∧ (Commits e → wait t i < wait c i)) := by
  have h : Grouped db₀ c := by
    refine hrun.invariant (Grouped db₀) ?_ fun s a t hs _ hstep => hs.step hstep
    rintro _ rfl
    exact grouped_start db₀
  obtain ⟨ops, rs, hseq, hq, hans⟩ := h.settled
  refine ⟨⟨ops, rs, _, _, hseq, hseq.replay, by rw [hq, List.append_assoc], hans⟩, h.numbered,
    fun hp => ?_, fun hpc => ?_, fun i hi hlt => ⟨h.enabled (Nat.lt_of_le_of_lt hi hlt),
      fun e t hstep => h.wait_step hi hlt hstep⟩⟩
  · have hpc : c.pc ≠ .none := fun hpc => hp (h.idle hpc)
    exact ⟨h.running.mpr hpc, hpc⟩
  · rw [hpc, h.idle hpc] at hq
    rw [hpc] at hans
    simp only [inHand, List.append_nil, List.map_nil] at hq hans
    refine ⟨rs, ?_, ?_⟩
    · rw [hq]
      exact hseq
    · rw [hq, hans]

/-- Two writers meet in one transaction, and the write of the first of them fails it. -/
def failShared : List (CommitEvent ℕ String) :=
  [.update fun _ => .error "full", .start, .update fun n => .ok (n + 5), .take, .shared none,
    .alone none, .send, .alone none, .send, .take]

/-- There is no committer. -/
def stopped : CommitterPC σ ε → Bool
  | .none => true
  | _ => false

/-- Only the second write of `failShared` is in the database, and each writer has its answer. -/
theorem group_commit_fail_shared :
    ∃ c, execute Committer.step ({ db := 0 } : Committer ℕ String) failShared = some c ∧ c.db = 5 ∧
      c.answers = [(0, some "full"), (1, none)] ∧
      ∃ rs, Sequential c.failures 0 c.queued rs c.db ∧
        c.answers = (c.queued.map CommitOp.no).zip rs := by
  have hrun : (execute Committer.step ({ db := 0 } : Committer ℕ String) failShared).any
      (fun c => c.db = 5 ∧ c.answers = [(0, some "full"), (1, none)] ∧ stopped c.pc = true) =
        true := by
    decide
  obtain ⟨c, hc, hP⟩ := exists_of_execute hrun
  simp only [decide_eq_true_eq] at hP
  obtain ⟨hdb, hans, hstop⟩ := hP
  have hpc : c.pc = .none := by
    cases hpc : c.pc with
    | none => rfl
    | _ =>
      rw [hpc] at hstop
      cases hstop
  have hany : ∀ (c : Committer ℕ String) (e : CommitEvent ℕ String),
      (fun _ _ => true : Committer ℕ String → CommitEvent ℕ String → Bool) c e = true → True :=
    fun _ _ _ => trivial
  have hreach : Reach Committer.step (fun _ _ => True) (· = ({ db := 0 } : Committer ℕ String)) c :=
    Reach.of_execute hany (.start rfl) (by decide) hc
  exact ⟨c, hc, hdb, hans, (group_commit_is_one_by_one 0 hreach).2.2.2.1 hpc⟩

end Mqttv5.Guarantees
