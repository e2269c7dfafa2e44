import Mqttv5.Analysis.Session

/-!
# What a step does to one flow

The operations that change more than the outbound flows, followed flow by flow, and from all of
them what one step of the system does to the flows: their books are kept, one is registered,
`Connected` or `Collect` changes them, or `Restore` brings them back.
-/

set_option autoImplicit false

namespace Mqttv5.Analysis

open Model Program Interface

namespace Moves

variable {G : Out → Out → Prop} (e : Engine)

theorem handlePubrec (id : PacketID) (rc : ReasonCode) (refused : Option PubErr) :
    Moves Never e (handlePubrec e id rc refused) := by
  unfold Program.handlePubrec
  split
  · exact refl e
  · split
    · exact of_eq rfl rfl
    · rename_i p _
      split
      · exact refl e
      · split
        · exact of_eq rfl rfl
        · split
          · exact ((Acts.setReason e _ rc refused).trans (.endAcked _ _ _)).toMoves
          · have hrec : Moves Never e (Program.setOut (Program.unlinkLocked e p) p fun o =>
                { o with phase := .awaitPubcomp, seq := (Program.unlinkLocked e p).nextSeq }) :=
              (setOut _ p _ (.inl ⟨rfl, rfl, rfl, rfl, rfl, rfl, fun h => h⟩)).after rfl rfl
            exact hrec.trans ((Acts.putOutLocked _ p).toMoves.after rfl rfl)

/-! ### Connections -/

theorem foldl_loseFlow {policy : SessionLossPolicy} (now : Time) (l : List OutPtr) :
    ∀ {e : Engine}, e.cfg.sessionLoss = policy →
      Moves (Renews policy now true) e (l.foldl (Program.loseFlow now) e) := by
  induction l with
  | nil => exact fun _ => refl _
  | cons p rest ih =>
    intro e hcfg
    have hlose : Acts (Renews policy now true) e (Program.loseFlow now e p) := .loseFlow p hcfg
    exact hlose.toMoves.trans (ih ((congrArg (·.cfg.sessionLoss) hlose.statics :).trans hcfg))

theorem sessionLostLocked {policy : SessionLossPolicy} (now : Time) {e : Engine}
    (hcfg : e.cfg.sessionLoss = policy) :
    Moves (Renews policy now true) e (sessionLostLocked e now) := by
  unfold Program.sessionLostLocked
  simp only
  have hin := Inward.lose e
  refine hin.moves.trans ((foldl_loseFlow now _ ?_).after rfl rfl)
  exact (congrArg (·.cfg.sessionLoss) hin.statics :).trans hcfg

theorem connected (e : Engine) (ci : ConnInfo) (now : Time) :
    Moves (Renews e.cfg.sessionLoss now !ci.sessionPresent) e (connected e ci now) := by
  unfold Program.connected
  split
  · exact refl e
  · have hbind : Moves (Renews e.cfg.sessionLoss now !ci.sessionPresent) e (bindLocked e ci) := by
      unfold bindLocked
      refine (foldl clearCounted (fun e p => ?_) _ _).after rfl rfl
      exact setOut e p _ (.inl ⟨rfl, rfl, rfl, rfl, rfl, rfl, fun h => h⟩)
    have hcfg : (bindLocked e ci).cfg = e.cfg := by
      have hstat := statics_bindLocked e ci
      exact congrArg Statics.cfg hstat
    have hlim : ∀ d : Engine, Moves (Renews e.cfg.sessionLoss now !ci.sessionPresent) d
        (rewindLocked (limitLocked d ci) ci) := fun d =>
      (Acts.limitLocked (fun _ => .downgrade) d ci).toMoves.as rfl rfl
    refine hbind.trans (Moves.trans ?_ (hlim _))
    split
    · exact of_eq rfl rfl
    · rename_i hpresent
      rw [show (!ci.sessionPresent) = true by simpa using hpresent]
      exact sessionLostLocked now (by rw [hcfg])

theorem disconnected {G : Out → Out → Prop} (e : Engine) (l : LinkID) :
    Moves G e (disconnected e l) := by
  unfold Program.disconnected
  split <;> exact of_eq rfl rfl

/-! ### Collect -/

theorem collect (e : Engine) (gen upTo : ℕ) (now : Time) :
    Moves (Sends now) e (collect e gen upTo now).1 := by
  unfold Program.collect
  split
  · exact refl e
  · simp only
    exact ((Inward.collectControlLoop _ _).moves.trans (Acts.collectLoop _ now _ _).toMoves).after
      rfl rfl

/-! ### Store writes -/

variable {G : Out → Out → Prop} (e : Engine)

theorem setStage (k : RecordKey) (st : Stage) : Moves G e (setStage e k st) := by
  unfold Program.setStage
  split <;> exact of_eq rfl rfl

theorem failLocked (err : StoreError) : Moves G e (failLocked e err) := by
  by_cases hf : e.failure = none
  · have heq := failLocked_eq e err hf
    rw [heq]
    refine ⟨rfl, fun q => ?_⟩
    simp only
    split
    · exact .single (.inl ⟨rfl, rfl, rfl, rfl, rfl, rfl, fun _ => rfl⟩)
    · exact .refl
  · rw [failLocked_of_failed e err hf]
    exact refl e

theorem finishJob (k : RecordKey) (j : Job) (res : Option JobErr) :
    Moves Never e (finishJob e k j res) := by
  have hafter := (Acts.afterJob e j res).toMoves
  rcases Core.finishJob_cases e k j res with ⟨-, ⟨-, heq⟩ | ⟨err, -, heq⟩⟩ | ⟨-, heq⟩
  · rw [heq]
    exact hafter.as rfl rfl
  · rw [heq]
    exact hafter.trans ((failLocked _ err).after rfl rfl)
  · rw [heq]
    exact of_eq rfl rfl

theorem discardLocked : Moves G e (discardLocked e).1 := by
  obtain ⟨ids, stuck, out, refs, orphans, heq⟩ := discardLocked_eq e
  rw [heq]
  refine ⟨rfl, fun q => ?_⟩
  simp only
  split
  · exact .single (.inl ⟨rfl, rfl, rfl, rfl, rfl, rfl, fun _ => rfl⟩)
  · exact .refl

end Moves

/-! ### Register and Restore -/

/-- The flows after a registration that is not refused: the new one, and the others as they
were. -/
theorem register_flows (e : Engine) (m : Message) (now : Time) (hf : e.failure = none) :
    (register e m now).1.nextOut = e.nextOut + 1 ∧
      (register e m now).1.outs = Function.update e.outs e.nextOut (newOut e m now) := by
  unfold register
  simp only [hf, Option.isSome_none, Bool.false_eq_true, if_false]
  split <;> exact ⟨rfl, rfl⟩

theorem register_refused (e : Engine) (m : Message) (now : Time) (hf : e.failure ≠ none) :
    Moves Never e (register e m now).1 := by
  unfold register
  rw [if_pos (Option.isSome_iff_ne_none.mpr hf)]
  exact (Acts.releaseLocked e _ _).toMoves

/-! ### One step -/

/-- The events that may leave it at the books of the flows. -/
def keepsBooks : Event → Bool
  | .collect _ _ _ => false
  | .restart => false
  | _ => true

/-- A step as the flows of the session see it. -/
inductive FlowStep (s : Sys) : Event → Sys → Prop
  | books {a : Event} {t : Sys} (ha : keepsBooks a = true) (h : Moves Never s.eng t.eng) :
      FlowStep s a t
  | register {m : Message} {now : Time} {t : Sys} (hf : s.eng.failure = none)
      (hnext : t.eng.nextOut = s.eng.nextOut + 1)
      (houts : t.eng.outs = Function.update s.eng.outs s.eng.nextOut (newOut s.eng m now)) :
      FlowStep s (.register m now) t
  | connected {ci : ConnInfo} {now : Time} {t : Sys} (hf : s.eng.failure = none)
      (ht : t.eng = connected s.eng ci now) : FlowStep s (.connected ci now) t
  | collect {gen upTo : ℕ} {now : Time} :
      FlowStep s (.collect gen upTo now) (s.handed (collect s.eng gen upTo now))
  | restore {m : Meta} {recs : List Record} {t : Sys} (hloaded : s.loaded = some (m, recs))
      (h : Revives recs s.eng t.eng) : FlowStep s .restore t
  | restart {t : Sys} (h : Revives s.store.load.2 (new s.eng.cfg s.eng.ids.max) t.eng) :
      FlowStep s .restart t

/-- INTERNAL: **What a step does to the flows.** -/
theorem flowStep {s t : Sys} {a : Event} (hstep : s.step a = some t) : FlowStep s a t := by
  have hsame : ∀ {a : Event} {t : Sys}, keepsBooks a = true → t.eng.nextOut = s.eng.nextOut →
      t.eng.outs = s.eng.outs → FlowStep s a t :=
        fun ha hnext houts => .books ha (.of_eq hnext houts)
  cases (stepped hstep).2 with
  | register m now =>
    by_cases hf : s.eng.failure = none
    · obtain ⟨hnext, houts⟩ := register_flows s.eng m now hf
      exact .register hf hnext houts
    · exact .books rfl (register_refused s.eng m now hf)
  | releaseID => exact .books rfl (Acts.releaseLocked _ _ _).toMoves
  | withdraw => exact .books rfl (Acts.withdraw _ _).toMoves
  | adopt => exact .books rfl (Acts.adopt _ _ _).toMoves
  | puback => exact .books rfl (Acts.handlePuback _ _ _ _).toMoves
  | pubrec => exact .books rfl (.handlePubrec _ _ _ _)
  | pubcomp => exact .books rfl (Acts.handlePubcomp _ _).toMoves
  | receive => exact .books rfl (Answers.receive _ _ _).moves
  | ack => exact .books rfl (Answers.ack _ _).moves
  | pubrel => exact .books rfl (Answers.handlePubrel _ _).moves
  | connected ci now hf => exact .connected (by simpa using hf) rfl
  | disconnected => exact .books rfl (.disconnected _ _)
  | collect => exact .collect
  | collectControl => exact .books rfl (Inward.collectControl _ _).moves
  | callSettle | settleFailed | settled | ranAlone | ranStore => exact .books rfl (.setStage _ _ _)
  | finish => exact .books rfl (.finishJob _ _ _ _)
  | setMetaFailed => exact .books rfl (.failLocked _ _)
  | restored m recs e hl he => exact .restore hl (.restoreLocked he)
  | discardLocked => exact .books rfl (.discardLocked _)
  | restart t ht =>
    obtain ⟨e, he, rfl⟩ := Option.map_eq_some_iff.mp ht
    exact .restart (.restoreLocked he)
  | _ => exact hsame rfl rfl rfl

end Mqttv5.Analysis
