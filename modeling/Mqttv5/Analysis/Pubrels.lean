import Mqttv5.Analysis.Session

/-!
# The PUBRELs of a connection

A resume puts one PUBREL for each flow waiting for its PUBCOMP into the control queue, in PUBREC
order. From then on the queue is only added to at its end and handed out from its front, so the
PUBRELs that leave on the connection are those of the resume, in their order, and later ones
behind them. The connection's Receive Maximum does not change meanwhile.
-/

set_option autoImplicit false

namespace Mqttv5.Analysis

open Mqttv5.Computation Model Program Interface List

/-- The PUBRELs of a control queue. -/
def relsOf (ctrl : List CtrlFrame) : List CtrlFrame := ctrl.filter fun c => c.typ = .PUBREL

/-- The PUBRELs among frames handed out. -/
def pubrels (fs : List Frame) : List CtrlFrame :=
  fs.filterMap fun
    | .control c => if c.typ = .PUBREL then some c else none
    | .publish _ _ _ => none

@[simp]
theorem pubrels_append (fs fs' : List Frame) : pubrels (fs ++ fs') = pubrels fs ++ pubrels fs' :=
  filterMap_append ..

/-- Packets can be handed out. -/
def Bound (s : Sys) : Prop := s.eng.failure = none ∧ s.eng.gen ≠ 0

structure Relayed (s t : Sys) : Prop where
  quotaMax : t.eng.quotaMax = s.eng.quotaMax
  bound : Bound s → ∃ rest extra,
    pubrels t.sent ++ rest = pubrels s.sent ++ relsOf s.eng.ctrl ++ extra ∧
    (Bound t → rest = relsOf t.eng.ctrl)
  unbound : ¬ Bound s → t.sent = s.sent ∧ ¬ Bound t

namespace Relayed

variable {s t : Sys}

/-- A step that hands nothing out. -/
theorem of_statics (hs : statics t.eng = statics s.eng) (hsent : t.sent = s.sent)
    (hctrl : ∃ extra, relsOf t.eng.ctrl = relsOf s.eng.ctrl ++ extra) : Relayed s t := by
  obtain ⟨extra, hextra⟩ := hctrl
  have hf : t.eng.failure = s.eng.failure := same_failure hs
  have hg : t.eng.gen = s.eng.gen := same_gen hs
  refine ⟨congrArg Statics.quotaMax hs, ?_, ?_⟩
  · intro _
    refine ⟨relsOf t.eng.ctrl, extra, ?_, fun _ => rfl⟩
    rw [hsent, hextra, append_assoc]
  · intro hnot
    refine ⟨hsent, ?_⟩
    intro hb
    exact hnot ⟨hf ▸ hb.1, hg ▸ hb.2⟩

theorem of_ctrl (hs : statics t.eng = statics s.eng) (hsent : t.sent = s.sent)
    (hctrl : t.eng.ctrl = s.eng.ctrl) : Relayed s t :=
  of_statics hs hsent ⟨[], by rw [hctrl, append_nil]⟩

theorem of_acts (h : Acts Never s.eng t.eng) (hsent : t.sent = s.sent) : Relayed s t :=
  of_ctrl h.statics hsent (congrArg Inside.ctrl h.inside)

/-- A step after which nothing is handed out. -/
theorem of_over (hq : t.eng.quotaMax = s.eng.quotaMax) (hsent : t.sent = s.sent)
    (hb : ¬ Bound t) : Relayed s t := by
  refine ⟨hq, ?_, fun _ => ⟨hsent, hb⟩⟩
  intro _
  exact ⟨relsOf s.eng.ctrl, [], by rw [hsent, append_nil], fun h => absurd h hb⟩

/-- The failure of the session. -/
theorem failLocked {e : Engine} (err : StoreError) (hs : statics e = statics s.eng)
    (ht : t.eng = Program.failLocked e err) (hctrl : e.ctrl = s.eng.ctrl)
    (hsent : t.sent = s.sent) : Relayed s t := by
  by_cases hf : e.failure = none
  · have hfail := statics_failLocked e err hf
    refine of_over ?_ hsent ?_
    · rw [ht]
      exact (congrArg Statics.quotaMax hfail).trans (congrArg Statics.quotaMax hs)
    · rintro ⟨hnone, -⟩
      rw [ht] at hnone
      have hsome := congrArg Statics.failure hfail
      have hsome : (Program.failLocked e err).failure = some err := hsome
      rw [hsome] at hnone
      cases hnone
  · rw [failLocked_of_failed e err hf] at ht
    refine of_ctrl (by rw [ht]; exact hs) hsent (by rw [ht]; exact hctrl)

/-- A write gets on. -/
theorem stage {k : RecordKey} {st : Stage} (ht : t.eng = setStage s.eng k st)
    (hsent : t.sent = s.sent) : Relayed s t := by
  refine of_ctrl (by rw [ht]; exact statics_setStage s.eng k st) hsent ?_
  obtain ⟨queues, heq⟩ := setStage_eq s.eng k st
  rw [ht, heq]

/-- A batch handed to the writer. -/
theorem handed {r : Engine × List Frame} (hs : statics r.1 = statics s.eng)
    (hctrl : pubrels r.2 ++ relsOf r.1.ctrl = relsOf s.eng.ctrl)
    (hnone : ¬ Bound s → r.2 = []) : Relayed s (s.handed r) := by
  refine ⟨congrArg Statics.quotaMax hs, ?_, ?_⟩
  · intro _
    refine ⟨relsOf r.1.ctrl, [], ?_, fun _ => rfl⟩
    show pubrels (s.sent ++ r.2) ++ relsOf r.1.ctrl = _
    rw [pubrels_append, append_assoc, hctrl, append_nil]
  · intro hnot
    refine ⟨?_, ?_⟩
    · show s.sent ++ r.2 = s.sent
      rw [hnone hnot, append_nil]
    · rintro ⟨hf, hg⟩
      have hfail : r.1.failure = s.eng.failure := same_failure hs
      have hgen : r.1.gen = s.eng.gen := same_gen hs
      exact hnot ⟨hfail ▸ hf, hgen ▸ hg⟩

end Relayed

end Mqttv5.Analysis
