import Mathlib.Data.List.Basic
import Mathlib.Data.Option.Basic

/-!
# Guarded runs of a transition system

A system is a partial step function `step : S → E → Option S`: the event carries every
choice, and `none` means the event cannot happen in the state. `Reach step ok init` is
the set of states a run from `init` can be in when every step it takes meets the
condition `ok`; conditions are how a run is restricted to the callers, brokers and
failures a statement speaks about. `Reach.invariant` is the induction all safety
statements go through.
-/

set_option autoImplicit false

namespace Mqttv5.Computation

variable {S E : Type}

/-- The states of the runs from `init` whose every step meets `ok`. -/
inductive Reach (step : S → E → Option S) (ok : S → E → Prop) (init : S → Prop) : S → Prop
  | start {s : S} (h : init s) : Reach step ok init s
  | next {s t : S} (a : E) (hs : Reach step ok init s) (ha : ok s a) (ht : step s a = some t) :
      Reach step ok init t

/-- The state after a list of events, when each of them can happen in its turn. -/
def execute (step : S → E → Option S) : S → List E → Option S
  | s, [] => some s
  | s, a :: rest => (step s a).bind fun t => execute step t rest

/-- Every step of the run along a list of events meets a (decidable) condition. -/
def meets (step : S → E → Option S) (ok : S → E → Bool) : S → List E → Bool
  | _, [] => true
  | s, a :: rest => ok s a && (match step s a with
    | some t => meets step ok t rest
    | none => true)

variable {step : S → E → Option S} {ok : S → E → Prop} {init : S → Prop}

/-- INTERNAL: **the invariant rule**: what holds initially and is kept by every step that
meets the condition holds in every state of every such run. -/
theorem Reach.invariant (I : S → Prop) (hinit : ∀ s, init s → I s)
    (hstep : ∀ s a t, I s → ok s a → step s a = some t → I t) {s : S}
    (h : Reach step ok init s) : I s := by
  induction h with
  | start h => exact hinit _ h
  | next a _ ha ht ih => exact hstep _ a _ ih ha ht

/-- A run under a stronger condition is a run under a weaker one. -/
theorem Reach.mono {ok' : S → E → Prop} {init' : S → Prop} (hok : ∀ s a, ok s a → ok' s a)
    (hinit : ∀ s, init s → init' s) {s : S} (h : Reach step ok init s) :
    Reach step ok' init' s := by
  induction h with
  | start h => exact .start (hinit _ h)
  | next a _ ha ht ih => exact .next a ih (hok _ _ ha) ht

/-- What a list of events leads to can be evaluated. -/
theorem exists_of_execute {P : S → Bool} {s : S} {as : List E}
    (h : (execute step s as).any P = true) : ∃ t, execute step s as = some t ∧ P t = true := by
  cases hs : execute step s as with
  | none =>
    rw [hs] at h
    cases h
  | some t =>
    rw [hs] at h
    exact ⟨t, rfl, h⟩

/-- A list of events that can be executed, each meeting the condition, is a run. -/
theorem Reach.of_execute {okb : S → E → Bool} (hok : ∀ s a, okb s a = true → ok s a) {s t : S}
    {as : List E} (hs : Reach step ok init s) (hm : meets step okb s as = true)
    (ht : execute step s as = some t) : Reach step ok init t := by
  induction as generalizing s with
  | nil =>
    obtain rfl : s = t := by simpa [execute] using ht
    exact hs
  | cons a rest ih =>
    obtain ⟨u, hu, hrest⟩ := Option.bind_eq_some_iff.mp ht
    simp only [meets, hu, Bool.and_eq_true] at hm
    exact ih (.next a hs (hok _ _ hm.1) hu) hm.2 hrest

end Mqttv5.Computation
