import Mqttv5.Analysis.Session

/-!
# Packet identifiers have one owner

The identifier table among the callers of the engine. An identifier is held by a caller between
`AllocateID` and `Register` or `ReleaseID`, and by a flow from `Register` until the delete of its
record has completed. `Restore` replaces the table, so the account is kept by the runs in which
no caller holds an identifier or a reservation, and no write is in progress, when it does.
-/

set_option autoImplicit false

namespace Mqttv5.Guarantees

open Mqttv5.Computation Model Program Interface Analysis

variable {s : Sys} {own : PacketID → Option OutPtr} {id : PacketID} {p : OutPtr}

/-- A caller, by its place among those that hold an identifier, or a flow. -/
inductive Holder
  | caller (i : ℕ)
  | flow (p : OutPtr)
  deriving DecidableEq

/-- Who holds identifier `id`: a caller that has neither registered nor released it, a flow of
the session, an orphan, or a finished flow whose delete has not completed. -/
def Holds (s : Sys) (id : PacketID) : Holder → Prop
  | .caller i => ∃ o, s.held[i]? = some (id, o)
  | .flow p => s.eng.out.get id = some p ∨
      (∃ r, s.eng.orphans.get r = some p ∧ (s.eng.outs p).id = id) ∨
      ((s.eng.outs p).finished = true ∧
        ∃ j ∈ s.eng.queues (outKey id), j.owner = .out p ∧ isSettle j.kind = true)

section

variable (h : Owners s.eng s.held s.reserved own)
include h

/-- INTERNAL: A flow that holds an identifier is its recorded owner. -/
theorem own_of_holds (hp : Holds s id (.flow p)) :
    own id = some p := by
  rcases hp with hlive | ⟨r, horphan, hid⟩ | ⟨-, j, hj, howner, -⟩
  · exact h.live id p hlive
  · have hown := (h.orphan r p horphan).1
    rwa [hid] at hown
  · exact h.of_job hj howner

/-- INTERNAL: A caller and a flow never hold one identifier. -/
theorem caller_not_flow {i : ℕ}
    (hi : Holds s id (.caller i)) (hp : Holds s id (.flow p)) : False := by
  obtain ⟨o, hget⟩ := hi
  have hnone := (h.caller id o (List.mem_of_getElem? hget)).1
  rw [own_of_holds h hp] at hnone
  cases hnone

/-- INTERNAL: An identifier has one holder. -/
theorem holds_unique {a b : Holder} (ha : Holds s id a) (hb : Holds s id b) : a = b := by
  cases a with
  | caller i =>
    cases b with
    | caller j =>
      obtain ⟨o, hi⟩ := ha
      obtain ⟨o', hj⟩ := hb
      have hi' : (s.held.map Prod.fst)[i]? = some id := by rw [List.getElem?_map, hi]; rfl
      have hj' : (s.held.map Prod.fst)[j]? = some id := by rw [List.getElem?_map, hj]; rfl
      have hlt : i < (s.held.map Prod.fst).length := (List.getElem?_eq_some_iff.mp hi').1
      rw [(List.getElem?_inj hlt h.callers).mp (hi'.trans hj'.symm)]
    | flow p => exact (caller_not_flow h ha hb).elim
  | flow p =>
    cases b with
    | caller j => exact (caller_not_flow h hb ha).elim
    | flow q =>
      have hq := own_of_holds h hb
      rw [own_of_holds h ha] at hq
      cases hq
      rfl

/-- INTERNAL: A reservation leads to an identifier of the table. -/
theorem allocateID_some (hres : 0 < s.reserved) {o : Owner}
    (ho : o ≠ .none) : ∃ id e, allocateID s.eng o = some (id, e) ∧ 1 ≤ id ∧ id ≤ s.eng.ids.max := by
  obtain ⟨id, t', htake⟩ := take_some h.table hres o
  have hrange := (balanced_take h.table ho hres htake).2.2.1
  refine ⟨id, { s.eng with ids := t' }, ?_, hrange⟩
  unfold allocateID
  rw [htake]
  rfl

end

/-- **Packet identifiers have one owner.** In every state of every run in which `Restore` finds
no identifier, reservation or write in progress: an identifier has one holder; a Register finds
no flow under its identifier; the tokens are the identifiers owned and the reservations; no
release has blocked; and a reservation leads to an identifier in 1..max.
SOURCE: engine.go:835-917, 273-351, outbound.go:92-172 -/
theorem identifiers_have_one_owner {cfg : Config} {max : ℕ} (hmax : 0 < max) {s : Sys}
    (h : Reach Sys.step (AtRest False) (· = Sys.init cfg max) s) :
    (∀ id a b, Holds s id a → Holds s id b → a = b) ∧
    (∀ m now t, s.step (.register m now) = some t → s.eng.out.get m.id = none) ∧
    s.eng.ids.inUse = (used s.eng.ids).card + s.reserved ∧
    s.eng.stuck = false ∧
    (0 < s.reserved → ∀ o, o ≠ Owner.none →
      ∃ id e, allocateID s.eng o = some (id, e) ∧ 1 ≤ id ∧ id ≤ s.eng.ids.max) := by
  have hsession : Session False s := Session.run hmax (fun _ _ ha => ha) h
  obtain ⟨own, hown⟩ := hsession.core.owners
  refine ⟨fun _ _ _ => holds_unique hown, ?_, hown.table.tokens, hown.running,
    fun hres _ ho => allocateID_some hown hres ho⟩
  intro m now t hstep
  have hheld : (m.id, Owner.publish) ∈ s.held := by
    cases (stepped hstep).2
    assumption
  have hnone := (hown.caller m.id .publish hheld).1
  cases hget : s.eng.out.get m.id with
  | none => rfl
  | some p =>
    rw [hown.live m.id p hget] at hnone
    cases hnone

/-- A caller takes an identifier and another reserves one. -/
def takeOne : List Event := [.reserve, .take .publish, .reserve]

/-- The first caller alone holds identifier 1, and the second gets one. -/
theorem identifiers_have_one_owner_taken :
    ∃ s, execute Sys.step (Sys.init {} 3) takeOne = some s ∧
      s.held = [(1, .publish)] ∧ s.reserved = 1 ∧ s.eng.ids.inUse = 2 ∧
      s.eng.ids.inUse = (used s.eng.ids).card + s.reserved ∧
      (∀ a, Holds s 1 a → a = .caller 0) ∧ s.eng.stuck = false ∧
      ∃ id e, allocateID s.eng .publish = some (id, e) ∧ 1 ≤ id ∧ id ≤ s.eng.ids.max := by
  obtain ⟨s, hs, hP⟩ := exists_of_execute (show (execute Sys.step (Sys.init {} 3) takeOne).any
    (fun s => s.held = [(1, .publish)] ∧ s.reserved = 1 ∧ s.eng.ids.inUse = 2) = true by decide)
  simp only [decide_eq_true_eq] at hP
  obtain ⟨hheld, hres, huse⟩ := hP
  have hreach : Reach Sys.step (AtRest False) (· = Sys.init {} 3) s :=
    reach_of_execute (.start rfl) (by decide) hs
  obtain ⟨hone, -, htokens, hstuck, halloc⟩ := identifiers_have_one_owner (by decide) hreach
  have hcaller : Holds s 1 (.caller 0) := ⟨.publish, by rw [hheld]; rfl⟩
  exact ⟨s, hs, hheld, hres, huse, htokens, fun a ha => hone 1 a _ ha hcaller, hstuck,
    halloc (by omega) .publish (by decide)⟩

/-- A caller takes an identifier, the write of the meta fails the session, `Restore` replaces
the table, and the next caller is given the same identifier. -/
def takeOverRestore : List Event :=
  [.reserve, .take .publish, .setMeta { clientID := "x" }, .setMetaStore (some 1) false,
    .setMetaReturn, .load, .restore, .reserve, .take .publish]

/-- With a caller between `AllocateID` and `Register` when the session fails and is restored,
two callers hold one identifier. -/
theorem identifier_held_twice :
    ∃ s, execute Sys.step (Sys.init { store := true } 65535) takeOverRestore = some s ∧
      ∃ a b, a ≠ b ∧ Holds s 1 a ∧ Holds s 1 b := by
  obtain ⟨s, hs, hP⟩ := exists_of_execute
    (show (execute Sys.step (Sys.init { store := true } 65535) takeOverRestore).any
      (fun s => s.held = [(1, .publish), (1, .publish)]) = true by decide)
  simp only [decide_eq_true_eq] at hP
  refine ⟨s, hs, .caller 0, .caller 1, by decide, ?_, ?_⟩
  · exact ⟨.publish, by rw [hP]; rfl⟩
  · exact ⟨.publish, by rw [hP]; rfl⟩

end Mqttv5.Guarantees
