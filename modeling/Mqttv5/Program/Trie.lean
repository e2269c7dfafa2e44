import Mqttv5.Model.Session
import Mathlib.Data.List.SplitOn

/-!
# The topic filter trie

internal/trie/trie.go, with a node's `children` map as an association list. `ensure` and the
append of `Register` are one walk here (`Node.register`), and so are `path`, the removal and the
pruning of `Unregister` (`Node.unregister`). `Match` walks the list of the topic's levels, which
the source cuts out of the topic one at a time.

`levelsMatch` and `topicMatches` are MQTT 5 section 4.7, stated without the tree.
-/

set_option autoImplicit false

namespace Mqttv5.Program.Trie

open Model

def slash : UInt8 := 47

def plus : Bytes := [43]

def hash : Bytes := [35]

/-- SOURCE: trie.go:36-39 -/
structure Entry (α : Type) where
  id : ℕ
  handler : α

/-- SOURCE: trie.go:25-30 -/
inductive Node (α : Type) where
  | mk (children : List (Bytes × Node α)) (plusChild hashChild : Option (Node α))
      (handlers : List (Entry α))

variable {α : Type}

namespace Node

def empty : Node α := mk [] none none []

def children : Node α → List (Bytes × Node α)
  | mk c _ _ _ => c

def plusChild : Node α → Option (Node α)
  | mk _ p _ _ => p

def hashChild : Node α → Option (Node α)
  | mk _ _ h _ => h

def handlers : Node α → List (Entry α)
  | mk _ _ _ l => l

/-- An assignment to an element of `children`. -/
def setChild : List (Bytes × Node α) → Bytes → Node α → List (Bytes × Node α)
  | [], level, n => [(level, n)]
  | (k, m) :: rest, level, n => if k = level then (k, n) :: rest else
    (k, m) :: setChild rest level n

/-- Append an entry at the node of a filter, creating what is missing on the way. The levels
after a `#` are ignored.
SOURCE: trie.go:58-60, 211-244 -/
def register : List Bytes → Node α → Entry α → Node α
  | [], n, x => mk n.children n.plusChild n.hashChild (n.handlers ++ [x])
  | level :: levels, n, x =>
    if level = plus then
      mk n.children (some (register levels (n.plusChild.getD empty) x)) n.hashChild n.handlers
    else if level = hash then
      let h := n.hashChild.getD empty
      mk n.children n.plusChild
        (some (mk h.children h.plusChild h.hashChild (h.handlers ++ [x]))) n.handlers
    else
      mk (setChild n.children level (register levels ((n.children.lookup level).getD empty) x))
        n.plusChild n.hashChild n.handlers

/-- SOURCE: trie.go:32-34 -/
def isEmpty : Node α → Bool
  | mk c p h l => c.isEmpty && p.isNone && h.isNone && l.isEmpty

/-- `delete` of an element of `children`. -/
def delChild (c : List (Bytes × Node α)) (level : Bytes) : List (Bytes × Node α) :=
  c.filter fun x => x.1 ≠ level

/-- The entries without the first one that has `id`, if one has.
SOURCE: trie.go:74-87 -/
def dropEntry (id : ℕ) : List (Entry α) → Option (List (Entry α))
  | [] => none
  | x :: rest => if x.id = id then some rest else (dropEntry id rest).map (x :: ·)

/-- Remove the entry with `id` at the node of a filter, and the nodes this leaves empty on the
way back; `none` when there is no such node or no such entry.
SOURCE: trie.go:68-100, 252-277 -/
def unregister (id : ℕ) : List Bytes → Node α → Option (Node α)
  | [], n => (dropEntry id n.handlers).map fun l => mk n.children n.plusChild n.hashChild l
  | level :: levels, n =>
    if level = plus then
      match n.plusChild with
      | none => none
      | some child => (unregister id levels child).map fun child =>
        mk n.children (if child.isEmpty then none else some child) n.hashChild n.handlers
    else if level = hash then
      match n.hashChild with
      | none => none
      | some child => (dropEntry id child.handlers).map fun l =>
        let child := mk child.children child.plusChild child.hashChild l
        mk n.children n.plusChild (if child.isEmpty then none else some child) n.handlers
    else
      match n.children.lookup level with
      | none => none
      | some child => (unregister id levels child).map fun child =>
        mk (if child.isEmpty then delChild n.children level else setChild n.children level child)
          n.plusChild n.hashChild n.handlers

/-- What the `#` child of a node yields. -/
def hashHandlers (n : Node α) : List α :=
  match n.hashChild with
  | none => []
  | some h => h.handlers.map Entry.handler

/-- SOURCE: trie.go:164-207 -/
def matchLevels : List Bytes → Node α → List α
  | [], n => n.hashHandlers ++ n.handlers.map Entry.handler
  | level :: levels, n =>
    n.hashHandlers ++
      ((match n.plusChild with
        | none => []
        | some child => matchLevels levels child) ++
      (match n.children.lookup level with
        | none => []
        | some child => matchLevels levels child))

/-- A topic that starts with `$` matches its first level only literally.
SOURCE: trie.go:150-162 -/
def matchDollar (levels : List Bytes) (root : Node α) : List α :=
  match levels with
  | [] => []
  | level :: levels =>
    match root.children.lookup level with
    | none => []
    | some child => matchLevels levels child

end Node

/-- SOURCE: trie.go:279-282 -/
def splitLevels (s : Bytes) : List Bytes := s.splitOn slash

/-- SOURCE: trie.go:41-46 -/
structure Tree (α : Type) where
  root : Node α := .empty
  nextID : ℕ := 0

/-- SOURCE: trie.go:51-61 -/
def Tree.register (t : Tree α) (filter : Bytes) (h : α) : Tree α × ℕ :=
  ({ root := t.root.register (splitLevels filter) ⟨t.nextID + 1, h⟩, nextID := t.nextID + 1 },
    t.nextID + 1)

/-- SOURCE: trie.go:65-101 -/
def Tree.unregister (t : Tree α) (filter : Bytes) (id : ℕ) : Tree α × Bool :=
  match t.root.unregister id (splitLevels filter) with
  | none => (t, false)
  | some root => ({ t with root := root }, true)

/-- SOURCE: trie.go:104-108 -/
def Tree.reset (t : Tree α) : Tree α := { t with root := .empty }

/-- The levels of a filter match the levels of a topic: `+` one level, `#` all that are left. -/
def levelsMatch : List Bytes → List Bytes → Bool
  | [], [] => true
  | [], _ :: _ => false
  | f :: fs, ts =>
    if f = hash then true
    else match ts with
      | [] => false
      | t :: ts => (f = plus ∨ f = t) && levelsMatch fs ts

end Mqttv5.Program.Trie
