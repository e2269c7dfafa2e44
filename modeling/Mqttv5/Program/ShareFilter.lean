import Mqttv5.Program.Trie

/-!
# The filter of a shared subscription

The two functions of subscribe.go that take `$share/group/filter` apart: one to register and to
route a subscription, one to validate the filter it is made with.
-/

set_option autoImplicit false

namespace Mqttv5.Program

open Model

/-- `"$share/"` -/
def sharedSubPrefix : Bytes := [36, 115, 104, 97, 114, 101, 47]

/-- The group of a shared subscription, the filter its messages match, and whether it is shared.
SOURCE: subscribe.go:449-462 -/
def parseShareFilter (filter : Bytes) : Bytes × Bytes × Bool :=
  if sharedSubPrefix.isPrefixOf filter then
    let rest := filter.drop sharedSubPrefix.length
    match rest.idxOf? Trie.slash with
    | none => ([], filter, false)
    | some 0 => ([], filter, false)
    | some (i + 1) => (rest.take (i + 1), rest.drop (i + 2), true)
  else ([], filter, false)

/-- SOURCE: subscribe.go:420-432 -/
def stripShareGroup (filter : Bytes) : Bytes × Bool :=
  if sharedSubPrefix.isPrefixOf filter then
    let tail := filter.drop sharedSubPrefix.length
    match tail.idxOf? Trie.slash with
    -- Malformed, but shared, so that the error says so.
    | none => (tail, true)
    | some i => (tail.drop (i + 1), true)
  else (filter, false)

end Mqttv5.Program
