import Mqttv5.Model.Engine

/-!
# The packet identifier table

`take`, `claim` and `releaseLocked` of engine.go:835-917. The buffered channel `inUse` is
the number of tokens in it: a send needs room, a receive a token. `AllocateID` is two
steps, the send (`reserve`) and the `take` under the mutex, because other goroutines run
between them.
-/

set_option autoImplicit false

namespace Mqttv5.Program

open Model

/-- The loop of `take`, for `fuel` rounds: `none` when none of them finds a free identifier.
SOURCE: engine.go:850-865 -/
def takeLoop : (fuel : ℕ) → IDTable → Owner → Option (PacketID × IDTable)
  | 0, _, _ => none
  | fuel + 1, t, o =>
    let id := t.next
    let t := { t with next := if t.next = t.max then 1 else t.next + 1 }
    if t.owner id = .none then some (id, { t with owner := Function.update t.owner id o })
    else takeLoop fuel t o

/-- The first free identifier at or after the hint. The hint walks round 1..max, so `max`
rounds see every identifier; with none free the source's loop never ends.
SOURCE: engine.go:850-865 -/
def take (t : IDTable) (o : Owner) : Option (PacketID × IDTable) := takeLoop t.max t o

/-- A specific identifier marked as owned; `none` when it is taken or out of range.
SOURCE: engine.go:867-880 -/
def claim (t : IDTable) (id : PacketID) (o : Owner) : Option IDTable :=
  if id = 0 ∨ t.max < id ∨ t.owner id ≠ .none then none
  else if t.inUse < t.max then
    some { t with owner := Function.update t.owner id o, inUse := t.inUse + 1 }
  else none

/-- The send of `AllocateID` on `inUse`; `none` while the channel is full.
SOURCE: engine.go:884-895 -/
def reserve (e : Engine) : Option Engine :=
  if e.ids.inUse < e.ids.max then some { e with ids := { e.ids with inUse := e.ids.inUse + 1 } }
  else none

/-- The locked part of `AllocateID`.
SOURCE: engine.go:896-899 -/
def allocateID (e : Engine) (o : Owner) : Option (PacketID × Engine) :=
  (take e.ids o).map fun r => (r.1, { e with ids := r.2 })

/-- Free `id` if `o` owns it. The receive blocks, mutex held, when no token is left.
SOURCE: engine.go:910-917 -/
def releaseLocked (e : Engine) (id : PacketID) (o : Owner) : Engine :=
  if id = 0 ∨ e.ids.owner id ≠ o then e
  else
    { e with
      ids := { e.ids with
        owner := Function.update e.ids.owner id .none
        inUse := e.ids.inUse - 1 }
      stuck := e.stuck || e.ids.inUse = 0 }

end Mqttv5.Program
