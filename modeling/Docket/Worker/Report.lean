import Docket.Json.Value
import Docket.Worker.Pool

/-!
The state of workers as JSON values.
-/

namespace Docket

def WorkerStatus.toJson (w : WorkerStatus) : Json := .obj [("current", .ofOption .str w.current),
  ("queued", .nat w.queued), ("capacity", .nat w.capacity)]

/-- The sums over the workers of a pool, as members of an object. -/
def PoolStatus.totals (s : PoolStatus) : List (String × Json) :=
  [("in_flight", .arr (s.inFlight.map .str)), ("queued", .nat s.queued), ("idle", .bool s.isIdle)]

/-- Where a document has gone, as a value. -/
def Dispatch.toJson : Dispatch → Json
  | .queued worker => .obj [("queued", .nat worker)]
  | .alreadyQueued => .str "already_queued"
  | .deferred => .str "deferred"

end Docket
