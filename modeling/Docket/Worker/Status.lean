/-!
What a pool of workers shows of itself.
-/

namespace Docket

/-- What a worker shows. -/
structure WorkerStatus where
  /-- The document that the worker is at. -/
  current : Option String
  queued : Nat
  capacity : Nat
deriving DecidableEq, Repr

namespace WorkerStatus

def isIdle (w : WorkerStatus) : Bool := w.current.isNone

def isFull (w : WorkerStatus) : Bool := w.capacity ≤ w.queued

end WorkerStatus

/-- What a pool shows. -/
structure PoolStatus where
  running : Bool := false
  workers : List WorkerStatus := []
deriving DecidableEq, Repr, Inhabited

namespace PoolStatus

def inFlight (s : PoolStatus) : List String := s.workers.filterMap (·.current)

def queued (s : PoolStatus) : Nat := (s.workers.map (·.queued)).foldl (· + ·) 0

/-- Whether nothing is queued and no worker is at a document. -/
def isIdle (s : PoolStatus) : Bool := s.queued = 0 && s.workers.all (·.isIdle)

end PoolStatus

end Docket
