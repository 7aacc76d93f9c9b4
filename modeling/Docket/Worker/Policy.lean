/-!
Which worker gets the next document: an idle one before a busy one, then the one with the shortest
queue, then the first.
-/

namespace Docket

/-- The load of a worker. -/
structure WorkerLoad where
  busy : Bool
  queued : Nat
  capacity : Nat
deriving DecidableEq, Repr

namespace WorkerLoad

def isFull (l : WorkerLoad) : Bool := l.capacity ≤ l.queued

/-- Whether a load is lighter than another: idle before busy, then by the length of the queue. -/
def isLighter (a b : WorkerLoad) : Bool :=
  if a.busy = b.busy then a.queued < b.queued else !a.busy

end WorkerLoad

/-- The lightest load with room, and its place, counted from `start`; the first of several. -/
def lightest? (start : Nat) : List WorkerLoad → Option (Nat × WorkerLoad)
  | [] => none
  | l :: rest =>
    let later := lightest? (start + 1) rest
    if l.isFull then later
    else match later with
      | some (j, m) => if m.isLighter l then some (j, m) else some (start, l)
      | none => some (start, l)

/-- The place of the worker that gets the next document; `none` if no queue has room. -/
def leastBusy? (loads : List WorkerLoad) : Option Nat := (lightest? 0 loads).map (·.1)

end Docket
