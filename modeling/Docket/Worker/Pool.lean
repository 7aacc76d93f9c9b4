import Docket.Store.Error
import Docket.Worker.Policy
import Docket.Worker.Status

/-!
A pool of workers and those who hand documents to it.

A move is the smallest thing that one thread does between two moments at which another can notice
it, so that a run of the pool is a list of moves.  A dispatch takes the lock on the claims, looks at
the loads one by one, sends the document and records the claim; a worker needs the lock to release a
claim.  A worker asks whether to stop before it waits for a document, so that it may begin one more
after the pool was told to stop.  A queue is gone when its worker has ended.
-/

namespace Docket

/-- Why a pool refuses. -/
inductive WorkerError where
  | alreadyRunning
  | notRunning
  | channelClosed
  | store (e : StoreError)
deriving DecidableEq, Repr

def WorkerError.message : WorkerError → String
  | .alreadyRunning => "Processing manager is already running"
  | .notRunning => "Processing manager is not running"
  | .channelClosed => "Worker channel closed unexpectedly"
  | .store e => "Job store error: " ++ e.message

/-- What becomes of a document that is handed to a pool. -/
inductive Dispatch where
  | queued (worker : Nat)
  /-- The document is in the pool already. -/
  | alreadyQueued
  /-- No queue has room. -/
  | deferred
deriving DecidableEq, Repr

/-- Where a worker is in its loop. -/
inductive WorkerPhase where
  /-- About to ask whether to stop. -/
  | resting
  /-- Was not told to stop, and takes what comes first, a document or the end. -/
  | willing
  /-- Has taken a document and does not show it yet. -/
  | received (id : String)
  | busy (id : String)
  /-- Has handled a document and still holds its claim. -/
  | leaving (id : String) (retryLater : Bool)
  /-- Has released the claim and not yet reported it. -/
  | freed (id : String) (retryLater : Bool)
  | ended
deriving DecidableEq, Repr

/-- A worker and its queue. -/
structure Worker where
  queue : List String := []
  phase : WorkerPhase := .resting
deriving DecidableEq, Repr, Inhabited

/-- The document that a worker is at. -/
def Worker.current? (w : Worker) : Option String :=
  match w.phase with
  | .busy id => some id
  | _ => none

/-- A dispatch that holds the lock on the claims. -/
inductive Dispatching where
  /-- Has looked at the loads of the first workers. -/
  | looking (id : String) (seen : List WorkerLoad)
  /-- Has sent the document to a worker and not yet recorded the claim. -/
  | sent (id : String) (worker : Nat)
deriving DecidableEq, Repr

/-- A pool of workers. -/
structure Pool where
  capacity : Nat
  batchSize : Nat
  workers : List Worker
  /-- Documents that must not be queued a second time. -/
  claims : List String := []
  dispatching : Option Dispatching := none
  /-- Reports that the scheduler has not read yet. -/
  completions : List (String × Bool) := []
  /-- Documents that pulls pass over. -/
  waiting : List String := []
  pullRequested : Bool := true
  stopping : Bool := false
deriving DecidableEq, Repr

/-- The smallest things that happen in a pool. -/
inductive PoolMove where
  /-- A dispatch of a document takes the lock, and gives it back at once if the document is claimed. -/
  | claim (id : String)
  /-- The dispatch looks at the load of the next worker. -/
  | look
  /-- The dispatch has seen all loads and sends the document, or gives up. -/
  | send
  /-- The dispatch records the claim and gives the lock back. -/
  | record
  /-- A worker asks whether to stop. -/
  | check (worker : Nat)
  /-- A worker takes the next document of its queue. -/
  | take (worker : Nat)
  /-- A worker shows the document that it has taken. -/
  | present (worker : Nat)
  /-- A worker has handled its document. -/
  | finish (worker : Nat) (retryLater : Bool)
  /-- A worker releases the claim on its document. -/
  | release (worker : Nat)
  /-- A worker reports its document. -/
  | report (worker : Nat)
  /-- A worker that waits for a document ends. -/
  | quit (worker : Nat)
  /-- The scheduler reads a report. -/
  | digest
  /-- The pool is told to stop. -/
  | askStop
deriving DecidableEq, Repr

namespace Pool

def start (workers capacity batchSize : Nat) : Pool where
  capacity := max capacity 1
  batchSize := max batchSize 1
  workers := List.replicate (max workers 1) {}

def loadOf (p : Pool) (w : Worker) : WorkerLoad := ⟨w.current?.isSome, w.queue.length, p.capacity⟩

def loads (p : Pool) : List WorkerLoad := p.workers.map p.loadOf

def queueFull (p : Pool) : Bool := p.workers.all fun w => p.capacity ≤ w.queue.length

def status (p : Pool) : PoolStatus where
  running := true
  workers := p.workers.map fun w => ⟨w.current?, w.queue.length, p.capacity⟩

def setWorker (p : Pool) (i : Nat) (w : Worker) : Pool := { p with workers := p.workers.set i w }

def enqueue (p : Pool) (i : Nat) (w : Worker) (id : String) : Pool :=
  p.setWorker i { w with queue := w.queue ++ [id] }

def withId (ids : List String) (id : String) : List String := if ids.contains id then ids else ids ++ [id]

def withoutId (ids : List String) (id : String) : List String := ids.filter (· ≠ id)

/-- Pass a document over in pulls until the next poll. -/
def retryLater (p : Pool) (id : String) : Pool := { p with waiting := withId p.waiting id }

/-- Pass a document over no longer. -/
def retryNow (p : Pool) (id : String) : Pool := { p with waiting := withoutId p.waiting id }

/-- Pass over no document. -/
def retryAll (p : Pool) : Pool := { p with waiting := [] }

/-- Ask for a pull at the next idle tick. -/
def requestPull (p : Pool) : Pool := { p with pullRequested := true }

/-- What the scheduler does about a report. -/
def noteCompletion (p : Pool) (id : String) (later : Bool) : Pool :=
  (if later then p.retryLater id else p.retryNow id).requestPull

/-- Where a dispatch that has seen some loads sends its document; else the answer that ends it. -/
def place (p : Pool) (seen : List WorkerLoad) : Except (Except WorkerError Dispatch) (Nat × Worker) :=
  match leastBusy? seen with
  | none => .error (.ok .deferred)
  | some i =>
    match p.workers[i]? with
    | none => .error (.ok .deferred)
    | some w =>
      if w.phase = .ended then .error (.error .channelClosed)
      else if p.capacity ≤ w.queue.length then .error (.ok .deferred)
      else .ok (i, w)

/-- What a worker does on its own in a move. -/
def workerMove? (p : Pool) (i : Nat) (w : Worker) : PoolMove → Option Pool
  | .check _ =>
    match w.phase with
    | .resting => some (p.setWorker i (if p.stopping then ⟨[], .ended⟩ else { w with phase := .willing }))
    | _ => none
  | .take _ =>
    match w.phase, w.queue with
    | .willing, id :: rest => some (p.setWorker i ⟨rest, .received id⟩)
    | _, _ => none
  | .present _ =>
    match w.phase with
    | .received id => some (p.setWorker i { w with phase := .busy id })
    | _ => none
  | .quit _ =>
    match w.phase with
    | .willing => if p.stopping then some (p.setWorker i ⟨[], .ended⟩) else none
    | _ => none
  | .finish _ later =>
    match w.phase with
    | .busy id => some (p.setWorker i { w with phase := .leaving id later })
    | _ => none
  | .release _ =>
    match w.phase, p.dispatching with
    | .leaving id later, none =>
      some { p.setWorker i { w with phase := .freed id later } with claims := withoutId p.claims id }
    | _, _ => none
  | .report _ =>
    match w.phase with
    | .freed id later =>
      some { p.setWorker i { w with phase := .resting } with
        completions := p.completions ++ [(id, later)] }
    | _ => none
  | _ => none

/-- The pool after a move; `none` if nobody can make it now. -/
def move? (p : Pool) (m : PoolMove) : Option Pool :=
  match m with
  | .claim id =>
    match p.dispatching with
    | none => some (if p.claims.contains id then p else { p with dispatching := some (.looking id []) })
    | some _ => none
  | .look =>
    match p.dispatching with
    | some (.looking id seen) =>
      (p.workers[seen.length]?).map fun w =>
        { p with dispatching := some (.looking id (seen ++ [p.loadOf w])) }
    | _ => none
  | .send =>
    match p.dispatching with
    | some (.looking id seen) =>
      if seen.length < p.workers.length then none
      else match p.place seen with
        | .error _ => some { p with dispatching := none }
        | .ok (i, w) => some { p.enqueue i w id with dispatching := some (.sent id i) }
    | _ => none
  | .record =>
    match p.dispatching with
    | some (.sent id _) => some { p with dispatching := none, claims := withId p.claims id }
    | _ => none
  | .digest =>
    match p.completions with
    | (id, later) :: rest => some ({ p with completions := rest }.noteCompletion id later)
    | [] => none
  | .askStop => some { p with stopping := true }
  | .check i | .take i | .present i | .finish i _ | .release i | .report i | .quit i =>
    (p.workers[i]?).bind fun w => p.workerMove? i w m

/-- The pool after moves in order; `none` if one of them cannot be made. -/
def run? (p : Pool) (moves : List PoolMove) : Option Pool := moves.foldlM move? p

/-- The answer that a dispatch gets with a move; `none` if the move ends no dispatch. -/
def answer? (p : Pool) : PoolMove → Option (Except WorkerError Dispatch)
  | .claim id =>
    match p.dispatching with
    | none => if p.claims.contains id then some (.ok .alreadyQueued) else none
    | some _ => none
  | .send =>
    match p.dispatching with
    | some (.looking _ seen) =>
      if seen.length < p.workers.length then none
      else match p.place seen with
        | .error answer => some answer
        | .ok _ => none
    | _ => none
  | .record =>
    match p.dispatching with
    | some (.sent _ worker) => some (.ok (.queued worker))
    | _ => none
  | _ => none

/-- A whole dispatch, with nothing in between. -/
def dispatch (p : Pool) (id : String) : Except WorkerError Dispatch × Pool :=
  if p.claims.contains id then (.ok .alreadyQueued, p)
  else match p.place p.loads with
    | .error answer => (answer, p)
    | .ok (i, w) => (.ok (.queued i), { p.enqueue i w id with claims := withId p.claims id })

/-- A dispatch that was asked for: the document waits no longer. -/
def add (p : Pool) (id : String) : Except WorkerError Dispatch × Pool := (p.retryNow id).dispatch id

/-- What a worker does as soon as it can without ending the handling of a document. -/
def ownMove? (p : Pool) (w : Worker) (i : Nat) : Option PoolMove :=
  match w.phase with
  | .resting => some (.check i)
  | .willing => if p.stopping then some (.quit i) else if w.queue.isEmpty then none else some (.take i)
  | .received _ => some (.present i)
  | .leaving _ _ => some (.release i)
  | .freed _ _ => some (.report i)
  | .busy _ | .ended => none

/-- Let a worker do what it can do on its own, up to a number of moves. -/
def settleWorker : (moves : Nat) → Nat → Pool → Pool
  | 0, _, p => p
  | n + 1, i, p =>
    match (p.workers[i]?).bind fun w => (p.ownMove? w i).bind p.move? with
    | some p => settleWorker n i p
    | none => p

/-- From any phase a worker is at rest, at a document or at its end after so many moves. -/
def settleMoves : Nat := 5

/-- Let the scheduler read all reports. -/
def digestAll (p : Pool) : Pool :=
  p.completions.foldl (fun p (id, later) => p.noteCompletion id later) { p with completions := [] }

/-- Let every worker and the scheduler do what they can do on their own. -/
def settle (p : Pool) : Pool :=
  ((List.range p.workers.length).foldl (fun p i => settleWorker settleMoves i p) p).digestAll

/-- What came of a pull. -/
structure Pulled where
  result : Except WorkerError Nat
  /-- How many documents the job store was asked for; `none` if it was not asked. -/
  limit : Option Nat
  /-- The documents that were handed to the pool, in order. -/
  offered : List String

/-- Hand documents to a pool until one finds no room. Between two of them others may go on with what
they do. The answers are the number that was queued, and the documents that were handed over. -/
def offerAll (between : Pool → Pool) (p : Pool) : List String → (Except WorkerError Nat × List String) × Pool
  | [] => ((.ok 0, []), p)
  | id :: rest =>
    match p.dispatch id with
    | (.error e, p) => ((.error e, [id]), p)
    | (.ok .deferred, p) => ((.ok 0, [id]), p.requestPull)
    | (.ok answer, p) =>
      let ((result, offered), p) := offerAll between (between p) rest
      let one : Nat := match answer with
        | .queued _ => 1
        | _ => 0
      ((result.map (one + ·), id :: offered), p)

/-- How many documents a pull asks for: a batch, and all that it will pass over. The sum is taken in
64 bits. -/
def pullLimit (p : Pool) : Nat := (p.batchSize + p.waiting.length) % Nat.pow 2 64

/-- Hand the documents with waiting steps to a pool, unless no queue has room. `pending` is the
answer of the job store to a limit. -/
def pull (p : Pool) (pending : Nat → Except StoreError (List String)) (between : Pool → Pool) :
    Pulled × Pool :=
  if p.queueFull then (⟨.ok 0, none, []⟩, p.requestPull)
  else
    match pending p.pullLimit with
    | .error e => (⟨.error (.store e), some p.pullLimit, []⟩, p)
    | .ok ids =>
      let ((result, offered), p') := offerAll between p (ids.filter (!p.waiting.contains ·))
      (⟨result, some p.pullLimit, offered⟩, p')

def idleTick (p : Pool) (pending : Nat → Except StoreError (List String)) (between : Pool → Pool) :
    Pool :=
  if p.pullRequested then (({ p with pullRequested := false }).pull pending between).2 else p

def pollTick (p : Pool) (pending : Nat → Except StoreError (List String)) (between : Pool → Pool) :
    Pool :=
  (p.retryAll.pull pending between).2

def isOver (p : Pool) : Bool := p.workers.all (·.phase = .ended)

end Pool

end Docket
