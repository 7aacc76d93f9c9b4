import Docket.Store.Jobs
import Docket.Worker.Pool

/-!
Starting and stopping pools.  Stopping takes the pool away at once, while its workers still end their
documents; until then the pool is draining.
-/

namespace Docket

/-- The pools of a service. -/
structure Manager where
  workerCount : Nat
  queueCapacity : Nat
  batchSize : Nat
  pool : Option Pool := none
  draining : List Pool := []
deriving DecidableEq, Repr

namespace Manager

def isRunning (m : Manager) : Bool := m.pool.isSome

/-- Start a pool. `reset` is the answer of the job store when it lets the steps wait again that an
earlier run has left behind. -/
def start (m : Manager) (reset : Except StoreError (Nat × Store)) :
    Except WorkerError (Manager × Store) :=
  if m.isRunning then .error .alreadyRunning
  else match reset with
    | .error e => .error (.store e)
    | .ok (_, s) =>
      .ok ({ m with pool := some (.start m.workerCount m.queueCapacity m.batchSize) }, s)

/-- Tell the pool to stop, and take it away. -/
def askStop (m : Manager) : Manager :=
  match m.pool with
  | none => m
  | some p => { m with pool := none, draining := m.draining ++ [{ p with stopping := true }] }

/-- Let every worker that is free do what it can do on its own. -/
def settle (m : Manager) : Manager := { m with pool := m.pool.map Pool.settle }

/-- Forget the pools whose workers have ended. -/
def joinEnded (m : Manager) : Manager := { m with draining := m.draining.filter (!·.isOver) }

def status (m : Manager) : PoolStatus :=
  match m.pool with
  | some p => p.status
  | none => {}

/-- Whether there is a pool whose queues have no room. -/
def queueFull (m : Manager) : Bool := m.pool.any (·.queueFull)

/-- Hand a document to the pool, even one that waits to be tried again. -/
def add (m : Manager) (id : String) : Except WorkerError Dispatch × Manager :=
  match m.pool with
  | none => (.error .notRunning, m)
  | some p =>
    let (answer, p) := p.add id
    (answer, { m with pool := some p })

/-- Hand the documents with waiting steps to the pool. -/
def pull (m : Manager) (pending : Nat → Except StoreError (List String)) (between : Pool → Pool) :
    Pool.Pulled × Manager :=
  match m.pool with
  | none => (⟨.error .notRunning, none, []⟩, m)
  | some p =>
    let (pulled, p) := p.pull pending between
    (pulled, { m with pool := some p })

/-- Hand a document to the pool after its steps have been made to wait; `forced` is the answer of the
job store to that. Without a pool the document is left to a later pull. -/
def force (m : Manager) (forced : Except StoreError Store) (id : String) :
    Except WorkerError (Dispatch × Store) × Manager :=
  match forced with
  | .error e => (.error (.store e), m)
  | .ok s =>
    match m.pool with
    | none => (.ok (.deferred, s), m)
    | some p =>
      let (answer, p) := p.add id
      (answer.map (·, s), { m with pool := some p })

end Manager

end Docket
