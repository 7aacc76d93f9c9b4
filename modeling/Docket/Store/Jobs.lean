import Docket.Store.Documents
import Docket.Json.Value
import Docket.Pipeline.Step

/-!
The jobs of the store: at most one for each document and step.
-/

namespace Docket

open Docket.Calendar (Instant)

/-- A job. -/
structure Job where
  documentId : String
  step : Step
  status : JobStatus
  message : Option String
  createdAt : Instant
  startedAt : Option Instant
  stoppedAt : Option Instant
deriving DecidableEq, Repr

/-- A job as an object. Of its times it only says whether they are known. -/
def Job.toJson (b : Job) : Json := .obj [("step", .str b.step.name), ("status", .str b.status.name),
  ("message", .ofOption .str b.message), ("started", .bool b.startedAt.isSome),
  ("stopped", .bool b.stoppedAt.isSome)]

namespace JobRow

/-- A new job that waits. -/
def pending (documentId : String) (step : Step) (now : Instant) : JobRow where
  documentId := documentId
  step := step.name
  status := JobStatus.pending.name
  message := none
  createdAt := now.toMicrosText
  startedAt := none
  stoppedAt := none

/-- Whether a row is that of a document and a step. -/
def isFor (r : JobRow) (documentId : String) (step : Step) : Bool :=
  r.documentId = documentId && r.step = step.name

def isPending (r : JobRow) : Bool := r.status = JobStatus.pending.name

def read (r : JobRow) : Except StoreError Job := do
  let step ← readNamed 1 Step.ofName? Step.unknownMessage r.step
  let status ← readNamed 2 JobStatus.ofName? JobStatus.unknownMessage r.status
  let createdAt ← readMoment 4 r.createdAt
  let startedAt ← readMoment? 5 r.startedAt
  let stoppedAt ← readMoment? 6 r.stoppedAt
  return { documentId := r.documentId, step, status, message := r.message, createdAt, startedAt,
           stoppedAt }

def started (now : Instant) (r : JobRow) : JobRow :=
  { r with
    status := JobStatus.running.name
    startedAt := some now.toMicrosText
    stoppedAt := none }

def ended (succeeded : Bool) (message : Option String) (now : Instant) (r : JobRow) : JobRow :=
  { r with
    status := (if succeeded then JobStatus.finished else JobStatus.failed).name
    message
    stoppedAt := some now.toMicrosText }

/-- A row that waits again. Its message is kept. -/
def requeued (r : JobRow) : JobRow :=
  { r with status := JobStatus.pending.name, startedAt := none }

end JobRow

namespace Store

/-- Let a document wait for steps. A row that is there already is replaced. -/
def putPending (s : Store) (id : String) (steps : List Step) (now : Instant) : Store :=
  steps.foldl (fun s step =>
    { s with jobs := s.jobs.filter (!·.isFor id step) ++ [.pending id step now] }) s

/-- Let a document wait for every step. -/
def queueDocument (s : Store) (id : String) (now : Instant) : Except StoreError Store := do
  require (s.hasDocument id) .brokenReference
  return s.putPending id Step.all now

/-- Rows in the order in which they are read: by the names of their steps. -/
def readJobs (rows : List JobRow) : Except StoreError (List Job) := do
  let jobs ← (rows.mergeSort fun a b => !(b.step < a.step)).mapM JobRow.read
  return jobs.mergeSort fun a b => a.step.position ≤ b.step.position

/-- The jobs of a document, in the order of their steps. -/
def jobsOf (s : Store) (id : String) : Except StoreError (List Job) :=
  readJobs (s.jobs.filter (·.documentId = id))

/-- The jobs of a document that wait, in the order of their steps. -/
def pendingJobs (s : Store) (id : String) : Except StoreError (List Job) :=
  readJobs (s.jobs.filter fun r => r.documentId = id && r.isPending)

/-- Change the row of a document and a step, if there is one. -/
def changeJob (s : Store) (id : String) (step : Step) (f : JobRow → JobRow) : Store :=
  { s with jobs := s.jobs.map fun r => if r.isFor id step then f r else r }

def startJob (s : Store) (id : String) (step : Step) (now : Instant) : Store :=
  s.changeJob id step (.started now)

def finishJob (s : Store) (id : String) (step : Step) (succeeded : Bool) (message : Option String)
    (now : Instant) : Store :=
  s.changeJob id step (.ended succeeded message now)

def clearJob (s : Store) (id : String) (step : Step) : Store :=
  { s with jobs := s.jobs.filter (!·.isFor id step) }

def requeueJob (s : Store) (id : String) (step : Step) : Store :=
  s.changeJob id step JobRow.requeued

/-- Let every running step wait again; also how many there are. -/
def resetRunning (s : Store) : Nat × Store :=
  let running (r : JobRow) : Bool := r.status = JobStatus.running.name
  (s.jobs.countP running,
    { s with jobs := s.jobs.map fun r => if running r then JobRow.requeued r else r })

/-- The first of some texts that is least. -/
def leastText : List String → Option String
  | [] => none
  | t :: rest =>
    match leastText rest with
    | none => some t
    | some u => some (if u < t then u else t)

/-- When the earliest waiting row of a document was created. -/
def waitingSince (s : Store) (id : String) : Option String :=
  leastText ((s.jobs.filter fun r => r.documentId = id && r.isPending).map (·.createdAt))

def waitingDocuments (s : Store) : List String :=
  ((s.jobs.filter (·.isPending)).map (·.documentId)).eraseDups

/-- Whether a document comes before another: the one that has waited longer, and of two that have
waited equally long, the one with the smaller id. -/
def waitsBefore (s : Store) (a b : String) : Bool :=
  let since (id : String) := (s.waitingSince id).getD ""
  if since a = since b then !(b < a) else since a < since b

/-- The first documents with waiting rows, those that have waited longest first. -/
def documentsPending (s : Store) (limit : Nat) : List String :=
  (s.waitingDocuments.mergeSort s.waitsBefore).take limit

/-- Delete every row of a document; also how many there are. -/
def deleteJobs (s : Store) (id : String) : Nat × Store :=
  (s.jobs.countP (·.documentId = id), { s with jobs := s.jobs.filter (·.documentId ≠ id) })

/-- Let a document wait for a step and all behind it, and for nothing else. -/
def forceFrom (s : Store) (id : String) (step : Step) (now : Instant) : Except StoreError Store := do
  require (s.hasDocument id) .brokenReference
  return ((s.deleteJobs id).2).putPending id step.onward now

/-- Let a stored document wait for a step and all behind it, and for nothing else. -/
def forceDocument (s : Store) (id : String) (step : Step) (now : Instant) :
    Except StoreError Store := do
  match ← s.findDocument id with
  | some _ => s.forceFrom id step now
  | none => .error (.noDocument id)

end Store

end Docket
