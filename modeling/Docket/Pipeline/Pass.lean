import Docket.Pipeline.Handlers
import Docket.Worker.Outcome

/-!
A pass over a document: the steps that wait are run in order, each under its job, up to the first
mandatory one that fails.
-/

namespace Docket

namespace Pass

def start (id : String) (step : Step) : Act World Unit := .tell (.startJob id step)

/-- Note in the job of a step how it has ended. -/
def finish (id : String) (step : Step) (message : Option String) : Act World Unit :=
  .tell (.finishJob id step message)

def requeue (id : String) (step : Step) : Act World Unit := .tell (.requeueJob id step)

def clear (id : String) (step : Step) : Act World Unit := .tell (.clearJob id step)

/-- What the message says of a step whose end could not be noted. -/
def unrecorded (e : PipelineError) : String := "failed to record step result: " ++ e.message

/-- Begin a step under its job. -/
def begin (id : String) (step : Step) : Act Desk Unit := do
  Act.onWorld (start id step)
  Act.onWorld (Act.report (.stepStarted id step))

/-- What is noted of a step that has ended: why it failed, if it did. -/
def note : Except PipelineError Unit → Option String
  | .ok () => none
  | .error e => some e.message

/-- Note how a step has ended, and settle its job. The answer is why the pass cannot go on, if it
cannot. -/
def conclude (id : String) (step : Step) (message : Option String) : Act Desk (Option String) := do
  match ← (Act.onWorld (finish id step message)).attempt with
  | .error e =>
    Act.onWorld (requeue id step)
    Act.onWorld (Act.report (.stepFinished id step (some (unrecorded e))))
    return some (unrecorded e)
  | .ok () =>
    Act.onWorld (Act.report (.stepFinished id step message))
    match step.mandatory, message with
    | true, some message =>
      Act.onWorld (requeue id step)
      return some message
    | _, _ =>
      Act.onWorld (clear id step)
      return none

/-- Run a step under its job. The answer is why the pass cannot go on, if it cannot. -/
def runStep (handler : Handler) (id : String) (step : Step) : Act Desk (Option String) := do
  begin id step
  let result ← handler.attempt
  conclude id step (note result)

/-- Run steps in order. The answer is the one that the pass cannot go on from, if there is one, and
why. -/
def runSteps (handlers : Step → Handler) (id : String) : List Step → Act Desk (Option (Step × String))
  | [] => return none
  | step :: rest => do
    match ← runStep (handlers step) id step with
    | some reason => return some (step, reason)
    | none => runSteps handlers id rest

/-- The steps of a document that wait. -/
def pending (id : String) : Act World (List Step) :=
  .ask (.pendingSteps id) fun s => (s.pendingJobs id).map (·.map (·.step))

/-- Call a document ready if no step of it waits. -/
def settle (id : String) : Act World Unit := do
  if (← pending id).isEmpty then
    .tell (.setStatus id .ready)

/-- Run steps on a copy of a document that is put down afterwards. -/
def withCopy {α : Type} (d : Document) (x : Act Desk α) : Act World α := fun s w =>
  let (r, desk) := x s ⟨w, d⟩
  (r, desk.world)

/-- Run the waiting steps of a document, given what each step does. -/
def runWith (handlers : Step → Handler) (d : Document) (id : String) (steps : List Step) :
    Act World DocumentOutcome := do
  match ← withCopy d (runSteps handlers id steps) with
  | some (step, reason) =>
    Act.report (.documentFinished id false)
    return .deferred step reason
  | none =>
    settle id
    Act.report (.documentFinished id true)
    return .completed

/-- Make the directory for files that are made on the way. -/
def openScratch : Act World Unit := do
  let s ← Act.surroundings
  match (← Act.state).files.makeDirectories s.scratch with
  | .ok files => Act.change fun w => { w with files := files }
  | .error fault => Act.fail (.noScratch s.scratch fault)

/-- Delete the directory for files that are made on the way, with all that is in it. -/
def closeScratch : Act World Unit := do
  let s ← Act.surroundings
  Act.change fun w => { w with files := (w.files.removeAll s.scratch).toOption.getD w.files }

/-- Run a pass over a document, given what each step does. -/
def run (handlers : (scratch : String) → Step → Handler) (id : String) : Act World DocumentOutcome := do
  let s ← Act.surroundings
  let d ← Act.ask (.getDocument id) (·.getDocument id)
  let steps ← pending id
  openScratch
  (runWith (handlers s.scratch) d id steps).followedBy closeScratch

def process (id : String) : Act World DocumentOutcome := run Handler.ofStep id

/-- What the name of a document starts with that was taken out of processing. -/
def errorPrefix : String := "[processing error] "

/-- A document that is taken out of processing for a reason. -/
def withFault (d : Document) (reason : String) : Document :=
  { d with
    name := if Text.startsWith d.name errorPrefix then d.name else errorPrefix ++ d.name
    description := if d.description.isEmpty then reason else d.description ++ "\n\n" ++ reason
    status := .error }

def quarantine (id reason : String) : Act World Unit := do
  Act.tell (.cancelJobs id)
  let d ← Act.ask (.getDocument id) (·.getDocument id)
  Act.tell (.updateDocument (withFault d reason))

end Pass

end Docket
