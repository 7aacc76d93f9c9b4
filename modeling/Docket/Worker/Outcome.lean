import Docket.Interruption
import Docket.Pipeline.Step
import Docket.Pipeline.Event

/-!
How the handling of a document ends, and what a worker does about it.
-/

namespace Docket

/-- How a document leaves the pipeline. -/
inductive DocumentOutcome where
  /-- Every step that waited has run. -/
  | completed
  /-- A mandatory step failed and waits again. -/
  | deferred (step : Step) (reason : String)
deriving DecidableEq, Repr

/-- How the handling of a document ends. -/
inductive Handled where
  | outcome (o : DocumentOutcome)
  /-- The handling was broken off by an error. -/
  | failed (message : String)
  | panicked (payload : PanicPayload)
deriving DecidableEq, Repr

namespace Handled

/-- Whether the document waits for the next poll before it is taken up again. -/
def retryLater : Handled → Bool
  | .outcome .completed => false
  | _ => true

end Handled

/-- What a worker does that others can notice. -/
inductive WorkerEffect where
  /-- Show a document as the current one. -/
  | showCurrent (id : String)
  | handle (id : String)
  | publish (e : Event)
  | quarantine (id reason : String)
  /-- Show no current document. -/
  | showNone
  | release (id : String)
  | complete (id : String) (retryLater : Bool)
deriving DecidableEq, Repr

/-- What a worker does with a document whose handling ends in a given way. A quarantine that is
refused changes nothing. -/
def handlingEffects (id : String) (h : Handled) : List WorkerEffect :=
  [.showCurrent id, .handle id] ++
  (match h with
    | .panicked p => [.publish (.documentFailed id p.reason), .quarantine id p.reason]
    | _ => []) ++
  [.showNone, .release id, .complete id h.retryLater]

/-- What a worker does with documents that it receives one after the other. -/
def workEffects (deliveries : List (String × Handled)) : List WorkerEffect :=
  deliveries.flatMap fun (id, h) => handlingEffects id h

end Docket
