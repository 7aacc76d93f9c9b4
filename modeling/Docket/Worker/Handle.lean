import Docket.Pipeline.Pass

/-!
What a worker does with a document: a pass over it and, if that panics, taking it out of processing.
-/

namespace Docket

/-- How the handling of a document ends that ends in a given way; `none` if the process stops. -/
def Handled.ofResult : Except (Interruption PipelineError) DocumentOutcome → Option Handled
  | .ok o => some (.outcome o)
  | .error (.error e) => some (.failed e.message)
  | .error (.panic payload) => some (.panicked payload)
  | .error .stop => none

namespace Act

/-- Run a pass, and tell how it ended. -/
def handling (pass : Act World DocumentOutcome) : Act World Handled := fun s w =>
  let (r, w) := pass s w
  match Handled.ofResult r with
  | some h => (.ok h, w)
  | none => (.error .stop, w)

/-- Take a document out of processing that made its pass panic. That this is refused changes
nothing. -/
def takeOut (id : String) : Handled → Act World Unit
  | .panicked payload => do
    report (.documentFailed id payload.reason)
    let _ ← (Pass.quarantine id payload.reason).attempt
  | _ => return

def handle (id : String) : Act World Handled := do
  let h ← handling (Pass.process id)
  takeOut id h
  return h

def handleAll : List String → Act World (List (String × Handled))
  | [] => return []
  | id :: rest => do
    let h ← handle id
    return (id, h) :: (← handleAll rest)

end Act

end Docket
