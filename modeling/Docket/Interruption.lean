/-!
How work ends before it is done.
-/

namespace Docket

/-- What a panic carries. -/
inductive PanicPayload where
  | text (message : String)
  | other
deriving DecidableEq, Repr

namespace PanicPayload

/-- What a panic says. -/
def message : PanicPayload → String
  | .text message => message
  | .other => "unknown panic payload"

/-- Why a document is taken out of processing after a panic. -/
def reason (p : PanicPayload) : String := "panic while processing: " ++ p.message

end PanicPayload

/-- Why work ends before it is done. -/
inductive Interruption (ε : Type) where
  | error (e : ε)
  | panic (payload : PanicPayload)
  /-- The process stops. -/
  | stop
deriving DecidableEq, Repr

/-- The same end of work as part of other work, which has errors of its own. -/
def Interruption.map {ε ε' : Type} (f : ε → ε') : Interruption ε → Interruption ε'
  | .error e => .error (f e)
  | .panic payload => .panic payload
  | .stop => .stop

end Docket
