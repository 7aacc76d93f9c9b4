import Docket.Json.Value
import Docket.Pipeline.Step

/-!
What is published while documents are processed, and to whom.
-/

namespace Docket

/-- A published event. -/
inductive Event where
  | stepStarted (id : String) (step : Step)
  /-- A step has ended; a message says that it failed, and why. -/
  | stepFinished (id : String) (step : Step) (message : Option String)
  /-- Nothing more is done with a document for now. -/
  | documentFinished (id : String) (ready : Bool)
  /-- A fault took a document out of processing. -/
  | documentFailed (id reason : String)
deriving DecidableEq, Repr

namespace Event

def documentId : Event → String
  | .stepStarted id _ | .stepFinished id _ _ | .documentFinished id _ | .documentFailed id _ => id

def toJson : Event → Json
  | .stepStarted id step =>
    .obj [("type", .str "step_started"), ("document_id", .str id), ("step", .str step.name)]
  | .stepFinished id step message =>
    .obj ([("type", .str "step_finished"), ("document_id", .str id), ("step", .str step.name),
      ("succeeded", .bool message.isNone)] ++
      match message with
      | some m => [("message", .str m)]
      | none => [])
  | .documentFinished id ready =>
    .obj [("type", .str "document_finished"), ("document_id", .str id), ("ready", .bool ready)]
  | .documentFailed id reason =>
    .obj [("type", .str "document_failed"), ("document_id", .str id), ("reason", .str reason)]

end Event

/-- The inboxes of all who have subscribed to events. -/
structure Broadcast where
  inboxes : List (List Event) := []
deriving DecidableEq, Repr

namespace Broadcast

/-- One subscriber more, who gets what is published from now on. -/
def subscribe (b : Broadcast) : Broadcast := ⟨b.inboxes ++ [[]]⟩

/-- Publish an event to every subscriber, of whom there may be none. -/
def publish (b : Broadcast) (e : Event) : Broadcast := ⟨b.inboxes.map (· ++ [e])⟩

def subscriberCount (b : Broadcast) : Nat := b.inboxes.length

end Broadcast

end Docket
