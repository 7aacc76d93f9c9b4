import Docket.Pipeline.World

/-!
Surroundings in which the store refuses calls: of each name the first ones, as many as a plan has.
-/

namespace Docket

def StoreCall.name : StoreCall → String
  | .getDocument _ => "get_document"
  | .pendingSteps _ => "pending_steps"
  | .startJob _ _ => "start"
  | .finishJob _ _ _ => "mark_done"
  | .requeueJob _ _ => "requeue"
  | .clearJob _ _ => "clear"
  | .cancelJobs _ => "cancel_processing"
  | .setStatus _ _ => "set_status"
  | .setContent _ _ => "set_document_content"
  | .updateDocument _ => "update"
  | .updateWithEntries _ => "update_with_metadata"
  | .activeRules _ => "active_rules"
  | .documentEntries _ => "document_metadata"
  | .autoMatchValues _ => "auto_values"
  | .documentTags _ => "document_tags"

/-- The calls that are to be refused, by their names. A name that stands there several times is
refused as often. -/
abbrev RefusalPlan := List String

namespace RefusalPlan

def error (name : String) : StoreError := .corrupt ("injected " ++ name ++ " failure")

/-- An answer of the store, unless a call of that name is to be refused. -/
def guard {α : Type} (plan : RefusalPlan) (name : String) (answer : Except StoreError α) : Except StoreError α :=
  if plan.contains name then .error (error name) else answer

/-- What is left of a plan after a moment. -/
def after (plan : RefusalPlan) : Moment → RefusalPlan
  | .call c => plan.erase c.name
  | .effect _ => plan

/-- What is left of a plan after moments, of which the last comes first. -/
def afterAll (plan : RefusalPlan) (past : List Moment) : RefusalPlan := past.foldr (fun m p => p.after m) plan

/-- Why a call is refused after some moments, if it is. -/
def refusal? (plan : RefusalPlan) (past : List Moment) (c : StoreCall) : Option StoreError :=
  if (plan.afterAll past).contains c.name then some (error c.name) else none

end RefusalPlan

/-- Surroundings in which the store refuses what a plan has, and nothing else. -/
def Surroundings.refusing (s : Surroundings) (plan : RefusalPlan) : Surroundings :=
  { s with refuses := plan.refusal? }

end Docket
