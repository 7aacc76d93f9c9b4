import Docket.Json.Value
import Docket.Rule.Action

/-!
Carrying out a rule: its conditions are checked in order until one decides the rule, then its actions
are applied in order.  Both leave a trace.
-/

namespace Docket

/-- What is known about each kind of condition and action. A kind may be unknown. -/
structure Registry where
  condition : ConditionKind → Option (Condition → Document → Except RuleError Bool)
  action : ActionKind → Option (Action → Document → Except RuleError Document)

namespace Registry

def empty : Registry := ⟨fun _ => none, fun _ => none⟩

def builtin : Registry := ⟨fun _ => some Condition.check, fun _ => some Action.apply⟩

/-- The part of a registry whose kinds have certain names. -/
def restrict (r : Registry) (names : List String) : Registry where
  condition kind := if names.contains kind.name then r.condition kind else none
  action kind := if names.contains kind.name then r.action kind else none

/-- Check a condition, which fails if its kind is unknown. -/
def check (r : Registry) (c : Condition) (d : Document) : Except RuleError Bool :=
  match r.condition c.kind with
  | some f => f c d
  | none => .error (.notRegistered c.kind.name)

/-- Apply an action, which fails if its kind is unknown. -/
def apply (r : Registry) (a : Action) (d : Document) : Except RuleError Document :=
  match r.action a.kind with
  | some f => f a d
  | none => .error (.notRegistered a.kind.name)

end Registry

/-- A line of a trace. -/
inductive TraceLine where
  | conditionMatched
  | conditionNotMatched
  | conditionDisabled
  | conditionInverted
  | conditionSkipped
  | conditionFailed (e : RuleError)
  | restSkipped
  | stopped
  | actionDisabled
  | actionNotMatched
  | actionApplied
  | actionFailed (e : RuleError)
deriving DecidableEq, Repr

def TraceLine.text : TraceLine → String
  | .conditionMatched => "condition matched"
  | .conditionNotMatched => "condition didn't match"
  | .conditionDisabled => "condition is disabled"
  | .conditionInverted => "condition is inverted"
  | .conditionSkipped => "condition skipped"
  | .conditionFailed e => "failed to evaluate condition: " ++ e.message
  | .restSkipped => "rule mode is set to 'match any', skip rest conditions"
  | .stopped => "rule mode is set to 'match all', stopping execution"
  | .actionDisabled => "action is disabled"
  | .actionNotMatched => "rule did not match, action skipped"
  | .actionApplied => "action applied"
  | .actionFailed e => "failed to apply action: " ++ e.message

/-- What became of a condition. -/
structure ConditionTrace where
  conditionId : Int
  matched : Bool
  skipped : Bool
  log : List TraceLine
deriving DecidableEq, Repr

/-- What became of an action. -/
structure ActionTrace where
  actionId : Int
  applied : Bool
  skipped : Bool
  log : List TraceLine
deriving DecidableEq, Repr

/-- What became of a rule. -/
structure RuleTrace where
  ruleId : Int
  matched : Bool
  conditions : List ConditionTrace
  actions : List ActionTrace
deriving DecidableEq, Repr

def RuleTrace.toJson (t : RuleTrace) : Json := .obj [
  ("rule_id", .int t.ruleId),
  ("matched", .bool t.matched),
  ("conditions", .arr (t.conditions.map fun c => .obj [
    ("condition_id", .int c.conditionId), ("matched", .bool c.matched), ("skipped", .bool c.skipped),
    ("log", .arr (c.log.map fun l => .str l.text))])),
  ("actions", .arr (t.actions.map fun a => .obj [
    ("action_id", .int a.actionId), ("applied", .bool a.applied), ("skipped", .bool a.skipped),
    ("log", .arr (a.log.map fun l => .str l.text))]))]

/-- The outcome of a rule on a document. -/
structure Evaluation where
  matched : Bool
  trace : RuleTrace
  document : Document
deriving DecidableEq, Repr

namespace RuleMode

/-- Whether a condition with a given outcome decides the rule. -/
def decidedBy : RuleMode → Bool → Bool
  | .all, holds => !holds
  | .any, holds => holds

def decidedLine : RuleMode → TraceLine
  | .all => .stopped
  | .any => .restSkipped

/-- The outcome of a rule that no condition decides. -/
def undecided : RuleMode → Bool
  | .all => true
  | .any => false

end RuleMode

/-- The trace of a condition that is passed over. -/
def Condition.skip (c : Condition) (line : TraceLine) : ConditionTrace := ⟨c.id, false, true, [line]⟩

/-- Whether an enabled condition holds, and the lines about it. A condition that fails does not hold,
inverted or not. -/
def Registry.judge (r : Registry) (c : Condition) (d : Document) : Bool × List TraceLine :=
  let verdict (holds : Bool) : TraceLine := if holds then .conditionMatched else .conditionNotMatched
  match r.check c d with
  | .ok raw =>
    let holds := raw != c.inverted
    (holds, (if c.inverted then [.conditionInverted] else []) ++ [verdict holds])
  | .error e => (false, [.conditionFailed e, verdict false])

/-- Check conditions in order. Once one has decided the rule the others are passed over. -/
def Registry.checkAll (r : Registry) (mode : RuleMode) (d : Document) :
    List Condition → Bool × List ConditionTrace
  | [] => (mode.undecided, [])
  | c :: rest =>
    if !c.enabled then
      let (matched, traces) := r.checkAll mode d rest
      (matched, c.skip .conditionDisabled :: traces)
    else
      let (holds, log) := r.judge c d
      if mode.decidedBy holds then
        (holds, ⟨c.id, holds, false, log ++ [mode.decidedLine]⟩ ::
          rest.map (·.skip .conditionSkipped))
      else
        let (matched, traces) := r.checkAll mode d rest
        (matched, ⟨c.id, holds, false, log⟩ :: traces)

/-- Carry out one action, if it is enabled and the rule matched or need not. -/
def Registry.applyOne (r : Registry) (matched : Bool) (a : Action) (d : Document) :
    Document × ActionTrace :=
  if !a.enabled then (d, ⟨a.id, false, true, [.actionDisabled]⟩)
  else if a.onCondition && !matched then (d, ⟨a.id, false, true, [.actionNotMatched]⟩)
  else match r.apply a d with
    | .ok d => (d, ⟨a.id, true, false, [.actionApplied]⟩)
    | .error e => (d, ⟨a.id, false, false, [.actionFailed e]⟩)

def Registry.applyAll (r : Registry) (matched : Bool) (d : Document) :
    List Action → Document × List ActionTrace
  | [] => (d, [])
  | a :: rest =>
    let (d, trace) := r.applyOne matched a d
    let (d, traces) := r.applyAll matched d rest
    (d, trace :: traces)

/-- Carry out a rule on a document. -/
def Registry.evaluate (r : Registry) (rule : Rule) (d : Document) : Evaluation :=
  let (matched, conditions) := r.checkAll rule.mode d rule.conditions
  let (document, actions) := r.applyAll matched d rule.actions
  { matched, document, trace := { ruleId := rule.id, matched, conditions, actions } }

/-- Carry out rules one after the other, each on the document that the one before left. -/
def Registry.evaluateAll (r : Registry) (d : Document) : List Rule → List Evaluation
  | [] => []
  | rule :: rest =>
    let e := r.evaluate rule d
    e :: r.evaluateAll e.document rest

end Docket
