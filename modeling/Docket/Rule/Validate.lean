import Docket.Rule.Action

/-!
Checking a rule before it is saved.
-/

namespace Docket

/-- What would go wrong with a condition on any document. -/
def Condition.validate (c : Condition) : Except RuleError Unit :=
  match c.kind with
  | .text _ _ => if c.isRegex then discard (compileFor c.value c.value c.caseInsensitive) else .ok ()
  | .date _ => discard (readDate c.value c.effectiveDateFormat)
  | .entryCount _ => discard (readCount c.value)
  | .hasKey => discard c.requireKey
  | .hasKeyValue => discard c.requireKeyValue

/-- What would go wrong with an action on any document. -/
def Action.validate (a : Action) : Except RuleError Unit :=
  match a.kind with
  | .setDate => discard (readDate a.value defaultDateFormat)
  | .addEntry | .removeEntry => discard a.requireKeyValue
  | _ => .ok ()

/-- Check the conditions of a rule and then its actions, in order and whether or not they are
enabled. The first error counts. -/
def Rule.validate (rule : Rule) : Except RuleError Unit := do
  rule.conditions.forM Condition.validate
  rule.actions.forM Action.validate

end Docket
