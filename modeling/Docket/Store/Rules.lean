import Docket.Store.Documents
import Docket.Rule.Validate

/-!
The rules of the store.  No two rules of a user have the same place in the order.
-/

namespace Docket

namespace ConditionRow

def ofCondition (id ruleId : Int) (position : Nat) (c : Condition) : ConditionRow where
  id := id
  ruleId := ruleId
  position := position
  kind := c.kind.name
  value := c.value
  enabled := c.enabled
  caseInsensitive := c.caseInsensitive
  inverted := c.inverted
  isRegex := c.isRegex
  dateFormat := c.dateFormat
  metadataKey := c.metadataKey
  metadataValue := c.metadataValue

def read (r : ConditionRow) : Except StoreError Condition := do
  let kind ← readNamed 1 ConditionKind.ofName?
    (fun name => (RuleError.unknownConditionKind name).message) r.kind
  return { id := r.id, kind, value := r.value, enabled := r.enabled,
           caseInsensitive := r.caseInsensitive, inverted := r.inverted, isRegex := r.isRegex,
           dateFormat := r.dateFormat, metadataKey := r.metadataKey,
           metadataValue := r.metadataValue }

end ConditionRow

namespace ActionRow

def ofAction (id ruleId : Int) (position : Nat) (a : Action) : ActionRow where
  id := id
  ruleId := ruleId
  position := position
  kind := a.kind.name
  value := a.value
  enabled := a.enabled
  onCondition := a.onCondition
  metadataKey := a.metadataKey
  metadataValue := a.metadataValue

def read (r : ActionRow) : Except StoreError Action := do
  let kind ← readNamed 1 ActionKind.ofName?
    (fun name => (RuleError.unknownActionKind name).message) r.kind
  return { id := r.id, kind, value := r.value, enabled := r.enabled, onCondition := r.onCondition,
           metadataKey := r.metadataKey, metadataValue := r.metadataValue }

end ActionRow

namespace RuleRow

def ofRule (id : Int) (r : Rule) : RuleRow where
  id := id
  userId := r.userId
  name := r.name
  description := r.description
  enabled := r.enabled
  order := r.order
  mode := r.mode.name

/-- The rule of a row, without conditions and actions. -/
def read (r : RuleRow) : Except StoreError Rule := do
  let mode ← readNamed 6 RuleMode.ofName? (fun name => (RuleError.unknownMode name).message) r.mode
  return { id := r.id, userId := r.userId, name := r.name, description := r.description,
           enabled := r.enabled, order := r.order, mode }

end RuleRow

/-- Rows for items: each with its own id, behind the last that was given out, and its position. -/
def numberRows {α β : Type} (row : Int → Nat → α → β) (last : Int) (items : List α) : List β :=
  items.mapIdx fun i a => row (last + i + 1) i a

namespace Store

/-- Store a valid rule with its conditions and actions; also its id. -/
def insertRule (s : Store) (rule : Rule) : Except StoreError (Int × Store) := do
  rule.validate.mapError .invalidRule
  require (!s.rules.any fun r => r.userId = rule.userId && r.order = rule.order)
    (.notUnique "rules" ["user_id", "rule_order"])
  let id := s.lastRule + 1
  return (id, { s with
    rules := s.rules ++ [.ofRule id rule]
    conditions := s.conditions ++
      numberRows (fun i n c => .ofCondition i id n c) s.lastCondition rule.conditions
    actions := s.actions ++ numberRows (fun i n a => .ofAction i id n a) s.lastAction rule.actions
    lastRule := id
    lastCondition := s.lastCondition + rule.conditions.length
    lastAction := s.lastAction + rule.actions.length })

/-- Enable or disable a rule; also whether there is one. -/
def enableRule (s : Store) (id : Int) (enabled : Bool) : Bool × Store :=
  (s.hasRule id, { s with rules := s.rules.map fun r => if r.id = id then { r with enabled } else r })

/-- Delete a rule with its conditions and actions; also whether there was one. -/
def deleteRule (s : Store) (id : Int) : Bool × Store :=
  (s.hasRule id,
    { s with
      rules := s.rules.filter (·.id ≠ id)
      conditions := s.conditions.filter (·.ruleId ≠ id)
      actions := s.actions.filter (·.ruleId ≠ id) })

def conditionsOf (s : Store) (ruleId : Int) : Except StoreError (List Condition) :=
  ((s.conditions.filter (·.ruleId = ruleId)).mergeSort fun a b => a.position ≤ b.position).mapM
    ConditionRow.read

def actionsOf (s : Store) (ruleId : Int) : Except StoreError (List Action) :=
  ((s.actions.filter (·.ruleId = ruleId)).mergeSort fun a b => a.position ≤ b.position).mapM
    ActionRow.read

def activeRules (s : Store) (userId : Int) : Except StoreError (List Rule) := do
  let rows := (s.rules.filter fun r => r.userId = userId && r.enabled).mergeSort
    fun a b => a.order ≤ b.order
  let rules ← rows.mapM RuleRow.read
  rules.mapM fun rule => do
    let conditions ← s.conditionsOf rule.id
    let actions ← s.actionsOf rule.id
    return { rule with conditions, actions }

end Store

end Docket
