import Docket.Rule.Basic
import Docket.Json.Record

/-!
Rules as JSON values.
-/

namespace Docket

namespace Condition

def toJson (c : Condition) : Json := .obj [
  ("id", .int c.id),
  ("kind", .str c.kind.name),
  ("value", .str c.value),
  ("enabled", .bool c.enabled),
  ("case_insensitive", .bool c.caseInsensitive),
  ("inverted", .bool c.inverted),
  ("is_regex", .bool c.isRegex),
  ("date_format", .ofOption .str c.dateFormat),
  ("metadata_key", .ofOption .int c.metadataKey),
  ("metadata_value", .ofOption .int c.metadataValue)]

/-- A condition from an object; only the kind is required. -/
def ofJson? (j : Json) : Option Condition := do
  match ← j.fields? ["id", "kind", "value", "enabled", "case_insensitive", "inverted", "is_regex",
      "date_format", "metadata_key", "metadata_value"] with
  | [id, kind, value, enabled, caseInsensitive, inverted, isRegex, dateFormat, metadataKey,
      metadataValue] =>
    return {
      id := ← Json.withDefault 0 Json.int64? id
      kind := ← Json.required (Json.named? ConditionKind.ofName?) kind
      value := ← Json.withDefault "" Json.str? value
      enabled := ← Json.withDefault true Json.bool? enabled
      caseInsensitive := ← Json.withDefault false Json.bool? caseInsensitive
      inverted := ← Json.withDefault false Json.bool? inverted
      isRegex := ← Json.withDefault false Json.bool? isRegex
      dateFormat := ← Json.withDefault none (Json.nullable Json.str?) dateFormat
      metadataKey := ← Json.withDefault none (Json.nullable Json.int64?) metadataKey
      metadataValue := ← Json.withDefault none (Json.nullable Json.int64?) metadataValue }
  | _ => none

end Condition

namespace Action

def toJson (a : Action) : Json := .obj [
  ("id", .int a.id),
  ("kind", .str a.kind.name),
  ("value", .str a.value),
  ("enabled", .bool a.enabled),
  ("on_condition", .bool a.onCondition),
  ("metadata_key", .ofOption .int a.metadataKey),
  ("metadata_value", .ofOption .int a.metadataValue)]

/-- An action from an object; only the kind is required. -/
def ofJson? (j : Json) : Option Action := do
  match ← j.fields? ["id", "kind", "value", "enabled", "on_condition", "metadata_key",
      "metadata_value"] with
  | [id, kind, value, enabled, onCondition, metadataKey, metadataValue] =>
    return {
      id := ← Json.withDefault 0 Json.int64? id
      kind := ← Json.required (Json.named? ActionKind.ofName?) kind
      value := ← Json.withDefault "" Json.str? value
      enabled := ← Json.withDefault true Json.bool? enabled
      onCondition := ← Json.withDefault true Json.bool? onCondition
      metadataKey := ← Json.withDefault none (Json.nullable Json.int64?) metadataKey
      metadataValue := ← Json.withDefault none (Json.nullable Json.int64?) metadataValue }
  | _ => none

end Action

namespace Rule

def toJson (r : Rule) : Json := .obj [
  ("id", .int r.id),
  ("user_id", .int r.userId),
  ("name", .str r.name),
  ("description", .str r.description),
  ("enabled", .bool r.enabled),
  ("order", .int r.order),
  ("mode", .str r.mode.name),
  ("conditions", .arr (r.conditions.map Condition.toJson)),
  ("actions", .arr (r.actions.map Action.toJson))]

/-- A rule from an object; user, name and order are required. -/
def ofJson? (j : Json) : Option Rule := do
  match ← j.fields? ["id", "user_id", "name", "description", "enabled", "order", "mode",
      "conditions", "actions"] with
  | [id, userId, name, description, enabled, order, mode, conditions, actions] =>
    return {
      id := ← Json.withDefault 0 Json.int64? id
      userId := ← Json.required Json.int64? userId
      name := ← Json.required Json.str? name
      description := ← Json.withDefault "" Json.str? description
      enabled := ← Json.withDefault true Json.bool? enabled
      order := ← Json.required Json.int64? order
      mode := ← Json.withDefault .all (Json.named? RuleMode.ofName?) mode
      conditions := ← Json.withDefault [] (Json.listOf Condition.ofJson?) conditions
      actions := ← Json.withDefault [] (Json.listOf Action.ofJson?) actions }
  | _ => none

end Rule

end Docket
