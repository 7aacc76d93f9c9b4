import Docket.Store.Tables

/-!
Writing a text into a column of every row of a table, whatever it spells.  The store still refuses
what would make rows alike or break references.
-/

namespace Docket

namespace Store

/-- Whether some items of a list agree. -/
def hasTwins {α β : Type} [DecidableEq β] (key : α → β) : List α → Bool
  | [] => false
  | a :: rest => rest.any (key · = key a) || hasTwins key rest

/-- The first constraint on rows of one table that does not hold. -/
def twins? (s : Store) : Option StoreError :=
  if hasTwins (·.id) s.documents then some (.notUnique "documents" ["id"])
  else if hasTwins (fun r => (r.documentId, r.step)) s.jobs then
    some (.notUnique "process_queue" ["document_id", "step"])
  else if hasTwins (fun r => (r.userId, r.key)) s.keys then
    some (.notUnique "metadata_keys" ["user_id", "key"])
  else if hasTwins (fun r => (r.keyId, r.value)) s.values then
    some (.notUnique "metadata_values" ["key_id", "value"])
  else if hasTwins (fun r => (r.documentId, r.keyId, r.valueId)) s.entries then
    some (.notUnique "document_metadata" ["document_id", "key_id", "value_id"])
  else if hasTwins (fun r => (r.userId, r.key)) s.tags then
    some (.notUnique "tags" ["user_id", "key"])
  else if hasTwins (fun r => (r.documentId, r.tagId)) s.taggings then
    some (.notUnique "document_tags" ["document_id", "tag_id"])
  else if hasTwins (fun r => (r.userId, r.order)) s.rules then
    some (.notUnique "rules" ["user_id", "rule_order"])
  else none

/-- Whether every row that refers to another refers to one that exists. -/
def referencesHold (s : Store) : Bool :=
  s.jobs.all (fun r => s.hasDocument r.documentId) &&
  s.values.all (fun r => s.hasKey r.keyId) &&
  s.entries.all (fun r => s.hasDocument r.documentId && s.hasKey r.keyId && s.hasValue r.valueId) &&
  s.taggings.all (fun r => s.hasDocument r.documentId && s.hasTag r.tagId) &&
  s.conditions.all (fun r => s.hasRule r.ruleId) &&
  s.actions.all (fun r => s.hasRule r.ruleId)

/-- How a text is put into a column of a row of documents. -/
def documentColumn? : String → Option (String → DocumentRow → DocumentRow)
  | "id" => some fun v r => { r with id := v }
  | "name" => some fun v r => { r with name := v }
  | "description" => some fun v r => { r with description := v }
  | "content" => some fun v r => { r with content := v }
  | "filename" => some fun v r => { r with filename := v }
  | "hash" => some fun v r => { r with hash := v }
  | "mimetype" => some fun v r => { r with mimetype := v }
  | "date" => some fun v r => { r with date := v }
  | "lang" => some fun v r => { r with lang := v }
  | "status" => some fun v r => { r with status := v }
  | "created_at" => some fun v r => { r with createdAt := v }
  | "updated_at" => some fun v r => { r with updatedAt := v }
  | _ => none

/-- How a text is put into a column of a row of jobs. -/
def jobColumn? : String → Option (String → JobRow → JobRow)
  | "document_id" => some fun v r => { r with documentId := v }
  | "step" => some fun v r => { r with step := v }
  | "status" => some fun v r => { r with status := v }
  | "message" => some fun v r => { r with message := some v }
  | "created_at" => some fun v r => { r with createdAt := v }
  | "started_at" => some fun v r => { r with startedAt := some v }
  | "stopped_at" => some fun v r => { r with stoppedAt := some v }
  | _ => none

/-- How a text is put into a column of a row of values. -/
def valueColumn? : String → Option (String → ValueRow → ValueRow)
  | "value" => some fun v r => { r with value := v }
  | "match_type" => some fun v r => { r with matchType := v }
  | "match_filter" => some fun v r => { r with filter := v }
  | _ => none

/-- How a text is put into a column of a row of rules. -/
def ruleColumn? : String → Option (String → RuleRow → RuleRow)
  | "name" => some fun v r => { r with name := v }
  | "description" => some fun v r => { r with description := v }
  | "mode" => some fun v r => { r with mode := v }
  | _ => none

/-- How a text is put into a column of a row of conditions. -/
def conditionColumn? : String → Option (String → ConditionRow → ConditionRow)
  | "kind" => some fun v r => { r with kind := v }
  | "value" => some fun v r => { r with value := v }
  | "date_format" => some fun v r => { r with dateFormat := some v }
  | _ => none

/-- How a text is put into a column of a row of actions. -/
def actionColumn? : String → Option (String → ActionRow → ActionRow)
  | "kind" => some fun v r => { r with kind := v }
  | "value" => some fun v r => { r with value := v }
  | _ => none

/-- Write a text into a text column of every row of a table, by the names of table and column; also
how many rows there are. `none` if there is no such column. -/
def overwritten? (s : Store) (table column value : String) : Option (Nat × Store) :=
  match table with
  | "documents" => (documentColumn? column).map fun set =>
    (s.documents.length, { s with documents := s.documents.map (set value) })
  | "process_queue" => (jobColumn? column).map fun set =>
    (s.jobs.length, { s with jobs := s.jobs.map (set value) })
  | "metadata_keys" =>
    if column = "key" then
      some (s.keys.length, { s with keys := s.keys.map ({ · with key := value }) })
    else none
  | "metadata_values" => (valueColumn? column).map fun set =>
    (s.values.length, { s with values := s.values.map (set value) })
  | "document_metadata" =>
    if column = "document_id" then
      some (s.entries.length, { s with entries := s.entries.map ({ · with documentId := value }) })
    else none
  | "tags" =>
    if column = "key" then
      some (s.tags.length, { s with tags := s.tags.map ({ · with key := value }) })
    else none
  | "document_tags" =>
    if column = "document_id" then
      some (s.taggings.length,
        { s with taggings := s.taggings.map ({ · with documentId := value }) })
    else none
  | "rules" => (ruleColumn? column).map fun set =>
    (s.rules.length, { s with rules := s.rules.map (set value) })
  | "rule_conditions" => (conditionColumn? column).map fun set =>
    (s.conditions.length, { s with conditions := s.conditions.map (set value) })
  | "rule_actions" => (actionColumn? column).map fun set =>
    (s.actions.length, { s with actions := s.actions.map (set value) })
  | _ => none

/-- Write a text into a text column of every row of a table; also how many rows there are. Nothing is
written where the constraints would not hold. -/
def overwrite (s : Store) (table column value : String) : Except StoreError (Nat × Store) :=
  match s.overwritten? table column value with
  | none => .error (.corrupt ("no text column " ++ table ++ "." ++ column))
  | some (n, t) =>
    match t.twins? with
    | some e => .error e
    | none => if t.referencesHold then .ok (n, t) else .error .brokenReference

def count? (s : Store) : (table : String) → Option Nat
  | "documents" => some s.documents.length
  | "process_queue" => some s.jobs.length
  | "metadata_keys" => some s.keys.length
  | "metadata_values" => some s.values.length
  | "document_metadata" => some s.entries.length
  | "tags" => some s.tags.length
  | "document_tags" => some s.taggings.length
  | "rules" => some s.rules.length
  | "rule_conditions" => some s.conditions.length
  | "rule_actions" => some s.actions.length
  | _ => none

end Store

end Docket
