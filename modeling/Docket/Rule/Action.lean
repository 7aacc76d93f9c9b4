import Docket.Rule.Condition

/-!
What actions do to a document.
-/

namespace Docket

open Docket.Calendar (Instant)

/-- The key and the value of an action that needs both. -/
def Action.requireKeyValue (a : Action) : Except RuleError (Int × Int) :=
  match a.metadataKey, a.metadataValue with
  | some key, some value => .ok (key, value)
  | _, _ => .error (.missingMetadataValue a.kind.name)

/-- The document after an action. An action that fails gives no document, so it can change none. -/
def Action.apply (a : Action) (d : Document) : Except RuleError Document :=
  match a.kind with
  | .setName => .ok { d with name := a.value }
  | .appendName => .ok { d with name := d.name ++ a.value }
  | .setDescription => .ok { d with description := a.value }
  | .appendDescription => .ok { d with description := d.description ++ a.value }
  | .setDate => do
    let date ← readDate a.value defaultDateFormat
    return { d with date := Instant.midnight date }
  | .addEntry => do
    let (keyId, valueId) ← a.requireKeyValue
    return d.addEntry { keyId, valueId }
  | .removeEntry => do
    let (keyId, valueId) ← a.requireKeyValue
    return d.removeEntries keyId valueId

end Docket
