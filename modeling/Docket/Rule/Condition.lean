import Docket.Text.Count
import Docket.Rule.Basic
import Docket.Regex.Compile
import Docket.Text.Trim

/-!
Whether a condition holds for a document, before it is inverted.
-/

namespace Docket

open Docket.Calendar (Date)

/-- The text of a document that a field names. -/
def Document.text (d : Document) : TextField → String
  | .name => d.name
  | .description => d.description
  | .content => d.content

/-- The pattern that has to match somewhere in a text for a relation to hold. -/
def TextRelation.pattern (relation : TextRelation) (value : String) : String :=
  match relation with
  | .equals => "^(?:" ++ value ++ ")$"
  | .starts => "^(?:" ++ value ++ ")"
  | .contains => value

/-- Whether a relation holds between two literal texts. -/
def TextRelation.holds (relation : TextRelation) (text value : String) : Bool :=
  match relation with
  | .equals => text = value
  | .starts => Text.startsWith text value
  | .contains => Text.contains text value

/-- Whether a comparison holds that has a given outcome. -/
def Comparison.holds : Comparison → Ordering → Bool
  | .equal, o => o = .eq
  | .less, o => o = .lt
  | .greater, o => o = .gt

/-- Compile a source that was made from a pattern; what is refused is the pattern. -/
def compileFor (source pattern : String) (caseInsensitive : Bool) : Except RuleError Regex :=
  match Regex.compile source caseInsensitive with
  | .ok r => .ok r
  | .error _ => .error (.invalidRegex pattern)

/-- Compare a text with the value of a condition, as a pattern or literally. -/
def Condition.matchText (c : Condition) (text : String) (relation : TextRelation) :
    Except RuleError Bool :=
  if c.isRegex then do
    let r ← compileFor (relation.pattern c.value) c.value c.caseInsensitive
    return r.isMatch text
  else if c.caseInsensitive then
    .ok (relation.holds (Text.lowercase text) (Text.lowercase c.value))
  else .ok (relation.holds text c.value)

/-- The date that a value gives in a format, apart from white space around it. -/
def readDate (value format : String) : Except RuleError Date :=
  match Date.read? (Text.trimChars value.toList) format.toList with
  | some d => .ok d
  | none => .error (.invalidDate value format)

/-- The number of entries that a value gives, apart from white space around it. -/
def readCount (value : String) : Except RuleError Nat :=
  match Text.readCount? (Text.trimChars value.toList) with
  | some n => .ok n
  | none => .error (.invalidNumber value)

def Condition.requireKey (c : Condition) : Except RuleError Int :=
  match c.metadataKey with
  | some key => .ok key
  | none => .error (.missingMetadataKey c.kind.name)

/-- The key and the value of a condition that needs both. -/
def Condition.requireKeyValue (c : Condition) : Except RuleError (Int × Int) :=
  match c.metadataKey, c.metadataValue with
  | some key, some value => .ok (key, value)
  | _, _ => .error (.missingMetadataValue c.kind.name)

/-- Whether a condition holds for a document, before it is inverted. -/
def Condition.check (c : Condition) (d : Document) : Except RuleError Bool :=
  match c.kind with
  | .text field relation => c.matchText (d.text field) relation
  | .date comparison => do
    let date ← readDate c.value c.effectiveDateFormat
    return comparison.holds (d.date.date.compare date)
  | .hasKey => do
    let key ← c.requireKey
    return d.entries.any (·.keyId = key)
  | .hasKeyValue => do
    let (key, value) ← c.requireKeyValue
    return d.entries.any (·.ids = (key, value))
  | .entryCount comparison => do
    let n ← readCount c.value
    return comparison.holds (compare d.entries.length n)

end Docket
