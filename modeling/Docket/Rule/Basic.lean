import Docket.Document.Basic

/-!
Rules of a user: conditions on a document, and actions that change it.
-/

namespace Docket

/-- The text of a document that a condition looks at. -/
inductive TextField where
  | name
  | description
  | content
deriving DecidableEq, Repr

/-- How a text is compared with the value of a condition. -/
inductive TextRelation where
  | equals
  | starts
  | contains
deriving DecidableEq, Repr

/-- How a date or a number is compared with the value of a condition. -/
inductive Comparison where
  | equal
  | less
  | greater
deriving DecidableEq, Repr

/-- What a condition asks of a document. -/
inductive ConditionKind where
  | text (field : TextField) (relation : TextRelation)
  | date (comparison : Comparison)
  | hasKey
  | hasKeyValue
  | entryCount (comparison : Comparison)
deriving DecidableEq, Repr

/-- What an action does to a document. -/
inductive ActionKind where
  | setName
  | appendName
  | setDescription
  | appendDescription
  | setDate
  | addEntry
  | removeEntry
deriving DecidableEq, Repr

/-- Whether all conditions have to hold or one is enough. -/
inductive RuleMode where
  | all
  | any
deriving DecidableEq, Repr, Inhabited

namespace ConditionKind

def every : List ConditionKind := [
  .text .name .equals, .text .name .starts, .text .name .contains,
  .text .description .equals, .text .description .starts, .text .description .contains,
  .text .content .equals, .text .content .starts, .text .content .contains,
  .date .equal, .date .greater, .date .less,
  .hasKey, .hasKeyValue,
  .entryCount .equal, .entryCount .less, .entryCount .greater]

def name : ConditionKind → String
  | .text .name .equals => "name_is"
  | .text .name .starts => "name_starts"
  | .text .name .contains => "name_contains"
  | .text .description .equals => "description_is"
  | .text .description .starts => "description_starts"
  | .text .description .contains => "description_contains"
  | .text .content .equals => "content_is"
  | .text .content .starts => "content_starts"
  | .text .content .contains => "content_contains"
  | .date .equal => "date_is"
  | .date .greater => "date_after"
  | .date .less => "date_before"
  | .hasKey => "metadata_has_key"
  | .hasKeyValue => "metadata_has_key_value"
  | .entryCount .equal => "metadata_count"
  | .entryCount .less => "metadata_count_less_than"
  | .entryCount .greater => "metadata_count_more_than"

def ofName? (name : String) : Option ConditionKind := every.find? (·.name = name)

def isDate : ConditionKind → Bool
  | .date _ => true
  | _ => false

/-- Whether the value of a condition is a number of entries. -/
def isCount : ConditionKind → Bool
  | .entryCount _ => true
  | _ => false

/-- Whether a condition asks for the presence of an entry. -/
def isPresence : ConditionKind → Bool
  | .hasKey | .hasKeyValue => true
  | _ => false

/-- Whether the value of a condition is a text or a pattern. -/
def isTextual : ConditionKind → Bool
  | .text _ _ => true
  | _ => false

end ConditionKind

namespace ActionKind

def every : List ActionKind := [.setName, .appendName, .setDescription, .appendDescription, .setDate,
  .addEntry, .removeEntry]

def name : ActionKind → String
  | .setName => "name_set"
  | .appendName => "name_append"
  | .setDescription => "description_set"
  | .appendDescription => "description_append"
  | .setDate => "date_set"
  | .addEntry => "metadata_add"
  | .removeEntry => "metadata_remove"

def ofName? (name : String) : Option ActionKind := every.find? (·.name = name)

end ActionKind

namespace RuleMode

def name : RuleMode → String
  | .all => "match_all"
  | .any => "match_any"

def ofName? : String → Option RuleMode
  | "match_all" => some .all
  | "match_any" => some .any
  | _ => none

end RuleMode

/-- The format of dates where a condition or an action gives none. -/
def defaultDateFormat : String := "%Y-%m-%d"

/-- A condition of a rule. -/
structure Condition where
  id : Int := 0
  kind : ConditionKind
  value : String := ""
  enabled : Bool := true
  caseInsensitive : Bool := false
  inverted : Bool := false
  /-- Whether the value is a pattern; only the conditions on texts heed it. -/
  isRegex : Bool := false
  dateFormat : Option String := none
  metadataKey : Option Int := none
  metadataValue : Option Int := none
deriving DecidableEq, Repr

/-- The format of the date of a condition; an empty one counts as none. -/
def Condition.effectiveDateFormat (c : Condition) : String :=
  match c.dateFormat with
  | none => defaultDateFormat
  | some format => if format.isEmpty then defaultDateFormat else format

/-- An action of a rule. -/
structure Action where
  id : Int := 0
  kind : ActionKind
  value : String := ""
  enabled : Bool := true
  /-- Whether the action waits for the rule to match. -/
  onCondition : Bool := true
  metadataKey : Option Int := none
  metadataValue : Option Int := none
deriving DecidableEq, Repr

/-- A rule of a user. -/
structure Rule where
  id : Int := 0
  userId : Int
  name : String
  description : String := ""
  enabled : Bool := true
  /-- Rules run in ascending order, which is unique for each user. -/
  order : Int
  mode : RuleMode := .all
  conditions : List Condition := []
  actions : List Action := []
deriving DecidableEq, Repr

/-- Why a rule cannot be read, saved or carried out. -/
inductive RuleError where
  | unknownConditionKind (name : String)
  | unknownActionKind (name : String)
  | unknownMode (name : String)
  | invalidRegex (pattern : String)
  | invalidDate (value format : String)
  | invalidNumber (value : String)
  | missingMetadataKey (kind : String)
  | missingMetadataValue (kind : String)
  | notRegistered (kind : String)
deriving DecidableEq, Repr

/-- The wording of an error. The reason why a pattern is refused is left to the reader of the
pattern, so a mark stands in its place. -/
def RuleError.message : RuleError → String
  | .unknownConditionKind name => "Unknown condition kind '" ++ name ++ "'"
  | .unknownActionKind name => "Unknown action kind '" ++ name ++ "'"
  | .unknownMode name => "Unknown rule mode '" ++ name ++ "'"
  | .invalidRegex pattern => "Invalid regular expression '" ++ pattern ++ "': <reason>"
  | .invalidDate value format => "Invalid date '" ++ value ++ "' for format '" ++ format ++ "'"
  | .invalidNumber value => "Invalid number '" ++ value ++ "'"
  | .missingMetadataKey kind => "'" ++ kind ++ "' requires a metadata key"
  | .missingMetadataValue kind => "'" ++ kind ++ "' requires a metadata key and value"
  | .notRegistered kind => "No evaluator registered for '" ++ kind ++ "'"

end Docket
