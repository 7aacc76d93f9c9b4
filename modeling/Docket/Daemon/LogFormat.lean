/-!
The forms in which messages are logged.
-/

namespace Docket

/-- A form of messages. -/
inductive LogFormat where
  | text
  | json
deriving DecidableEq, Repr, Inhabited

namespace LogFormat

/-- The form that a text names, whatever its case; an empty one means plain text. The error is the
complaint about any other. -/
def ofText (text : String) : Except String LogFormat :=
  match String.ofList (text.toList.map Char.toLower) with
  | "text" | "" => .ok .text
  | "json" => .ok .json
  | other => .error ("unknown log format '" ++ other ++ "'")

end LogFormat

end Docket
