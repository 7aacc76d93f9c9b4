import Docket.Daemon.LogFormat
import Docket.Json.Printer

/-!
What the service logs.
-/

namespace Docket

/-- How serious a record is. -/
inductive LogLevel where
  | info
  | error
deriving DecidableEq, Repr

def LogLevel.name : LogLevel → String
  | .info => "INFO"
  | .error => "ERROR"

/-- A record: a message, and named values that belong to it. -/
structure LogRecord where
  level : LogLevel := .info
  message : String
  fields : List (String × String) := []
deriving DecidableEq, Repr

namespace LogRecord

def toJson (r : LogRecord) : Json := .obj [
  ("level", .str r.level.name),
  ("fields", .obj (("message", .str r.message) :: r.fields.map fun (name, value) => (name, .str value)))]

/-- A record as text: the values stand behind the message. -/
def toText (r : LogRecord) : String :=
  String.join (r.message :: r.fields.map fun (name, value) => " " ++ name ++ "=" ++ value)

def line (r : LogRecord) : LogFormat → String
  | .json => r.toJson.print
  | .text => r.level.name ++ " " ++ r.toText

end LogRecord

end Docket
