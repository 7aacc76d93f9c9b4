import Docket.Rule.Basic

/-!
Why the store refuses a request.
-/

namespace Docket

/-- Why the store refuses a request. -/
inductive StoreError where
  /-- The text in a column spells no value of its kind; `complaint` is the text and what is wrong
  with it, unless the reader of the text keeps that to itself. -/
  | unreadable (column : Nat) (complaint : Option (String × String))
  /-- Two rows would agree in columns that tell rows apart. -/
  | notUnique (table : String) (columns : List String)
  /-- A row would refer to a row that does not exist. -/
  | brokenReference
  /-- A stored number is out of the range of its use. -/
  | outOfRange (column : Nat) (value : Int)
  | noDocument (id : String)
  /-- The request failed for a reason of its own. -/
  | corrupt (reason : String)
  | invalidRule (e : RuleError)
deriving DecidableEq, Repr

namespace StoreError

def tableMessage : StoreError → String
  | .unreadable column complaint =>
    "Conversion error from type Text at index: " ++ toString column ++
      match complaint with
      | some (text, complaint) => ", invalid value '" ++ text ++ "': " ++ complaint
      | none => ""
  | .notUnique table columns =>
    "UNIQUE constraint failed: " ++ ", ".intercalate (columns.map fun c => table ++ "." ++ c)
  | .brokenReference => "FOREIGN KEY constraint failed"
  | .outOfRange column value =>
    "Integer " ++ toString value ++ " out of range at index " ++ toString column
  | _ => ""

def message : StoreError → String
  | .noDocument id => "document '" ++ id ++ "' not found"
  | .corrupt reason => "Invalid stored value: " ++ reason
  | .invalidRule e => "Invalid rule: " ++ e.message
  | e => "SQLite error: " ++ e.tableMessage

end StoreError

end Docket
