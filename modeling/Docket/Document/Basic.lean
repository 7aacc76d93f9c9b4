import Docket.Calendar.Instant
import Docket.Text.Lowercase
import Docket.Text.Path

/-!
Documents and what is attached to them.
-/

namespace Docket

open Docket.Calendar (Instant)

/-- Where a document stands. -/
inductive DocumentStatus where
  | processing
  | ready
  | error
deriving DecidableEq, Repr, Inhabited

namespace DocumentStatus

def name : DocumentStatus → String
  | .processing => "processing"
  | .ready => "ready"
  | .error => "error"

def ofName? : String → Option DocumentStatus
  | "processing" => some .processing
  | "ready" => some .ready
  | "error" => some .error
  | _ => none

theorem ofName?_name (s : DocumentStatus) : ofName? s.name = some s := by cases s <;> rfl

def unknownMessage (name : String) : String := "unknown document status '" ++ name ++ "'"

end DocumentStatus

/-- A key and a value attached to a document. The ids tell entries apart; the names are for display
and may be empty. -/
structure Entry where
  keyId : Int
  key : String := ""
  valueId : Int
  value : String := ""
deriving DecidableEq, Repr, Inhabited

namespace Entry

/-- What identifies an entry. -/
def ids (e : Entry) : Int × Int := (e.keyId, e.valueId)

end Entry

/-- A tag of a document. -/
structure Tag where
  id : Int
  key : String
deriving DecidableEq, Repr, Inhabited

/-- A document. Metadata and tags are `none` until they have been loaded. -/
structure Document where
  id : String
  userId : Int
  name : String
  description : String
  content : String
  /-- The name of the uploaded file. Its extension names the stored file. -/
  filename : String
  hash : String
  mimetype : String
  size : Int
  date : Instant
  lang : String
  status : DocumentStatus
  metadata : Option (List Entry)
  tags : Option (List Tag)
  createdAt : Instant
  updatedAt : Instant
deriving DecidableEq, Repr, Inhabited

namespace Document

/-- The extension of the uploaded file in lower case. -/
def extension? (d : Document) : Option String :=
  (Text.fileExtension? d.filename).map Text.lowercase

/-- The entries of a document; none before they have been loaded. -/
def entries (d : Document) : List Entry := d.metadata.getD []

/-- Whether a document has an entry with the same ids. -/
def hasEntry (d : Document) (e : Entry) : Bool := d.entries.any (·.ids = e.ids)

/-- Attach an entry, unless one with the same ids is attached. -/
def addEntry (d : Document) (e : Entry) : Document :=
  if d.hasEntry e then d else { d with metadata := some (d.entries ++ [e]) }

/-- Detach every entry with some ids. -/
def removeEntries (d : Document) (keyId valueId : Int) : Document :=
  { d with metadata := d.metadata.map (·.filter (·.ids ≠ (keyId, valueId))) }

def countEntries (d : Document) (keyId valueId : Int) : Nat :=
  d.entries.countP (·.ids = (keyId, valueId))

@[simp]
theorem entries_addEntry (d : Document) (e : Entry) :
    (d.addEntry e).entries = if d.hasEntry e then d.entries else d.entries ++ [e] := by
  unfold addEntry
  split <;> simp [entries]

@[simp]
theorem entries_removeEntries (d : Document) (k v : Int) :
    (d.removeEntries k v).entries = d.entries.filter (·.ids ≠ (k, v)) := by
  unfold removeEntries entries
  cases d.metadata <;> simp

end Document

end Docket
