import Docket.Store.Error
import Docket.Calendar.Instant

/-!
The tables of the store.  A column that holds a status, a kind, a step or a moment holds its text, so
that a text that spells none can stand there; it is found out when the row is read.
-/

namespace Docket

open Docket.Calendar (Instant)

/-- A row of documents. -/
structure DocumentRow where
  id : String
  userId : Int
  name : String
  description : String
  content : String
  filename : String
  hash : String
  mimetype : String
  size : Int
  date : String
  lang : String
  status : String
  createdAt : String
  updatedAt : String
deriving DecidableEq, Repr

/-- A row of jobs: a step that a document has to pass, or has failed to pass. -/
structure JobRow where
  documentId : String
  step : String
  status : String
  message : Option String
  createdAt : String
  startedAt : Option String
  stoppedAt : Option String
deriving DecidableEq, Repr

/-- A row of keys. -/
structure KeyRow where
  id : Int
  userId : Int
  key : String
deriving DecidableEq, Repr

/-- A row of values of a key. -/
structure ValueRow where
  id : Int
  keyId : Int
  value : String
  /-- Whether the value is attached to documents whose content mentions it. -/
  automatic : Bool
  matchType : String
  filter : String
deriving DecidableEq, Repr

/-- A row that attaches a key and a value to a document. -/
structure EntryRow where
  documentId : String
  keyId : Int
  valueId : Int
deriving DecidableEq, Repr

/-- A row of tags. -/
structure TagRow where
  id : Int
  userId : Int
  key : String
deriving DecidableEq, Repr

/-- A row that attaches a tag to a document. -/
structure TaggingRow where
  documentId : String
  tagId : Int
deriving DecidableEq, Repr

/-- A row of rules. -/
structure RuleRow where
  id : Int
  userId : Int
  name : String
  description : String
  enabled : Bool
  order : Int
  mode : String
deriving DecidableEq, Repr

/-- A row of conditions of a rule. -/
structure ConditionRow where
  id : Int
  ruleId : Int
  position : Nat
  kind : String
  value : String
  enabled : Bool
  caseInsensitive : Bool
  inverted : Bool
  isRegex : Bool
  dateFormat : Option String
  metadataKey : Option Int
  metadataValue : Option Int
deriving DecidableEq, Repr

/-- A row of actions of a rule. -/
structure ActionRow where
  id : Int
  ruleId : Int
  position : Nat
  kind : String
  value : String
  enabled : Bool
  onCondition : Bool
  metadataKey : Option Int
  metadataValue : Option Int
deriving DecidableEq, Repr

/-- All tables, each with the last id that was given out in it. Ids are never given out twice. -/
structure Store where
  documents : List DocumentRow := []
  jobs : List JobRow := []
  keys : List KeyRow := []
  values : List ValueRow := []
  entries : List EntryRow := []
  tags : List TagRow := []
  taggings : List TaggingRow := []
  rules : List RuleRow := []
  conditions : List ConditionRow := []
  actions : List ActionRow := []
  lastKey : Int := 0
  lastValue : Int := 0
  lastTag : Int := 0
  lastRule : Int := 0
  lastCondition : Int := 0
  lastAction : Int := 0
deriving DecidableEq, Repr, Inhabited

def readMoment (column : Nat) (text : String) : Except StoreError Instant :=
  match Instant.readStrict? text with
  | some t => .ok t
  | none => .error (.unreadable column none)

def readMoment? (column : Nat) : Option String → Except StoreError (Option Instant)
  | none => .ok none
  | some text => (readMoment column text).map some

/-- Read one of several named values from a column. -/
def readNamed {α : Type} (column : Nat) (ofName? : String → Option α) (complaint : String → String)
    (text : String) : Except StoreError α :=
  match ofName? text with
  | some a => .ok a
  | none => .error (.unreadable column (some (text, complaint text)))

namespace Store

def hasDocument (s : Store) (id : String) : Bool := s.documents.any (·.id = id)

def hasKey (s : Store) (id : Int) : Bool := s.keys.any (·.id = id)

def hasValue (s : Store) (id : Int) : Bool := s.values.any (·.id = id)

def hasTag (s : Store) (id : Int) : Bool := s.tags.any (·.id = id)

def hasRule (s : Store) (id : Int) : Bool := s.rules.any (·.id = id)

/-- Go on if a condition holds, and else fail with an error. -/
def require (ok : Bool) (e : StoreError) : Except StoreError Unit := if ok then .ok () else .error e

end Store

end Docket
