import Docket.Store.Tables

/-!
The documents of the store.  Moments are stored to the microsecond.
-/

namespace Docket

open Docket.Calendar (Instant)

namespace DocumentRow

def ofDocument (d : Document) : DocumentRow where
  id := d.id
  userId := d.userId
  name := d.name
  description := d.description
  content := d.content
  filename := d.filename
  hash := d.hash
  mimetype := d.mimetype
  size := d.size
  date := d.date.toMicrosText
  lang := d.lang
  status := d.status.name
  createdAt := d.createdAt.toMicrosText
  updatedAt := d.updatedAt.toMicrosText

/-- The document of a row, without metadata and tags. -/
def read (r : DocumentRow) : Except StoreError Document := do
  let date ← readMoment 9 r.date
  let status ← readNamed 11 DocumentStatus.ofName? DocumentStatus.unknownMessage r.status
  let createdAt ← readMoment 12 r.createdAt
  let updatedAt ← readMoment 13 r.updatedAt
  return {
    id := r.id, userId := r.userId, name := r.name, description := r.description,
    content := r.content, filename := r.filename, hash := r.hash, mimetype := r.mimetype,
    size := r.size, date, lang := r.lang, status, metadata := none, tags := none, createdAt,
    updatedAt }

/-- A row with the fields of a document, except its id, its user and the time of its creation. -/
def withFieldsOf (r : DocumentRow) (d : Document) (now : Instant) : DocumentRow :=
  { DocumentRow.ofDocument d with
    id := r.id
    userId := r.userId
    createdAt := r.createdAt
    updatedAt := now.toMicrosText }

end DocumentRow

namespace Store

def documentRow? (s : Store) (id : String) : Option DocumentRow := s.documents.find? (·.id = id)

/-- Change the row of a document; also whether there is one. -/
def changeDocument (s : Store) (id : String) (f : DocumentRow → DocumentRow) : Bool × Store :=
  (s.hasDocument id,
    { s with documents := s.documents.map fun r => if r.id = id then f r else r })

def insertDocument (s : Store) (d : Document) : Except StoreError Store := do
  require (!s.hasDocument d.id) (.notUnique "documents" ["id"])
  return { s with documents := s.documents ++ [.ofDocument d] }

def findDocument (s : Store) (id : String) : Except StoreError (Option Document) :=
  match s.documentRow? id with
  | none => .ok none
  | some r => r.read.map some

def getDocument (s : Store) (id : String) : Except StoreError Document := do
  match ← s.findDocument id with
  | some d => .ok d
  | none => .error (.noDocument id)

/-- Store the fields of a document; also whether it is stored. -/
def updateDocument (s : Store) (d : Document) (now : Instant) : Bool × Store :=
  s.changeDocument d.id (·.withFieldsOf d now)

/-- Store the content of a document; also whether it is stored. -/
def setContent (s : Store) (id content : String) (now : Instant) : Bool × Store :=
  s.changeDocument id fun r => { r with content, updatedAt := now.toMicrosText }

/-- Store the status of a document; also whether it is stored. -/
def setStatus (s : Store) (id : String) (status : DocumentStatus) (now : Instant) : Bool × Store :=
  s.changeDocument id fun r => { r with status := status.name, updatedAt := now.toMicrosText }

/-- Delete a document and everything attached to it; also whether there was one. -/
def deleteDocument (s : Store) (id : String) : Bool × Store :=
  (s.hasDocument id,
    { s with
      documents := s.documents.filter (·.id ≠ id)
      jobs := s.jobs.filter (·.documentId ≠ id)
      entries := s.entries.filter (·.documentId ≠ id)
      taggings := s.taggings.filter (·.documentId ≠ id) })

/-- Turn the answer whether a document is stored into an error where it is not. -/
def orNoDocument (id : String) : Bool × Store → Except StoreError Store
  | (true, s) => .ok s
  | (false, _) => .error (.noDocument id)

end Store

end Docket
