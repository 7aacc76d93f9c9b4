import Docket.Store.Documents
import Docket.Rule.AutoMatch

/-!
Keys, values and tags of the store, and what is attached to documents.
-/

namespace Docket

open Docket.Calendar (Instant)

namespace Store

/-- Store a new key; also its id. -/
def insertKey (s : Store) (userId : Int) (key : String) : Except StoreError (Int × Store) := do
  require (!s.keys.any fun r => r.userId = userId && r.key = key)
    (.notUnique "metadata_keys" ["user_id", "key"])
  let id := s.lastKey + 1
  return (id, { s with keys := s.keys ++ [⟨id, userId, key⟩], lastKey := id })

/-- Store a new value of a key, and how it is attached automatically, if it is; also its id. -/
def insertValue (s : Store) (keyId : Int) (value : String) (auto : Option (MatchType × String)) :
    Except StoreError (Int × Store) := do
  require (!s.values.any fun r => r.keyId = keyId && r.value = value)
    (.notUnique "metadata_values" ["key_id", "value"])
  require (s.hasKey keyId) .brokenReference
  let id := s.lastValue + 1
  let (matchType, filter) := auto.getD (.exact, "")
  let row : ValueRow := ⟨id, keyId, value, auto.isSome, matchType.name, filter⟩
  return (id, { s with values := s.values ++ [row], lastValue := id })

/-- Store a new tag; also its id. -/
def insertTag (s : Store) (userId : Int) (key : String) : Except StoreError (Int × Store) := do
  require (!s.tags.any fun r => r.userId = userId && r.key = key)
    (.notUnique "tags" ["user_id", "key"])
  let id := s.lastTag + 1
  return (id, { s with tags := s.tags ++ [⟨id, userId, key⟩], lastTag := id })

/-- Attach a tag to a document, unless it is attached. -/
def attachTag (s : Store) (documentId : String) (tagId : Int) : Except StoreError Store := do
  let row : TaggingRow := ⟨documentId, tagId⟩
  require (s.hasDocument documentId && s.hasTag tagId) .brokenReference
  return if s.taggings.contains row then s else { s with taggings := s.taggings ++ [row] }

def EntryRow.le (a b : EntryRow) : Bool :=
  if a.keyId = b.keyId then a.valueId ≤ b.valueId else a.keyId < b.keyId

/-- Order by the texts of key and value. -/
def entryLe (a b : Entry) : Bool := if a.key = b.key then !(b.value < a.value) else a.key < b.key

/-- The entry of a row, with the names of its key and value. -/
def nameEntry? (s : Store) (r : EntryRow) : Option Entry := do
  let k ← s.keys.find? (·.id = r.keyId)
  let v ← s.values.find? (·.id = r.valueId)
  return ⟨k.id, k.key, v.id, v.value⟩

/-- What is attached to a document, ordered by the texts of key and value. Entries of equal texts
are ordered by their ids. -/
def documentEntries (s : Store) (id : String) : List Entry :=
  let rows := (s.entries.filter (·.documentId = id)).mergeSort EntryRow.le
  (rows.filterMap s.nameEntry?).mergeSort entryLe

/-- The tags of a document, ordered by their texts; tags of equal texts by their ids. -/
def documentTags (s : Store) (id : String) : List Tag :=
  let rows := (s.taggings.filter (·.documentId = id)).mergeSort fun a b => a.tagId ≤ b.tagId
  let tags := rows.filterMap fun r =>
    (s.tags.find? (·.id = r.tagId)).map fun t => (⟨t.id, t.key⟩ : Tag)
  tags.mergeSort fun a b => !(b.key < a.key)

/-- The values of a user that are attached automatically, oldest first. -/
def autoMatchValues (s : Store) (userId : Int) : Except StoreError (List AutoMatchValue) :=
  let named := s.values.filterMap fun v =>
    (s.keys.find? fun k => k.id = v.keyId && k.userId = userId).map fun k => (k, v)
  let rows := (named.filter (·.2.automatic)).mergeSort fun a b => a.2.id ≤ b.2.id
  rows.mapM fun (k, v) => do
    let matchType ← readNamed 4 MatchType.ofText? MatchType.unknownMessage v.matchType
    return { keyId := k.id, key := k.key, valueId := v.id, value := v.value, matchType,
             filter := v.filter }

/-- Attach entries to a document instead of what is attached. Either all are attached or none. -/
def replaceEntries (s : Store) (id : String) (entries : List (Int × Int)) :
    Except StoreError Store := do
  require (entries.all fun (k, v) => s.hasDocument id && s.hasKey k && s.hasValue v) .brokenReference
  return { s with
    entries := s.entries.filter (·.documentId ≠ id) ++
      entries.eraseDups.map fun (k, v) => ⟨id, k, v⟩ }

/-- Store the fields of a document, and attach entries instead of what is attached; also whether the
document is stored. Either everything is stored or nothing. -/
def updateWithEntries (s : Store) (d : Document) (entries : List (Int × Int)) (now : Instant) :
    Except StoreError (Bool × Store) :=
  match s.updateDocument d now with
  | (false, _) => .ok (false, s)
  | (true, updated) => (updated.replaceEntries d.id entries).map fun s => (true, s)

end Store

end Docket
