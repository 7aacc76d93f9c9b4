import Docket.Document.Basic
import Docket.Json.Record

/-!
Documents as JSON values.
-/

namespace Docket

open Docket.Calendar (Instant)

def Calendar.Instant.toJson (t : Instant) : Json := .str t.toText

def Calendar.Instant.ofJson? : Json → Option Instant
  | .str s => Instant.read? s
  | _ => none

namespace Entry

def toJson (e : Entry) : Json := .obj [("key_id", .int e.keyId), ("key", .str e.key),
  ("value_id", .int e.valueId), ("value", .str e.value)]

/-- An entry from an object with all four fields. -/
def ofJson? (j : Json) : Option Entry := do
  match ← j.fields? ["key_id", "key", "value_id", "value"] with
  | [keyId, key, valueId, value] =>
    return {
      keyId := ← Json.required Json.int64? keyId
      key := ← Json.required Json.str? key
      valueId := ← Json.required Json.int64? valueId
      value := ← Json.required Json.str? value }
  | _ => none

end Entry

namespace Tag

def toJson (t : Tag) : Json := .obj [("id", .int t.id), ("key", .str t.key)]

/-- A tag from an object with both fields. -/
def ofJson? (j : Json) : Option Tag := do
  match ← j.fields? ["id", "key"] with
  | [id, key] =>
    return { id := ← Json.required Json.int64? id, key := ← Json.required Json.str? key }
  | _ => none

end Tag

namespace Document

def fieldNames : List String := ["id", "user_id", "name", "description", "content", "filename",
  "hash", "mimetype", "size", "date", "lang", "status", "metadata", "tags", "created_at",
  "updated_at"]

def toJson (d : Document) : Json := .obj [
  ("id", .str d.id),
  ("user_id", .int d.userId),
  ("name", .str d.name),
  ("description", .str d.description),
  ("content", .str d.content),
  ("filename", .str d.filename),
  ("hash", .str d.hash),
  ("mimetype", .str d.mimetype),
  ("size", .int d.size),
  ("date", d.date.toJson),
  ("lang", .str d.lang),
  ("status", .str d.status.name),
  ("metadata", .ofOption (fun es => .arr (es.map Entry.toJson)) d.metadata),
  ("tags", .ofOption (fun ts => .arr (ts.map Tag.toJson)) d.tags),
  ("created_at", d.createdAt.toJson),
  ("updated_at", d.updatedAt.toJson)]

/-- A document from an object. Metadata and tags may be missing or `null`. -/
def ofJson? (j : Json) : Option Document := do
  match ← j.fields? fieldNames with
  | [id, userId, name, description, content, filename, hash, mimetype, size, date, lang, status,
      metadata, tags, createdAt, updatedAt] =>
    return {
      id := ← Json.required Json.str? id
      userId := ← Json.required Json.int64? userId
      name := ← Json.required Json.str? name
      description := ← Json.required Json.str? description
      content := ← Json.required Json.str? content
      filename := ← Json.required Json.str? filename
      hash := ← Json.required Json.str? hash
      mimetype := ← Json.required Json.str? mimetype
      size := ← Json.required Json.int64? size
      date := ← Json.required Instant.ofJson? date
      lang := ← Json.required Json.str? lang
      status := ← Json.required (Json.named? DocumentStatus.ofName?) status
      metadata := ← Json.withDefault none (Json.nullable (Json.listOf Entry.ofJson?)) metadata
      tags := ← Json.withDefault none (Json.nullable (Json.listOf Tag.ofJson?)) tags
      createdAt := ← Json.required Instant.ofJson? createdAt
      updatedAt := ← Json.required Instant.ofJson? updatedAt }
  | _ => none

end Document

end Docket
