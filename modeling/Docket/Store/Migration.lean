import Docket.Store.Error

/-!
The schema of the store, and the migrations that build it.  Each migration is a list of changes that
happens as a whole, together with the record that it has happened, or not at all.
-/

namespace Docket

/-- A column: its name, and its type and constraints as they are declared. -/
structure ColumnShape where
  name : String
  declared : String := ""
deriving DecidableEq, Repr

/-- A column may be declared by its name alone. -/
instance : Coe String ColumnShape := ⟨fun name => { name }⟩

/-- How a table is declared: its columns in their order, and the constraints on rows as wholes. -/
structure TableShape where
  name : String
  columns : List ColumnShape
  constraints : List String := []
deriving DecidableEq, Repr

/-- How an index is declared. -/
structure IndexShape where
  name : String
  table : String
  columns : List String
deriving DecidableEq, Repr

/-- A table, and the rows of cells in it. -/
structure StoredTable extends TableShape where
  rows : List (List String) := []
deriving DecidableEq, Repr

/-- What a database file holds: tables, indexes, and the migrations that have been carried out, each
with its version and description. -/
structure DatabaseFile where
  tables : List StoredTable := []
  indexes : List IndexShape := []
  /-- The record of migrations; `none` before it is kept. -/
  record : Option (List (Int × String)) := none
deriving DecidableEq, Repr, Inhabited

/-- A change of the schema. What is there already under its name is left as it is. -/
inductive SchemaChange where
  | createTable (t : TableShape)
  | createIndex (i : IndexShape)
deriving DecidableEq, Repr

/-- A step from one version of the schema to the next. -/
structure Migration where
  version : Nat
  description : String
  changes : List SchemaChange
deriving DecidableEq, Repr

def migrations : List Migration := [
  { version := 1
    description := "create_documents_table"
    changes := [
      .createTable {
        name := "documents"
        columns := [⟨"id", "TEXT PRIMARY KEY NOT NULL"⟩, ⟨"user_id", "INTEGER NOT NULL"⟩,
          ⟨"name", "TEXT NOT NULL DEFAULT ''"⟩, ⟨"description", "TEXT NOT NULL DEFAULT ''"⟩,
          ⟨"content", "TEXT NOT NULL DEFAULT ''"⟩, ⟨"filename", "TEXT NOT NULL"⟩,
          ⟨"hash", "TEXT NOT NULL DEFAULT ''"⟩, ⟨"mimetype", "TEXT NOT NULL DEFAULT ''"⟩,
          ⟨"size", "INTEGER NOT NULL DEFAULT 0"⟩, ⟨"date", "TEXT NOT NULL"⟩,
          ⟨"lang", "TEXT NOT NULL DEFAULT ''"⟩, ⟨"status", "TEXT NOT NULL DEFAULT 'processing'"⟩,
          ⟨"created_at", "TEXT NOT NULL"⟩, ⟨"updated_at", "TEXT NOT NULL"⟩] },
      .createIndex ⟨"idx_documents_user", "documents", ["user_id"]⟩,
      .createIndex ⟨"idx_documents_hash", "documents", ["hash"]⟩] },
  { version := 2
    description := "create_metadata_and_tag_tables"
    changes := [
      .createTable {
        name := "metadata_keys"
        columns := [⟨"id", "INTEGER PRIMARY KEY AUTOINCREMENT"⟩, ⟨"user_id", "INTEGER NOT NULL"⟩,
          ⟨"key", "TEXT NOT NULL"⟩]
        constraints := ["UNIQUE(user_id, key)"] },
      .createTable {
        name := "metadata_values"
        columns := [⟨"id", "INTEGER PRIMARY KEY AUTOINCREMENT"⟩,
          ⟨"key_id", "INTEGER NOT NULL REFERENCES metadata_keys(id) ON DELETE CASCADE"⟩,
          ⟨"value", "TEXT NOT NULL"⟩, ⟨"match_documents", "INTEGER NOT NULL DEFAULT 0"⟩,
          ⟨"match_type", "TEXT NOT NULL DEFAULT 'exact'"⟩,
          ⟨"match_filter", "TEXT NOT NULL DEFAULT ''"⟩]
        constraints := ["UNIQUE(key_id, value)"] },
      .createTable {
        name := "document_metadata"
        columns := [⟨"document_id", "TEXT NOT NULL REFERENCES documents(id) ON DELETE CASCADE"⟩,
          ⟨"key_id", "INTEGER NOT NULL REFERENCES metadata_keys(id) ON DELETE CASCADE"⟩,
          ⟨"value_id", "INTEGER NOT NULL REFERENCES metadata_values(id) ON DELETE CASCADE"⟩]
        constraints := ["PRIMARY KEY (document_id, key_id, value_id)"] },
      .createTable {
        name := "tags"
        columns := [⟨"id", "INTEGER PRIMARY KEY AUTOINCREMENT"⟩, ⟨"user_id", "INTEGER NOT NULL"⟩,
          ⟨"key", "TEXT NOT NULL"⟩]
        constraints := ["UNIQUE(user_id, key)"] },
      .createTable {
        name := "document_tags"
        columns := [⟨"document_id", "TEXT NOT NULL REFERENCES documents(id) ON DELETE CASCADE"⟩,
          ⟨"tag_id", "INTEGER NOT NULL REFERENCES tags(id) ON DELETE CASCADE"⟩]
        constraints := ["PRIMARY KEY (document_id, tag_id)"] }] },
  { version := 3
    description := "create_rule_tables"
    changes := [
      .createTable {
        name := "rules"
        columns := [⟨"id", "INTEGER PRIMARY KEY AUTOINCREMENT"⟩, ⟨"user_id", "INTEGER NOT NULL"⟩,
          ⟨"name", "TEXT NOT NULL"⟩, ⟨"description", "TEXT NOT NULL DEFAULT ''"⟩,
          ⟨"enabled", "INTEGER NOT NULL DEFAULT 1"⟩, ⟨"rule_order", "INTEGER NOT NULL"⟩,
          ⟨"mode", "TEXT NOT NULL DEFAULT 'match_all'"⟩]
        constraints := ["UNIQUE(user_id, rule_order)"] },
      .createTable {
        name := "rule_conditions"
        columns := [⟨"id", "INTEGER PRIMARY KEY AUTOINCREMENT"⟩,
          ⟨"rule_id", "INTEGER NOT NULL REFERENCES rules(id) ON DELETE CASCADE"⟩,
          ⟨"position", "INTEGER NOT NULL"⟩, ⟨"kind", "TEXT NOT NULL"⟩,
          ⟨"value", "TEXT NOT NULL DEFAULT ''"⟩, ⟨"enabled", "INTEGER NOT NULL DEFAULT 1"⟩,
          ⟨"case_insensitive", "INTEGER NOT NULL DEFAULT 0"⟩,
          ⟨"inverted", "INTEGER NOT NULL DEFAULT 0"⟩, ⟨"is_regex", "INTEGER NOT NULL DEFAULT 0"⟩,
          ⟨"date_format", "TEXT"⟩, ⟨"metadata_key", "INTEGER"⟩, ⟨"metadata_value", "INTEGER"⟩] },
      .createTable {
        name := "rule_actions"
        columns := [⟨"id", "INTEGER PRIMARY KEY AUTOINCREMENT"⟩,
          ⟨"rule_id", "INTEGER NOT NULL REFERENCES rules(id) ON DELETE CASCADE"⟩,
          ⟨"position", "INTEGER NOT NULL"⟩, ⟨"kind", "TEXT NOT NULL"⟩,
          ⟨"value", "TEXT NOT NULL DEFAULT ''"⟩, ⟨"enabled", "INTEGER NOT NULL DEFAULT 1"⟩,
          ⟨"on_condition", "INTEGER NOT NULL DEFAULT 1"⟩, ⟨"metadata_key", "INTEGER"⟩,
          ⟨"metadata_value", "INTEGER"⟩] },
      .createIndex ⟨"idx_rule_conditions_rule", "rule_conditions", ["rule_id", "position"]⟩,
      .createIndex ⟨"idx_rule_actions_rule", "rule_actions", ["rule_id", "position"]⟩] },
  { version := 4
    description := "create_process_queue_table"
    changes := [
      .createTable {
        name := "process_queue"
        columns := [⟨"document_id", "TEXT NOT NULL REFERENCES documents(id) ON DELETE CASCADE"⟩,
          ⟨"step", "TEXT NOT NULL"⟩, ⟨"status", "TEXT NOT NULL DEFAULT 'pending'"⟩,
          ⟨"message", "TEXT"⟩, ⟨"created_at", "TEXT NOT NULL"⟩, ⟨"started_at", "TEXT"⟩,
          ⟨"stopped_at", "TEXT"⟩]
        constraints := ["PRIMARY KEY (document_id, step)"] },
      .createIndex ⟨"idx_process_queue_status", "process_queue", ["status", "created_at"]⟩] }]

/-- Why the schema could not be brought up to date. -/
inductive MigrationError where
  /-- A migration failed. What the database says about it is left to the database. -/
  | failed (m : Migration)
  | store (e : StoreError)
deriving DecidableEq, Repr

def MigrationError.message : MigrationError → String
  | .failed m => "Migration v" ++ toString m.version ++ " (" ++ m.description ++ ")"
  | .store e => e.message

namespace DatabaseFile

def table? (f : DatabaseFile) (name : String) : Option StoredTable :=
  f.tables.find? (·.name = name)

def hasIndex (f : DatabaseFile) (name : String) : Bool := f.indexes.any (·.name = name)

/-- The database after a change; `none` if a table would have the name of an index or the other way
round, or an index would be over a column that does not exist. -/
def change? (f : DatabaseFile) : SchemaChange → Option DatabaseFile
  | .createTable t =>
    if (f.table? t.name).isSome then some f
    else if f.hasIndex t.name then none
    else some { f with tables := f.tables ++ [{ toTableShape := t }] }
  | .createIndex i =>
    match f.table? i.table with
    | none => none
    | some t =>
      if (f.table? i.name).isSome then none
      else if f.hasIndex i.name then some f
      else if !i.columns.all (t.columns.map (·.name)).contains then none
      else some { f with indexes := f.indexes ++ [i] }

/-- The database after changes in order; `none` if one of them fails. -/
def changeAll? (f : DatabaseFile) (changes : List SchemaChange) : Option DatabaseFile :=
  changes.foldlM change? f

/-- The record of migrations, empty before it is kept. -/
def recorded (f : DatabaseFile) : List (Int × String) := f.record.getD []

/-- The version of the schema: the greatest that is recorded, and 0 if none is. -/
def version (f : DatabaseFile) : Int :=
  match (f.recorded.map (·.1)) with
  | [] => 0
  | v :: rest => rest.foldl max v

/-- The database after a migration with its record; `none` if a change fails. -/
def migrate? (f : DatabaseFile) (m : Migration) : Option DatabaseFile :=
  (f.changeAll? m.changes).map fun f =>
    { f with record := some (f.recorded ++ [((m.version : Int), m.description)]) }

/-- Carry out migrations in order, up to the first that fails. -/
def migrateAll (f : DatabaseFile) : List Migration → Except MigrationError Unit × DatabaseFile
  | [] => (.ok (), f)
  | m :: rest =>
    match f.migrate? m with
    | some f => f.migrateAll rest
    | none => (.error (.failed m), f)

/-- Bring the schema up to date: carry out the migrations above the recorded version. -/
def upgrade (f : DatabaseFile) : Except MigrationError Unit × DatabaseFile :=
  let f := { f with record := some f.recorded }
  let current := f.version
  if current < 0 ∨ Int.pow 2 32 ≤ current then (.error (.store (.outOfRange 0 current)), f)
  else f.migrateAll (migrations.filter fun m => current < m.version)

/-- The names of all tables, in the order of their text. -/
def tableNames (f : DatabaseFile) : List String :=
  let names := f.tables.map (·.name) ++ (if f.record.isSome then ["_migrations"] else [])
  names.mergeSort fun a b => !(b < a)

end DatabaseFile

end Docket
