import Docket.Rule.Condition
import Docket.Json.Record

/-!
Values that are attached to a document because its content mentions them.
-/

namespace Docket

/-- How a value is looked for. -/
inductive MatchType where
  /-- The value itself, whatever its case. -/
  | exact
  /-- The filter of the value, as a pattern. -/
  | regex
deriving DecidableEq, Repr, Inhabited

namespace MatchType

def name : MatchType → String
  | .exact => "exact"
  | .regex => "regex"

def ofName? : String → Option MatchType
  | "exact" => some .exact
  | "regex" => some .regex
  | _ => none

/-- The way that a stored text means; an empty one means the default. -/
def ofText? (text : String) : Option MatchType := if text.isEmpty then some .exact else ofName? text

def unknownMessage (name : String) : String := "unknown match type '" ++ name ++ "'"

end MatchType

/-- A value that may be attached. -/
structure AutoMatchValue where
  keyId : Int
  key : String
  valueId : Int
  value : String
  matchType : MatchType := .exact
  filter : String := ""
deriving DecidableEq, Repr

namespace AutoMatchValue

def entry (v : AutoMatchValue) : Entry := ⟨v.keyId, v.key, v.valueId, v.value⟩

def ofJson? (j : Json) : Option AutoMatchValue := do
  match ← j.fields? ["key_id", "key", "value_id", "value", "match_type", "match_filter"] with
  | [keyId, key, valueId, value, matchType, filter] =>
    return {
      keyId := ← Json.required Json.int64? keyId
      key := ← Json.required Json.str? key
      valueId := ← Json.required Json.int64? valueId
      value := ← Json.required Json.str? value
      matchType := ← Json.withDefault .exact (Json.named? MatchType.ofName?) matchType
      filter := ← Json.withDefault "" Json.str? filter }
  | _ => none

def toJson (v : AutoMatchValue) : Json := .obj [
  ("key_id", .int v.keyId), ("key", .str v.key), ("value_id", .int v.valueId), ("value", .str v.value),
  ("match_type", .str v.matchType.name), ("match_filter", .str v.filter)]

end AutoMatchValue

/-- Filters that have been compiled, with what became of them. -/
abbrev FilterCache := List (String × Option Regex)

/-- A filter from the cache, or compiled and put there. -/
def FilterCache.compile (cache : FilterCache) (filter : String) : Option Regex × FilterCache :=
  match cache.find? (·.1 = filter) with
  | some (_, r) => (r, cache)
  | none =>
    let r := (Regex.compile filter false).toOption
    (r, (filter, r) :: cache)

/-- Whether a value is found in a content, given also in lower case. A blank value and an empty or
malformed filter find nothing. -/
def AutoMatchValue.found (v : AutoMatchValue) (content lowered : String) (cache : FilterCache) :
    Bool × FilterCache :=
  match v.matchType with
  | .exact =>
    let needle := Text.lowercase (Text.trim v.value)
    (!needle.isEmpty && Text.contains lowered needle, cache)
  | .regex =>
    if v.filter.isEmpty then (false, cache)
    else
      let (r, cache) := cache.compile v.filter
      (r.any (·.isMatch content), cache)

/-- Attach every value that is found in the content and not yet attached; also the number of those. -/
def Document.autoMatch (d : Document) (values : List AutoMatchValue) : Document × Nat :=
  let lowered := Text.lowercase d.content
  let rec go (d : Document) (added : Nat) (cache : FilterCache) :
      List AutoMatchValue → Document × Nat
    | [] => (d, added)
    | v :: rest =>
      let (found, cache) := v.found d.content lowered cache
      if found && !d.hasEntry v.entry then go (d.addEntry v.entry) (added + 1) cache rest
      else go d added cache rest
  go d 0 [] values

end Docket
