import Docket.Config.Basic
import Docket.Json.Reader
import Docket.Json.Record

/-!
Settings as JSON.
-/

namespace Docket

def Json.word64? : Json → Option Nat := Json.natBelow? (Nat.pow 2 64)

def Json.word32? : Json → Option Nat := Json.natBelow? (Nat.pow 2 32)

namespace ProcessingSettings

/-- Settings from an object or an array; a missing field has its default. -/
def ofJson? (j : Json) : Option ProcessingSettings := do
  match ← j.fields? ["worker_count", "queue_capacity", "poll_interval_secs", "idle_interval_ms",
      "pull_batch_size"] with
  | [workerCount, queueCapacity, pollIntervalSecs, idleIntervalMs, pullBatchSize] =>
    return {
      workerCount := ← Json.withDefault none (fun j => j.word64?.map some) workerCount
      queueCapacity := ← Json.withDefault 3 Json.word64? queueCapacity
      pollIntervalSecs := ← Json.withDefault 60 Json.word64? pollIntervalSecs
      idleIntervalMs := ← Json.withDefault 1000 Json.word64? idleIntervalMs
      pullBatchSize := ← Json.withDefault 100 Json.word64? pullBatchSize }
  | _ => none

/-- Settings as an object. -/
def toJson (s : ProcessingSettings) : Json := .obj [
  ("worker_count", .ofOption Json.nat s.workerCount),
  ("queue_capacity", .nat s.queueCapacity),
  ("poll_interval_secs", .nat s.pollIntervalSecs),
  ("idle_interval_ms", .nat s.idleIntervalMs),
  ("pull_batch_size", .nat s.pullBatchSize)]

end ProcessingSettings

namespace OcrSettings

@[inherit_doc ProcessingSettings.ofJson?]
def ofJson? (j : Json) : Option OcrSettings := do
  match ← j.fields? ["enabled", "languages", "dpi"] with
  | [enabled, languages, dpi] =>
    return {
      enabled := ← Json.withDefault true Json.bool? enabled
      languages := ← Json.withDefault ["eng"] (Json.listOf Json.str?) languages
      dpi := ← Json.withDefault 300 Json.word32? dpi }
  | _ => none

@[inherit_doc ProcessingSettings.toJson]
def toJson (s : OcrSettings) : Json := .obj [
  ("enabled", .bool s.enabled),
  ("languages", .arr (s.languages.map .str)),
  ("dpi", .nat s.dpi)]

end OcrSettings

namespace ToolSettings

@[inherit_doc ProcessingSettings.ofJson?]
def ofJson? (j : Json) : Option ToolSettings := do
  match ← j.fields? ["tesseract", "pdftoppm", "pdfinfo", "pandoc"] with
  | [tesseract, pdftoppm, pdfinfo, pandoc] =>
    return {
      tesseract := ← Json.withDefault "tesseract" Json.str? tesseract
      pdftoppm := ← Json.withDefault "pdftoppm" Json.str? pdftoppm
      pdfinfo := ← Json.withDefault "pdfinfo" Json.str? pdfinfo
      pandoc := ← Json.withDefault "pandoc" Json.str? pandoc }
  | _ => none

@[inherit_doc ProcessingSettings.toJson]
def toJson (s : ToolSettings) : Json := .obj [
  ("tesseract", .str s.tesseract),
  ("pdftoppm", .str s.pdftoppm),
  ("pdfinfo", .str s.pdfinfo),
  ("pandoc", .str s.pandoc)]

end ToolSettings

namespace LanguageSettings

@[inherit_doc ProcessingSettings.ofJson?]
def ofJson? (j : Json) : Option LanguageSettings := do
  match ← j.fields? ["enabled", "max_chars"] with
  | [enabled, maxChars] =>
    return {
      enabled := ← Json.withDefault true Json.bool? enabled
      maxChars := ← Json.withDefault 2000 Json.word64? maxChars }
  | _ => none

@[inherit_doc ProcessingSettings.toJson]
def toJson (s : LanguageSettings) : Json := .obj [
  ("enabled", .bool s.enabled),
  ("max_chars", .nat s.maxChars)]

end LanguageSettings

namespace ThumbnailSettings

@[inherit_doc ProcessingSettings.ofJson?]
def ofJson? (j : Json) : Option ThumbnailSettings := do
  match ← j.fields? ["width"] with
  | [width] => return { width := ← Json.withDefault 300 Json.word32? width }
  | _ => none

@[inherit_doc ProcessingSettings.toJson]
def toJson (s : ThumbnailSettings) : Json := .obj [("width", .nat s.width)]

end ThumbnailSettings

namespace SearchSettings

/-- Settings from an object or an array; the address is required. -/
def ofJson? (j : Json) : Option SearchSettings := do
  match ← j.fields? ["url", "index", "api_key", "timeout_secs"] with
  | [url, index, apiKey, timeoutSecs] =>
    return {
      url := ← Json.required Json.str? url
      index := ← Json.withDefault "documents" Json.str? index
      apiKey := ← Json.withDefault none (Json.nullable Json.str?) apiKey
      timeoutSecs := ← Json.withDefault 30 Json.word64? timeoutSecs }
  | _ => none

@[inherit_doc ProcessingSettings.toJson]
def toJson (s : SearchSettings) : Json := .obj [
  ("url", .str s.url),
  ("index", .str s.index),
  ("api_key", .ofOption .str s.apiKey),
  ("timeout_secs", .nat s.timeoutSecs)]

end SearchSettings

namespace Config

/-- Settings from an object or an array; version and data directory are required. -/
def ofJson? (j : Json) : Option Config := do
  match ← j.fields? ["version", "data_directory", "database_path", "processing", "ocr", "tools",
      "language", "thumbnail", "search"] with
  | [version, dataDirectory, databasePath, processing, ocr, tools, language, thumbnail, search] =>
    return {
      version := ← Json.required Json.str? version
      dataDirectory := ← Json.required Json.str? dataDirectory
      databasePath := ← Json.withDefault none (Json.nullable Json.str?) databasePath
      processing := ← Json.withDefault {} ProcessingSettings.ofJson? processing
      ocr := ← Json.withDefault {} OcrSettings.ofJson? ocr
      tools := ← Json.withDefault {} ToolSettings.ofJson? tools
      language := ← Json.withDefault {} LanguageSettings.ofJson? language
      thumbnail := ← Json.withDefault {} ThumbnailSettings.ofJson? thumbnail
      search := ← Json.withDefault none (Json.nullable SearchSettings.ofJson?) search }
  | _ => none

def toJson (c : Config) : Json := .obj [
  ("version", .str c.version),
  ("data_directory", .str c.dataDirectory),
  ("database_path", .ofOption .str c.databasePath),
  ("processing", c.processing.toJson),
  ("ocr", c.ocr.toJson),
  ("tools", c.tools.toJson),
  ("language", c.language.toJson),
  ("thumbnail", c.thumbnail.toJson),
  ("search", .ofOption SearchSettings.toJson c.search)]

/-- The settings that a text spells, if they meet all conditions. -/
def read (text : String) : Except ConfigError Config :=
  match (Json.read? text).bind ofJson? with
  | none => .error .malformed
  | some c => do
    c.validate
    return c

end Config

end Docket
