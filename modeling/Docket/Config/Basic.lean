import Docket.Text.Trim
import Docket.Text.Redact

/-!
The settings of the service, and the conditions they have to meet.
-/

namespace Docket

/-- How documents are handed to workers. -/
structure ProcessingSettings where
  /-- The number of workers; where none is given, one for each processor. -/
  workerCount : Option Nat := none
  queueCapacity : Nat := 3
  pollIntervalSecs : Nat := 60
  idleIntervalMs : Nat := 1000
  pullBatchSize : Nat := 100
deriving DecidableEq, Repr, Inhabited

/-- How text is recognized in images. -/
structure OcrSettings where
  enabled : Bool := true
  languages : List String := ["eng"]
  dpi : Nat := 300
deriving DecidableEq, Repr, Inhabited

/-- The programs that do what the service does not do itself. -/
structure ToolSettings where
  tesseract : String := "tesseract"
  pdftoppm : String := "pdftoppm"
  pdfinfo : String := "pdfinfo"
  pandoc : String := "pandoc"
deriving DecidableEq, Repr, Inhabited

/-- How the language of a document is identified. -/
structure LanguageSettings where
  enabled : Bool := true
  maxChars : Nat := 2000
deriving DecidableEq, Repr, Inhabited

/-- How small pictures of documents are made. -/
structure ThumbnailSettings where
  width : Nat := 300
deriving DecidableEq, Repr, Inhabited

/-- The search service that documents are published to. -/
structure SearchSettings where
  url : String
  index : String := "documents"
  apiKey : Option String := none
  timeoutSecs : Nat := 30
deriving DecidableEq, Repr, Inhabited

/-- All settings. -/
structure Config where
  version : String := "1.0"
  dataDirectory : String
  databasePath : Option String := none
  processing : ProcessingSettings := {}
  ocr : OcrSettings := {}
  tools : ToolSettings := {}
  language : LanguageSettings := {}
  thumbnail : ThumbnailSettings := {}
  search : Option SearchSettings := none
deriving DecidableEq, Repr, Inhabited

/-- Why settings are refused. -/
inductive ConfigError where
  /-- The file cannot be read; `reason` is what the system says. -/
  | unreadable (path reason : String)
  /-- The text is not JSON, or not the JSON of settings. -/
  | malformed
  | unsupportedVersion (version : String)
  | emptyDataDirectory
  | tooSmall (setting : String) (least : Nat)
  | dpiOutOfRange (dpi : Nat)
  | noOcrLanguage
  | emptyTool (name : String)
  | badSearchUrl (url : String)
  | emptySearchIndex
  /-- Nothing says where the settings are. -/
  | noPath
deriving DecidableEq, Repr

namespace ConfigError

/-- The wording of a condition that settings fail. -/
def complaint? : ConfigError → Option String
  | .unreadable _ _ | .malformed => none
  | .unsupportedVersion version => some ("Unsupported config version: " ++ version)
  | .emptyDataDirectory => some "data_directory must not be empty"
  | .tooSmall setting least => some (setting ++ " must be at least " ++ toString least)
  | .dpiOutOfRange dpi => some ("ocr.dpi must be between 72 and 1200, got " ++ toString dpi)
  | .noOcrLanguage => some "ocr.languages must list at least one language"
  | .emptyTool name => some ("tools." ++ name ++ " must not be empty")
  | .badSearchUrl url => some ("search.url must be an http(s) URL, got '" ++ url ++ "'")
  | .emptySearchIndex => some "search.index must not be empty"
  | .noPath => some "no config path given and home directory unknown"

def message (e : ConfigError) : String :=
  match e, e.complaint? with
  | .unreadable path reason, _ => "Failed to read config file '" ++ path ++ "': " ++ reason
  | _, some complaint => "Config validation failed: " ++ complaint
  | _, none => "Failed to parse config JSON"

/-- The wording of an error where it stands among errors of other kinds. -/
def wrapped (e : ConfigError) : String := "Configuration error: " ++ e.message

end ConfigError

namespace Config

/-- Whether a text has no character but white space. -/
def isBlank (s : String) : Bool := (Text.trim s).isEmpty

/-- The conditions on settings, in the order in which they are checked. The first that fails is the
error. -/
def validate (c : Config) : Except ConfigError Unit := do
  let require (ok : Bool) (e : ConfigError) : Except ConfigError Unit := if ok then .ok () else .error e
  require (c.version = "1.0") (.unsupportedVersion c.version)
  require (!isBlank c.dataDirectory) .emptyDataDirectory
  require (c.processing.workerCount ≠ some 0) (.tooSmall "processing.worker_count" 1)
  require (1 ≤ c.processing.queueCapacity) (.tooSmall "processing.queue_capacity" 1)
  require (1 ≤ c.processing.pollIntervalSecs) (.tooSmall "processing.poll_interval_secs" 1)
  require (10 ≤ c.processing.idleIntervalMs) (.tooSmall "processing.idle_interval_ms" 10)
  require (1 ≤ c.processing.pullBatchSize) (.tooSmall "processing.pull_batch_size" 1)
  require (72 ≤ c.ocr.dpi && c.ocr.dpi ≤ 1200) (.dpiOutOfRange c.ocr.dpi)
  require (!c.ocr.enabled || !c.ocr.languages.isEmpty) .noOcrLanguage
  [("tesseract", c.tools.tesseract), ("pdftoppm", c.tools.pdftoppm), ("pdfinfo", c.tools.pdfinfo),
    ("pandoc", c.tools.pandoc)].forM fun (name, program) =>
      require (!isBlank program) (.emptyTool name)
  require (1 ≤ c.language.maxChars) (.tooSmall "language.max_chars" 1)
  require (1 ≤ c.thumbnail.width) (.tooSmall "thumbnail.width" 1)
  match c.search with
  | none => .ok ()
  | some s =>
    require (Text.startsWith s.url "http://" || Text.startsWith s.url "https://") (.badSearchUrl s.url)
    require (!isBlank s.index) .emptySearchIndex

/-- The file of the database: a setting that is not empty, or a file in the data directory. -/
def databaseFile (c : Config) : String :=
  match c.databasePath with
  | some path => if path.isEmpty then Text.joinPath c.dataDirectory "paperflow.db" else path
  | none => Text.joinPath c.dataDirectory "paperflow.db"

/-- Where settings are looked for below the home directory of a user. -/
def defaultPath (home : String) : String := Text.joinPath (Text.joinPath home ".paperflow") "config.json"

end Config

end Docket
