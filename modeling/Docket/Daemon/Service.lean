import Docket.Config.Json
import Docket.Daemon.Log
import Docket.Pipeline.World
import Docket.Text.Language
import Docket.Text.Redact
import Docket.Worker.Handle
import Docket.Worker.Manager

/-!
The service: from the settings in a file to workers that run, and what is logged on the way.
-/

namespace Docket

open Docket.Calendar (Instant)

/-- Why the service does not run. -/
inductive ServiceError where
  | config (e : ConfigError)
  | storage (e : StorageError)
  /-- The directory of the database cannot be made. -/
  | noDatabase (path : String) (fault : FileFault)
  /-- What is to be the file of the database is none. -/
  | databaseNotOpened (path : String)
  | worker (e : WorkerError)
deriving DecidableEq, Repr

def ServiceError.message : ServiceError → String
  | .config e => e.wrapped
  | .storage e => "Storage error: " ++ e.message
  | .noDatabase path fault =>
    "Database error: Failed to create database directory '" ++ path ++ "': " ++ fault.message
  | .databaseNotOpened path => "Database error: SQLite error: unable to open database file: " ++ path
  | .worker e => "Worker error: " ++ e.message

def FileTree.readConfig (t : FileTree) (path : String) : Except ConfigError Config :=
  match t.read path with
  | .error fault => .error (.unreadable path fault.message)
  | .ok content =>
    match String.fromUTF8? content with
    | none => .error (.unreadable path "stream did not contain valid UTF-8")
    | some text => Config.read text

namespace Service

def title : String := "paperflowd v0.1.0"

/-- Where the settings are: at the path that is given, or the one in the environment, or below the
home directory. -/
def configPath (argument environment home : Option String) : Except ConfigError String :=
  match argument, environment, home with
  | some path, _, _ => .ok path
  | none, some path, _ => .ok path
  | none, none, some home => .ok (Config.defaultPath home)
  | none, none, none => .error .noPath

/-- Make the directories that the service needs. Nothing but a file may stand where the database is
kept. -/
def makeDirectories (c : Config) (t : FileTree) : Except ServiceError FileTree := do
  let t ← (t.makeDirectories c.dataDirectory).mapError fun fault =>
    .storage (.directoryNotMade c.dataDirectory fault)
  let t ← match Text.parentPath? c.databaseFile with
    | none => .ok t
    | some parent => (t.makeDirectories parent).mapError (.noDatabase parent)
  if t.isDirectory c.databaseFile then .error (.databaseNotOpened c.databaseFile) else return t

def searchRecord (c : Config) : LogRecord :=
  match c.search with
  | some s => {
      message := "Search indexing enabled"
      fields := [("url", Text.redactUrl s.url), ("index", s.index)] }
  | none => { message := "Search indexing disabled" }

/-- The number of workers that settings ask for on a machine with some processors. -/
def workerCount (c : Config) (processors : Nat) : Nat := c.processing.workerCount.getD processors

def runningRecord (c : Config) (processors : Nat) : LogRecord where
  message := String.join ["Running ", toString (workerCount c processors), " workers, queue capacity ",
    toString c.processing.queueCapacity]

def titleRecord : LogRecord := { message := "Starting " ++ title }

/-- What is logged when the service is told to stop. -/
def stopRecord : LogRecord := { message := "Shutdown requested" }

/-- What is logged of an error that ends the service. -/
def errorRecord (e : ServiceError) : LogRecord := { level := .error, message := e.message }

/-- Read the settings and make the directories. What is logged before an error stays logged. -/
def prepare (path : Except ConfigError String) (t : FileTree) :
    List LogRecord × Except ServiceError (Config × FileTree) :=
  match path with
  | .error e => ([], .error (.config e))
  | .ok path =>
    match t.readConfig path with
    | .error e => ([], .error (.config e))
    | .ok c =>
      let loaded : LogRecord := { message := "Loaded configuration from " ++ path }
      match makeDirectories c t with
      | .error e => ([loaded], .error e)
      | .ok t => ([loaded, searchRecord c], .ok (c, t))

/-- The pools of the service. -/
def manager (c : Config) (processors : Nat) : Manager where
  workerCount := workerCount c processors
  queueCapacity := c.processing.queueCapacity
  batchSize := c.processing.pullBatchSize

/-- The surroundings of the pipeline under some settings. `reply` is what the search service does
with a request. -/
def surroundings (c : Config) (machine : Machine) (scratch : String) (clock : List Moment → Instant)
    (reply : ServiceReply) : Surroundings where
  storage := ⟨c.dataDirectory⟩
  machine := machine
  pageTools := .ofSettings c.tools
  extractors := Extractor.all machine c.tools c.ocr
  language := c.language
  thumbnailWidth := c.thumbnail.width
  scratch := scratch
  identify text := (Text.languageOf? text).map (·.1)
  search d :=
    match c.search with
    | some s => (SearchService.ofSettings s).publish reply [d]
    | none => .ok ()
  clock := clock

/-- All that is logged by a service that is stopped after some time, and the exit code. -/
def transcript (path : Except ConfigError String) (t : FileTree) (processors : Nat) : List LogRecord × Nat :=
  match prepare path t with
  | (records, .error e) => ([titleRecord] ++ records ++ [errorRecord e], 1)
  | (records, .ok (c, _)) => ([titleRecord] ++ records ++ [runningRecord c processors, stopRecord], 0)

/-- The most documents that are asked for at once. -/
def everything : Nat := Nat.pow 2 63 - 1

/-- Start the workers and let each document that waits be handled once. -/
def handleWaiting : Act World (List (String × Handled)) := do
  Act.change fun w => { w with store := w.store.resetRunning.2 }
  Act.handleAll ((← Act.state).store.documentsPending everything)

end Service

end Docket
