import Docket.Daemon.Service

/-!
The command line of the service.  It reads the settings and makes the directories; what is logged, and
with which code the process ends, is decided by `Service.prepare`.
-/

namespace Docket.Service

/-- The file at a path as the only one of a tree; an empty tree if it cannot be read. -/
def loadFile (path : String) : IO FileTree := do
  try
    return FileTree.empty.withFile path (← IO.FS.readBinFile path)
  catch _ => return .empty

def log (format : LogFormat) (r : LogRecord) : IO Unit := do
  IO.println (r.line format)
  (← IO.getStdout).flush

/-- The number of processors, where the system lists them. -/
def processors : IO Nat := do
  try
    return max 1 ((← IO.FS.lines "/proc/cpuinfo").toList.countP (Text.startsWith · "processor"))
  catch _ => return 1

/-- Make a directory. The answer is whether it is there. -/
def makeDirectory (path : String) : IO Bool := do
  try
    IO.FS.createDirAll path
    return true
  catch _ => return false

/-- Run until the input ends. -/
partial def untilEnd (input : IO.FS.Stream) : IO Unit := do
  if (← input.getLine).isEmpty then return
  untilEnd input

/-- Run the service. The answer is the exit code. -/
def serve (arguments : List String) : IO UInt32 := do
  let format := ((LogFormat.ofText ((← IO.getEnv "PAPERFLOW_LOG_FORMAT").getD "")).toOption).getD .text
  let path := configPath arguments.head? (← IO.getEnv "PAPERFLOW_CONFIG") (← IO.getEnv "HOME")
  let tree ← match path with
    | .ok p => loadFile p
    | .error _ => pure .empty
  log format titleRecord
  let (records, prepared) := prepare path tree
  records.forM (log format)
  match prepared with
  | .error e =>
    log format (errorRecord e)
    return 1
  | .ok (c, _) =>
    if !(← makeDirectory c.dataDirectory) then
      log format (errorRecord (.storage (.directoryNotMade c.dataDirectory .fileExists)))
      return 1
    log format (runningRecord c (← processors))
    untilEnd (← IO.getStdin)
    log format stopRecord
    return 0

end Docket.Service

def main (arguments : List String) : IO UInt32 := Docket.Service.serve arguments
