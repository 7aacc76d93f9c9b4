import Docket.Extract.Error
import Docket.Interruption
import Docket.Text.Trim
import Docket.Text.Utf8

/-!
Running programs on files.  What is worked on is a tree of files; every call of a program is recorded.
-/

namespace Docket

/-- A call of a program. -/
structure ToolCall where
  program : String
  arguments : List String
deriving DecidableEq, Repr

/-- What a program leaves behind. -/
structure ToolRun where
  exitCode : Nat
  stdout : ByteArray
  stderr : ByteArray
  files : FileTree

/-- What a machine does when a program is called. A program that is not there cannot be run. -/
abbrev Machine := ToolCall → FileTree → Except FileFault ToolRun

/-- What an extraction works on. -/
structure Bench where
  files : FileTree
  /-- The calls of programs so far, the last first. -/
  calls : List ToolCall := []

/-- Work on files that can end before it is done. -/
abbrev Extraction := ExceptT (Interruption ExtractError) (StateM Bench)

namespace Extraction

def fail {α : Type} (e : ExtractError) : Extraction α := throw (.error e)

def files : Extraction FileTree := return (← get).files

/-- Change the tree of files; if that cannot be done, end with an error. -/
def change (f : FileTree → Except FileFault FileTree) (onFault : FileFault → ExtractError) :
    Extraction Unit := do
  match f (← files) with
  | .ok t => modify fun b => { b with files := t }
  | .error fault => fail (onFault fault)

def readDocument (path : String) : Extraction ByteArray := do
  match (← files).read path with
  | .ok content => return content
  | .error fault => fail (.unreadable path fault)

/-- Run a program and return what it writes. -/
def runTool (machine : Machine) (program : String) (arguments : List String) : Extraction ByteArray := do
  let call : ToolCall := ⟨program, arguments⟩
  modify fun b => { b with calls := call :: b.calls }
  match machine call (← files) with
  | .error fault => fail (.toolMissing program fault)
  | .ok run =>
    modify fun b => { b with files := run.files }
    if run.exitCode = 0 then return run.stdout
    else fail (.toolFailed program run.exitCode (Text.trim (Text.ofUtf8Lossy run.stderr)))

/-- What becomes of an extraction that may end with an error, which is then known. -/
def attempt {α : Type} (e : Extraction α) : Extraction (Except ExtractError α) := ExceptT.mk do
  match ← e.run with
  | .ok a => return .ok (.ok a)
  | .error (.error e) => return .ok (.error e)
  | .error i => return .error i

end Extraction

end Docket
