import Docket.Config.Basic
import Docket.Extract.Tool

/-!
Recognizing text in pictures.
-/

namespace Docket

/-- A program that recognizes text, and the languages that it is told to expect. -/
structure Recognizer where
  program : String
  languages : String
deriving DecidableEq, Repr

namespace Recognizer

/-- The language that is expected where none is given. -/
def defaultLanguage : String := "eng"

def ofLanguages (program : String) (languages : List String) : Recognizer where
  program := program
  languages := if languages.isEmpty then defaultLanguage else "+".intercalate languages

def recognize (r : Recognizer) (machine : Machine) (path : String) : Extraction String := do
  if !(← Extraction.files).exists? path then Extraction.fail (.pictureMissing path)
  else return Text.ofUtf8Lossy (← Extraction.runTool machine r.program [path, "stdout", "-l", r.languages])

end Recognizer

end Docket
