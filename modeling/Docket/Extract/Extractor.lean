import Docket.Extract.Docx
import Docket.Extract.Pages
import Docket.Extract.Picture

/-!
Extracting the text of files of different kinds.
-/

namespace Docket

/-- A way to extract the text of files of some mimetypes. -/
structure Extractor where
  name : String
  supports : (mimetype : String) → Bool
  /-- The text of a file; files that are made on the way go to a directory for them. -/
  extract : (path mimetype scratch : String) → Extraction String

namespace Extractor

def pdf (machine : Machine) (t : PageTools) (r : Option Recognizer) (dpi : Nat) : Extractor where
  name := "pdf"
  supports := (· = "application/pdf")
  extract path _ scratch := do
    let content ← Extraction.readDocument path
    PdfText.ofReading t r machine path dpi scratch (Media.readPdf? content)

def docx : Extractor where
  name := "docx"
  supports := (· = "application/vnd.openxmlformats-officedocument.wordprocessingml.document")
  extract path _ _ := do
    match DocxText.ofBytes (← Extraction.readDocument path) with
    | .ok text => return text
    | .error e => Extraction.fail e

/-- The mimetypes that the converter reads, and what it calls their formats. -/
def inputFormats : List (String × String) := [
  ("text/html", "html"), ("application/xhtml+xml", "html"), ("text/markdown", "markdown"),
  ("text/x-markdown", "markdown"), ("text/x-rst", "rst"), ("application/rtf", "rtf"),
  ("text/rtf", "rtf"), ("application/vnd.oasis.opendocument.text", "odt"),
  ("application/epub+zip", "epub"), ("application/x-latex", "latex"), ("application/x-tex", "latex"),
  ("application/docbook+xml", "docbook")]

/-- The format of a mimetype that the converter reads. -/
def inputFormat? (mimetype : String) : Option String :=
  (inputFormats.find? (·.1 = mimetype)).map (·.2)

/-- The text of files that a program converts. -/
def converter (machine : Machine) (program : String) : Extractor where
  name := "converter"
  supports mimetype := (inputFormat? mimetype).isSome
  extract path mimetype _ := do
    let format := match inputFormat? mimetype with
      | some format => ["-f", format]
      | none => []
    return Text.ofUtf8Lossy
      (← Extraction.runTool machine program (["-t", "plain", "--wrap=none"] ++ format ++ [path]))

/-- The text in pictures. Without a recognizer there is none. -/
def picture (machine : Machine) (r : Option Recognizer) : Extractor where
  name := "image"
  supports := (Text.startsWith · "image/")
  extract path _ scratch := do
    match r with
    | none => return ""
    | some r =>
      let picture ← Extraction.readPicture path
      let input := Text.joinPath scratch "ocr-input.png"
      Extraction.writePicture input picture.toGray .inputNotWritten
      r.recognize machine input

/-- The mimetypes outside of `text/` whose files are text. -/
def textualTypes : List String := ["application/json", "application/xml", "application/csv",
  "application/x-yaml", "application/toml"]

/-- The text of files that are text. -/
def plain : Extractor where
  name := "text"
  supports mimetype := Text.startsWith mimetype "text/" || textualTypes.contains mimetype
  extract path _ _ := return Text.ofUtf8Lossy (← Extraction.readDocument path)

/-- The extractors for some settings, in the order in which they are asked. -/
def all (machine : Machine) (tools : ToolSettings) (ocr : OcrSettings) : List Extractor :=
  let r := if ocr.enabled then some (Recognizer.ofLanguages tools.tesseract ocr.languages) else none
  [pdf machine (.ofSettings tools) r ocr.dpi, docx, converter machine tools.pandoc,
    picture machine r, plain]

def find? (extractors : List Extractor) (mimetype : String) : Option Extractor :=
  extractors.find? (·.supports mimetype)

/-- The text of a file, from the first extractor that supports its mimetype. -/
def extractWith (extractors : List Extractor) (path mimetype scratch : String) : Extraction String :=
  match find? extractors mimetype with
  | some e => e.extract path mimetype scratch
  | none => Extraction.fail (.unsupported mimetype)

end Extractor

end Docket
