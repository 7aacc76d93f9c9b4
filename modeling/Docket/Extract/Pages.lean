import Docket.Extract.Recognize
import Docket.Media.Pdf.PageText
import Docket.Text.Count
import Docket.Unicode.Property

/-!
The text of PDF files.  Text that the pages bring along is taken if it looks like text; otherwise the
pages are drawn one by one and their text is recognized.
-/

namespace Docket

/-- The programs that draw pages and count them. -/
structure PageTools where
  draw : String
  describe : String
deriving DecidableEq, Repr

namespace PageTools

def ofSettings (s : ToolSettings) : PageTools := ⟨s.pdftoppm, s.pdfinfo⟩

/-- The number of pages in a description: that of the first line that has one. -/
def pageCount? (description : String) : Option Nat := do
  let lines := (Text.splitChar '\n' description.toList).filterMap ("Pages:".toList.isPrefixOf? ·)
  Text.readCount? (Text.trimChars (← lines.head?))

/-- The number of pages of a file; one where the description does not tell it. -/
def pageCount (t : PageTools) (machine : Machine) (path : String) : Extraction Nat := do
  let description ← Extraction.runTool machine t.describe [path]
  return (pageCount? (Text.ofUtf8Lossy description)).getD 1

/-- The picture that has been drawn, whose path is given without its extension. -/
def drawn (stem : String) : Extraction String := do
  let path := stem ++ ".png"
  if (← Extraction.files).exists? path then return path else Extraction.fail (.pageNotDrawn path)

/-- Draw a page. The answer is the path of the picture. -/
def drawPage (t : PageTools) (machine : Machine) (path : String) (dpi page : Nat) (scratch : String) :
    Extraction String := do
  let stem := Text.joinPath scratch ("page-" ++ toString page)
  let _ ← Extraction.runTool machine t.draw ["-png", "-r", toString dpi, "-f", toString page, "-l", toString page,
    "-singlefile", path, stem]
  drawn stem

/-- Draw the first page in a width. The answer is the path of the picture. -/
def drawPreview (t : PageTools) (machine : Machine) (path : String) (width : Nat) (scratch : String) :
    Extraction String := do
  let stem := Text.joinPath scratch "preview"
  let _ ← Extraction.runTool machine t.draw ["-png", "-f", "1", "-l", "1", "-singlefile",
    "-scale-to-x", toString width, "-scale-to-y", "-1", path, stem]
  drawn stem

end PageTools

namespace PdfText

/-- A text of at most so many characters is taken whatever it is made of. -/
def maxUnchecked : Nat := 50

/-- The least share of letters and digits in a longer text, in percent. -/
def minLetterPercent : Nat := 10

/-- A text without the occurrences of another. -/
def without (part : List Char) : List Char → List Char
  | [] => []
  | c :: rest =>
    if !part.isEmpty ∧ part.isPrefixOf (c :: rest) then without part ((c :: rest).drop part.length)
    else c :: without part rest
termination_by s => s.length
decreasing_by
  · rename_i h
    have : part ≠ [] := by simpa using h.1
    have := List.length_pos_iff.2 this
    simp; omega
  · simp

/-- Whether the text that pages bring along is of no use: it is empty, or says only that it cannot be
read, or has hardly a letter in it. -/
def isUseless (text : String) : Bool :=
  let trimmed := Text.trimChars text.toList
  let readable := (without Media.PdfEncoding.glyphMarker.toList trimmed).filter fun c => c ≠ '\n' && c ≠ ' '
  let letters := trimmed.countP Unicode.isAlphanumeric
  readable.isEmpty ||
    (maxUnchecked < trimmed.length && letters * 100 < trimmed.length * minLetterPercent)

/-- The text of all pages that can be read. -/
def embedded (r : Media.PdfReading) : String := String.join (r.texts.map (· ++ "\n"))

/-- Draw a page and recognize its text. The picture does not stay, unless drawing fails. -/
def recognizePage (t : PageTools) (r : Recognizer) (machine : Machine) (path : String) (dpi page : Nat)
    (scratch : String) : Extraction String := do
  let picture ← t.drawPage machine path dpi page scratch
  let text ← (r.recognize machine picture).attempt
  modify fun b => { b with files := (b.files.remove picture).toOption.getD b.files }
  match text with
  | .ok text => return text
  | .error e => Extraction.fail e

/-- Recognize a number of pages from one on. The answer has the text of each page that could be
recognized. -/
def recognizeFrom (t : PageTools) (r : Recognizer) (machine : Machine) (path : String) (dpi : Nat)
    (scratch : String) (page : Nat) : (count : Nat) → Extraction (List String)
  | 0 => return []
  | count + 1 => do
    let text ← (recognizePage t r machine path dpi page scratch).attempt
    let rest ← recognizeFrom t r machine path dpi scratch (page + 1) count
    match text with
    | .ok text => return text :: rest
    | .error _ => return rest

/-- Recognize all pages, of which one at least has to have a text. -/
def recognizeAll (t : PageTools) (r : Recognizer) (machine : Machine) (path : String) (dpi count : Nat)
    (scratch : String) : Extraction String := do
  let texts ← recognizeFrom t r machine path dpi scratch 1 count
  if 0 < count ∧ texts.isEmpty then Extraction.fail (.noPageRecognized count)
  else return String.join (texts.map (· ++ "\n"))

/-- The text of a file that has been read, or cannot be read as a PDF file. -/
def ofReading (t : PageTools) (r : Option Recognizer) (machine : Machine) (path : String) (dpi : Nat)
    (scratch : String) : Option Media.PdfReading → Extraction String
  | some reading =>
    match isUseless (embedded reading), r with
    | true, some r => recognizeAll t r machine path dpi reading.pageCount scratch
    | _, _ => return embedded reading
  | none =>
    match r with
    | none => Extraction.fail .pdfMalformed
    | some r => do
      let count ← t.pageCount machine path
      recognizeAll t r machine path dpi count scratch

end PdfText

end Docket
