import Docket.Files.Access

/-!
Why no text or no small picture can be made from a file.
-/

namespace Docket

/-- Why an extraction fails. -/
inductive ExtractError where
  | unsupported (mimetype : String)
  | unreadable (path : String) (fault : FileFault)
  | pdfMalformed
  /-- The program that draws pages has left no picture. -/
  | pageNotDrawn (path : String)
  | archiveMalformed
  /-- An archive has no document in it. -/
  | documentMissing
  | documentUnreadable
  | markupMalformed
  | pictureMalformed
  | inputNotWritten (fault : FileFault)
  | previewNotWritten (fault : FileFault)
  | pictureMissing (path : String)
  | noPageRecognized (pages : Nat)
  /-- Recognition fails for a reason of its own. -/
  | notRecognized (reason : String)
  | toolMissing (program : String) (fault : FileFault)
  | toolFailed (program : String) (exitCode : Nat) (complaint : String)
  | scratchNotWritten (path : String) (fault : FileFault)
deriving DecidableEq, Repr

namespace ExtractError

def message : ExtractError → String
  | .unsupported mimetype => "Unsupported mimetype: " ++ mimetype
  | .unreadable path fault => "Failed to read document '" ++ path ++ "': " ++ fault.message
  | .pdfMalformed => "Failed to process PDF: Failed to load PDF"
  | .pageNotDrawn path => "Failed to process PDF: rendered page image '" ++ path ++ "' not found"
  | .archiveMalformed => "Failed to process DOCX: Failed to open DOCX"
  | .documentMissing => "Failed to process DOCX: Failed to find document.xml"
  | .documentUnreadable => "Failed to process DOCX: Failed to read document.xml"
  | .markupMalformed => "Failed to process DOCX: XML parsing error"
  | .pictureMalformed => "Failed to process image: Failed to load image"
  | .inputNotWritten fault => "Failed to process image: Failed to write OCR input: " ++ fault.message
  | .previewNotWritten fault => "Failed to process image: Failed to write preview: " ++ fault.message
  | .pictureMissing path => "OCR failed: image '" ++ path ++ "' does not exist"
  | .noPageRecognized pages => "OCR failed: no page of " ++ toString pages ++ " could be recognized"
  | .notRecognized reason => "OCR failed: " ++ reason
  | .toolMissing program fault =>
    "Failed to run '" ++ program ++ "': " ++ fault.message ++ ". Make sure it is installed."
  | .toolFailed program exitCode complaint =>
    "'" ++ program ++ "' exited with exit status: " ++ toString exitCode ++ ": " ++ complaint
  | .scratchNotWritten path fault =>
    "Failed to write scratch file '" ++ path ++ "': " ++ fault.message

end ExtractError

end Docket
