import Docket.Extract.Pages
import Docket.Extract.Picture

/-!
Small pictures of documents.
-/

namespace Docket

namespace Preview

/-- Whether there are small pictures of files of a mimetype. -/
def supports (mimetype : String) : Bool :=
  Text.startsWith mimetype "image/" || mimetype = "application/pdf"

/-- Write the small picture of a file, of at most some width. The answer is whether there is one for
files of the mimetype. -/
def make (machine : Machine) (t : PageTools) (width : Nat) (source mimetype target scratch : String) :
    Extraction Bool := do
  if !supports mimetype then return false
  else
    match Text.parentPath? target with
    | some parent => Extraction.change (·.makeDirectories parent) (.scratchNotWritten parent)
    | none => pure ()
    if mimetype = "application/pdf" then
      let drawn ← t.drawPreview machine source width scratch
      Extraction.change (·.copy drawn target) (.scratchNotWritten target)
    else
      let picture ← Extraction.readPicture source
      Extraction.writePicture target (picture.fitWidth width) .previewNotWritten
    return true

end Preview

end Docket
