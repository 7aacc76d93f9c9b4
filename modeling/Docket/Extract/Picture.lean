import Docket.Extract.Tool
import Docket.Media.Png

/-!
Opening pictures.  The extension of its name says what kind of file a picture is.
-/

namespace Docket

def Extraction.readPicture (path : String) : Extraction Media.Raster := do
  let content ← Extraction.readDocument path
  match (Text.fileExtension? path).map fun e => String.ofList (e.toList.map Char.toLower) with
  | some "png" | some "apng" =>
    match Media.Png.read content with
    | .ok picture => return picture
    | .error .truncated => Extraction.fail (.unreadable path .endsEarly)
    | .error .malformed => Extraction.fail .pictureMalformed
  | _ => Extraction.fail .pictureMalformed

def Extraction.writePicture (path : String) (picture : Media.Raster) (onFault : FileFault → ExtractError) :
    Extraction Unit :=
  Extraction.change (·.write path (Media.Png.write picture)) onFault

end Docket
