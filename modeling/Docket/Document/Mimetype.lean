import Docket.Document.Basic

/-!
Media types of uploaded files, and new documents.
-/

namespace Docket

/-- The media type of data about which nothing is known. -/
def unknownMimetype : String := "application/octet-stream"

/-- The media types of file extensions in lower case. -/
def mimetypes : List (String × String) := [
  ("pdf", "application/pdf"),
  ("png", "image/png"),
  ("txt", "text/plain"),
  ("docx", "application/vnd.openxmlformats-officedocument.wordprocessingml.document"),
  ("jpeg", "image/jpeg"),
  ("jpg", "image/jpeg"),
  ("html", "text/html"),
  ("htm", "text/html"),
  ("md", "text/markdown"),
  ("csv", "text/csv"),
  ("json", "application/json"),
  ("xml", "text/xml"),
  ("rtf", "application/rtf"),
  ("odt", "application/vnd.oasis.opendocument.text"),
  ("epub", "application/epub+zip"),
  ("gif", "image/gif"),
  ("bmp", "image/bmp"),
  ("tif", "image/tiff"),
  ("tiff", "image/tiff"),
  ("webp", "image/webp"),
  ("toml", "text/x-toml"),
  ("yaml", "text/x-yaml"),
  ("yml", "text/x-yaml"),
  ("zip", "application/zip"),
  ("gz", "application/gzip"),
  ("doc", "application/msword"),
  ("log", "text/plain"),
  ("svg", "image/svg+xml"),
  ("css", "text/css"),
  ("js", "text/javascript"),
  ("mp3", "audio/mpeg"),
  ("mp4", "video/mp4"),
  ("tar", "application/x-tar"),
  ("xls", "application/vnd.ms-excel"),
  ("xlsx", "application/vnd.openxmlformats-officedocument.spreadsheetml.sheet"),
  ("pptx", "application/vnd.openxmlformats-officedocument.presentationml.presentation"),
  ("ods", "application/vnd.oasis.opendocument.spreadsheet"),
  ("ps", "application/postscript"),
  ("tex", "application/x-tex")]

/-- The media type that the extension of a file name suggests, whatever its case. -/
def guessMimetype (filename : String) : String :=
  match Text.fileExtension? filename with
  | none => unknownMimetype
  | some ext =>
    let ext := String.ofList (ext.toList.map Char.toLower)
    ((mimetypes.find? (·.1 = ext)).map (·.2)).getD unknownMimetype

/-- The record of a newly uploaded file. It is named for the file without its extension, and an
empty media type is guessed. -/
def Document.ofUpload (id : String) (userId : Int) (filename mimetype : String)
    (now : Calendar.Instant) : Document where
  id := id
  userId := userId
  name := (Text.fileStem? filename).getD filename
  description := ""
  content := ""
  filename := filename
  hash := ""
  mimetype := if mimetype.isEmpty then guessMimetype filename else mimetype
  size := 0
  date := now
  lang := ""
  status := .processing
  metadata := none
  tags := none
  createdAt := now
  updatedAt := now

end Docket
