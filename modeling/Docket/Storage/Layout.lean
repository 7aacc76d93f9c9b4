import Docket.Document.Basic

/-!
Where the files of documents are kept below a data directory.  An upload waits under the name of its
document; once its content has been hashed, the hash names its place, and so does it the place of its
small picture.
-/

namespace Docket

/-- Whether a text can be the hash of a content: four hexadecimal digits or more. -/
def isContentHash (hash : String) : Bool :=
  4 ≤ hash.toList.length && hash.toList.all fun c =>
    c.isDigit || ('a' ≤ c && c ≤ 'f') || ('A' ≤ c && c ≤ 'F')

/-- A file name with an extension; an empty one counts as none. -/
def withExtension (stem : String) (extension : Option String) : String :=
  match extension with
  | some ext => if ext.isEmpty then stem else stem ++ "." ++ ext
  | none => stem

/-- The two directories that a hash is kept in: its first two digits, and the next two. -/
def shelfOf (hash : String) : String × String :=
  (String.ofList (hash.toList.take 2), String.ofList ((hash.toList.drop 2).take 2))

/-- A data directory. -/
structure Storage where
  root : String
deriving DecidableEq, Repr, Inhabited

namespace Storage

/-- A path below one of the two trees that are kept by hash. -/
def shelved (s : Storage) (tree hash name : String) : String :=
  let (first, second) := shelfOf hash
  Text.joinPath (Text.joinPath (Text.joinPath (Text.joinPath s.root tree) first) second) name

/-- Where a content is kept; `none` if the hash is none. -/
def contentPath? (s : Storage) (hash : String) (extension : Option String) : Option String :=
  if isContentHash hash then some (s.shelved "documents" hash (withExtension hash extension)) else none

/-- Where the small picture of a content is kept; `none` if the hash is none. -/
def thumbnailPath? (s : Storage) (hash : String) : Option String :=
  if isContentHash hash then some (s.shelved "thumbnails" hash (hash ++ ".png")) else none

/-- Where an upload waits. -/
def incomingPath (s : Storage) (d : Document) : String :=
  Text.joinPath (Text.joinPath s.root "incoming") (withExtension d.id d.extension?)

/-- Where the file of a document is; `none` if its hash is none. -/
def documentPath? (s : Storage) (d : Document) : Option String :=
  if d.hash.isEmpty then some (s.incomingPath d) else s.contentPath? d.hash d.extension?

end Storage

end Docket
