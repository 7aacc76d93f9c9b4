/-!
The components of a path, as text.
-/

namespace Docket.Text

def splitChar (mark : Char) : List Char → List (List Char)
  | [] => [[]]
  | c :: rest =>
    if c = mark then [] :: splitChar mark rest
    else match splitChar mark rest with
      | [] => [[c]]
      | piece :: pieces => (c :: piece) :: pieces

/-- The components of a path that name something: empty ones and single dots name nothing. -/
def pathComponents (path : List Char) : List (List Char) :=
  (splitChar '/' path).filter fun piece => piece ≠ [] && piece ≠ ['.']

def isAbsolute (path : String) : Bool := path.toList.head? = some '/'

/-- A path below a directory, or the path itself if it starts at the root. -/
def joinPath (directory path : String) : String :=
  if isAbsolute path || directory.isEmpty then path
  else if directory.toList.getLast? = some '/' then directory ++ path
  else directory ++ "/" ++ path

def joinPieces : List (List Char) → List Char
  | [] => []
  | [piece] => piece
  | piece :: rest => piece ++ '/' :: joinPieces rest

/-- Whether a piece of a path names nothing. -/
def isIdlePiece (piece : List Char) : Bool := piece.isEmpty || piece = ['.']

/-- The path of the directory that a path lies in; the root and the empty path lie in none. -/
def parentPath? (path : String) : Option String :=
  match (splitChar '/' path.toList).reverse.dropWhile isIdlePiece with
  | [] => none
  | _ :: before =>
    let before := (before.dropWhile isIdlePiece).reverse
    if before.isEmpty && isAbsolute path then some "/" else some (String.ofList (joinPieces before))

/-- Whether two paths have the same components. -/
def samePath (a b : String) : Bool :=
  isAbsolute a = isAbsolute b && pathComponents a.toList = pathComponents b.toList

/-- The last component of a path, unless it leads upwards. -/
def fileNameChars? (path : List Char) : Option (List Char) :=
  (pathComponents path).getLast?.filter (· ≠ ['.', '.'])

/-- The parts of a file name before and behind its last dot. A dot at the start separates nothing. -/
def splitExtension (name : List Char) : List Char × Option (List Char) :=
  let behind := name.reverse.takeWhile (· ≠ '.')
  match name.reverse.dropWhile (· ≠ '.') with
  | '.' :: before => if before.isEmpty then (name, none) else (before.reverse, some behind.reverse)
  | _ => (name, none)

/-- The last component of a path, unless it leads upwards. -/
def fileName? (path : String) : Option String := (fileNameChars? path.toList).map String.ofList

def fileStem? (path : String) : Option String :=
  (fileNameChars? path.toList).map fun name => String.ofList (splitExtension name).1

def fileExtension? (path : String) : Option String :=
  (fileNameChars? path.toList).bind fun name => (splitExtension name).2.map String.ofList

end Docket.Text
