import Docket.Files.Tree
import Docket.Text.Path

/-!
Reading and changing a tree of files by paths.  What can fail fails with the system's reason.
-/

namespace Docket

/-- Why the system refuses an operation on files. -/
inductive FileFault where
  | notFound
  | fileExists
  | notDirectory
  | isDirectory
  | invalidArgument
  | nameTooLong
  /-- What is to be copied is no file. -/
  | notRegular
  /-- The path has a character that no name can have. -/
  | badCharacter
  /-- A file ends before what is read from it does. -/
  | endsEarly
deriving DecidableEq, Repr

def FileFault.message : FileFault → String
  | .notFound => "No such file or directory (os error 2)"
  | .fileExists => "File exists (os error 17)"
  | .notDirectory => "Not a directory (os error 20)"
  | .isDirectory => "Is a directory (os error 21)"
  | .invalidArgument => "Invalid argument (os error 22)"
  | .nameTooLong => "File name too long (os error 36)"
  | .notRegular => "the source path is neither a regular file nor a symlink to a regular file"
  | .badCharacter => "file name contained an unexpected NUL byte"
  | .endsEarly => "unexpected end of file"

namespace FileTree

/-- The longest name that a directory can hold, in bytes. -/
def maxNameSize : Nat := 255

/-- Follow names from a directory. Every name but the last has to lead to a directory. -/
def walk (t : FileTree) (here : Place) : List String → Except FileFault Place
  | [] => .ok here
  | name :: rest =>
    match t.lookup here with
    | none => .error .notFound
    | some (.file _) => .error .notDirectory
    | some .directory =>
      if name = ".." then t.walk here.dropLast rest
      else if maxNameSize < name.utf8ByteSize then .error .nameTooLong
      else t.walk (here ++ [name]) rest

/-- Whether a path can only lead to a directory because of how it ends. -/
def endsAsDirectory (path : String) : Bool :=
  match (Text.splitChar '/' path.toList).reverse with
  | last :: _ :: _ => Text.isIdlePiece last
  | _ => false

/-- The names of a path. -/
def namesOf (path : String) : Except FileFault (List String) :=
  if path.toList.contains '\x00' then .error .badCharacter
  else if path.isEmpty then .error .notFound
  else .ok ((Text.pathComponents path.toList).map String.ofList)

/-- The place that a path leads to. Nothing need stand there, but its directory exists. -/
def locate (t : FileTree) (path : String) : Except FileFault Place := do
  t.walk [] (← namesOf path)

/-- What a path leads to. -/
def find (t : FileTree) (path : String) : Except FileFault (Place × Node) := do
  let place ← t.locate path
  match t.lookup place with
  | none => .error .notFound
  | some .directory => .ok (place, .directory)
  | some (.file content) =>
    if endsAsDirectory path then .error .notDirectory else .ok (place, .file content)

def exists? (t : FileTree) (path : String) : Bool := (t.find path).toOption.isSome

def isDirectory (t : FileTree) (path : String) : Bool :=
  match t.find path with
  | .ok (_, .directory) => true
  | _ => false

def read (t : FileTree) (path : String) : Except FileFault ByteArray := do
  match ← t.find path with
  | (_, .file content) => .ok content
  | (_, .directory) => .error .isDirectory

/-- Write a file, new or instead of an old one. -/
def write (t : FileTree) (path : String) (content : ByteArray) : Except FileFault FileTree := do
  let place ← t.locate path
  if endsAsDirectory path then .error .isDirectory
  else match t.lookup place with
    | some .directory => .error .isDirectory
    | _ => .ok (t.insert place (.file content))

def remove (t : FileTree) (path : String) : Except FileFault FileTree := do
  match ← t.find path with
  | (place, .file _) => .ok (t.erase place)
  | (_, .directory) => .error .isDirectory

/-- Delete what a path leads to, with all that is below it. -/
def removeAll (t : FileTree) (path : String) : Except FileFault FileTree := do
  let (place, _) ← t.find path
  return ⟨t.entries.filter fun e => !place.isPrefixOf e.1⟩

/-- Make the directories that are missing on a way. -/
def makeAlong (t : FileTree) (here : Place) : List String → Except FileFault FileTree
  | [] => .ok t
  | name :: rest =>
    match t.lookup here with
    | some .directory =>
      if name = ".." then t.makeAlong here.dropLast rest
      else if maxNameSize < name.utf8ByteSize then .error .nameTooLong
      else
        let next := here ++ [name]
        match t.lookup next with
        | none => (t.insert next .directory).makeAlong next rest
        | some .directory => t.makeAlong next rest
        | some (.file _) => .error (if rest.isEmpty then .fileExists else .notDirectory)
    | _ => .error .notDirectory

/-- Make a directory, and those on the way to it. -/
def makeDirectories (t : FileTree) (path : String) : Except FileFault FileTree :=
  if path.isEmpty then .ok t
  else do t.makeAlong [] (← namesOf path)

/-- Move everything at and below a place. -/
def transplant (t : FileTree) (source target : Place) : FileTree :=
  ⟨t.entries.map fun (p, n) =>
    if source.isPrefixOf p then (target ++ p.drop source.length, n) else (p, n)⟩

/-- Give a file or a directory a new place where nothing stands. -/
def rename (t : FileTree) (source target : String) : Except FileFault FileTree := do
  let (source, _) ← t.find source
  let target ← t.locate target
  if (t.lookup target).isSome then .error .fileExists
  else if source.isPrefixOf target then .error .invalidArgument
  else .ok (t.transplant source target)

/-- Copy a file. The target is emptied before the source is read, so a file that is copied onto
itself is left empty. -/
def copy (t : FileTree) (source target : String) : Except FileFault FileTree := do
  match ← t.find source with
  | (_, .directory) => .error .notRegular
  | (place, .file _) =>
    let t ← t.write target .empty
    match t.lookup place with
    | some (.file content) => t.write target content
    | _ => .error .notFound

/-- The paths of all files below a place, relative to it, in the order of their text. -/
def list (t : FileTree) (root : Place) : List String :=
  ((t.filesBelow root).map fun (p, _) => "/".intercalate p).mergeSort fun a b => !(b < a)

/-- The tree with a directory, if it can be made. -/
def withDirectory (t : FileTree) (path : String) : FileTree := (t.makeDirectories path).toOption.getD t

/-- The tree with a file and the directories on the way to it, if they can be made. -/
def withFile (t : FileTree) (path : String) (content : ByteArray) : FileTree :=
  let t := match Text.parentPath? path with
    | some parent => t.withDirectory parent
    | none => t
  (t.write path content).toOption.getD t

end FileTree

end Docket
