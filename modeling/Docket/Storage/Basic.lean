import Docket.Storage.Layout
import Docket.Files.Access
import Docket.Digest.Sha256

/-!
Moving the files of documents.  A move is planned as a list of effects, each of which happens as a
whole or not at all; the process may stop between two of them.
-/

namespace Docket

/-- Why a file cannot be kept or moved. -/
inductive StorageError where
  | directoryNotMade (path : String) (fault : FileFault)
  | notRead (path : String) (fault : FileFault)
  | notWritten (path : String) (fault : FileFault)
  | notMoved (source target : String) (fault : FileFault)
  | invalidHash (hash : String)
deriving DecidableEq, Repr

def StorageError.message : StorageError → String
  | .directoryNotMade path fault =>
    "Failed to create directory '" ++ path ++ "': " ++ fault.message
  | .notRead path fault => "Failed to read file '" ++ path ++ "': " ++ fault.message
  | .notWritten path fault => "Failed to write file '" ++ path ++ "': " ++ fault.message
  | .notMoved source target fault =>
    "Failed to move file from '" ++ source ++ "' to '" ++ target ++ "': " ++ fault.message
  | .invalidHash hash => "Invalid content hash: '" ++ hash ++ "'"

def FileTree.hashFile (t : FileTree) (path : String) : Except StorageError String :=
  match t.read path with
  | .ok content => .ok (Sha256.hexDigest content)
  | .error fault => .error (.notRead path fault)

/-- A change of the tree that happens as a whole or not at all. -/
inductive FileEffect where
  /-- Make a directory, and those on the way to it. -/
  | ensure (directory : String)
  | copy (source target : String)
  | move (source target : String)
  /-- Delete a file whose content is kept at another place. -/
  | drop (source kept : String)
deriving DecidableEq, Repr

/-- Bring about an effect. A file that cannot be renamed is copied and deleted instead. -/
def FileTree.perform (t : FileTree) : FileEffect → Except StorageError FileTree
  | .ensure directory => (t.makeDirectories directory).mapError (.directoryNotMade directory)
  | .copy source target => (t.copy source target).mapError (.notWritten target)
  | .move source target =>
    match t.rename source target with
    | .ok t => .ok t
    | .error _ => (do (← t.copy source target).remove source).mapError (.notMoved source target)
  | .drop source kept => (t.remove source).mapError (.notMoved source kept)

/-- Bring about effects in order, up to the first that fails. -/
def FileTree.performAll (t : FileTree) : List FileEffect → Except StorageError Unit × FileTree
  | [] => (.ok (), t)
  | effect :: rest =>
    match t.perform effect with
    | .ok t => t.performAll rest
    | .error e => (.error e, t)

namespace Storage

def contentPath (s : Storage) (hash : String) (extension : Option String) :
    Except StorageError String :=
  match s.contentPath? hash extension with
  | some path => .ok path
  | none => .error (.invalidHash hash)

def thumbnailPath (s : Storage) (hash : String) : Except StorageError String :=
  match s.thumbnailPath? hash with
  | some path => .ok path
  | none => .error (.invalidHash hash)

def documentPath (s : Storage) (d : Document) : Except StorageError String :=
  match s.documentPath? d with
  | some path => .ok path
  | none => .error (.invalidHash d.hash)

/-- Make the directory that a path lies in, unless it is there. -/
def ensureParent (t : FileTree) (path : String) : List FileEffect :=
  match Text.parentPath? path with
  | some parent => if t.exists? parent then [] else [.ensure parent]
  | none => []

/-- Make a directory, unless something is there. -/
def ensureDirectory (t : FileTree) (path : String) : Except StorageError FileTree :=
  if t.exists? path then .ok t else t.perform (.ensure path)

/-- What it takes to move the file of a document to the place of a hash, and the path of that place.
A file that is there has the same content and is kept. -/
def relocation (s : Storage) (t : FileTree) (d : Document) (hash : String) :
    Except StorageError (List FileEffect × String) := do
  let source ← s.documentPath d
  let target ← s.contentPath hash d.extension?
  if Text.samePath source target then return ([], target)
  else
    let last := if t.exists? target then FileEffect.drop source target else .move source target
    return (ensureParent t target ++ [last], target)

/-- What it takes to bring the content of a hash back to where the file of a document is expected,
and the path of that place. -/
def restoration (s : Storage) (t : FileTree) (d : Document) (hash : String) :
    Except StorageError (List FileEffect × String) := do
  let source ← s.contentPath hash d.extension?
  let target ← s.documentPath d
  if Text.samePath source target || t.exists? target then return ([], target)
  else return (ensureParent t target ++ [.copy source target], target)

def carryOut (t : FileTree) (plan : Except StorageError (List FileEffect × String)) :
    Except StorageError String × FileTree :=
  match plan with
  | .error e => (.error e, t)
  | .ok (effects, path) =>
    let (result, t) := t.performAll effects
    (result.map fun _ => path, t)

/-- Move the file of a document to the place of a hash. -/
def relocate (s : Storage) (t : FileTree) (d : Document) (hash : String) :
    Except StorageError String × FileTree := carryOut t (s.relocation t d hash)

/-- Bring the content of a hash back to where the file of a document is expected. -/
def restore (s : Storage) (t : FileTree) (d : Document) (hash : String) :
    Except StorageError String × FileTree := carryOut t (s.restoration t d hash)

/-- The largest size that a document records. -/
def maxSize : Int := Int.pow 2 63 - 1

def sizeOf? (t : FileTree) (path : String) : Option Int :=
  (t.read path).toOption.map fun content => min (content.size : Int) maxSize

/-- Take in an uploaded file: copy it to where the document waits, and record its size. -/
def importFile (s : Storage) (t : FileTree) (source : String) (d : Document) :
    Except StorageError (String × Document) × FileTree :=
  let target := s.incomingPath d
  match t.performAll (ensureParent t target ++ [.copy source target]) with
  | (.ok (), t) => (.ok (target, { d with size := (sizeOf? t target).getD 0 }), t)
  | (.error e, t) => (.error e, t)

end Storage

end Docket
