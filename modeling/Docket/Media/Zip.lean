import Docket.Media.Inflate
import Docket.Text.Utf8

/-!
Archives of packed files.  The list of the files stands at the end of an archive, and tells where each
file is.
-/

namespace Docket.Media

/-- What the list at the end of an archive tells of a file. -/
structure ZipEntry where
  name : String
  /-- Whether a password is needed. -/
  encrypted : Bool
  method : Nat
  crc : Nat
  packedSize : Nat
  size : Nat
  /-- Where the file is in the archive, from its own short description on. -/
  start : Nat

/-- An archive. -/
structure ZipArchive where
  bytes : ByteArray
  entries : List ZipEntry

namespace ZipArchive

/-- The mark before the end of an archive. -/
def endMark : Nat := 0x06054b50

/-- The mark before a file in the list. -/
def listMark : Nat := 0x02014b50

/-- The mark before a file. -/
def fileMark : Nat := 0x04034b50

/-- The last place up to `place` where the end of an archive can start. -/
def findEnd? (bytes : ByteArray) : (place : Nat) → Option Nat
  | 0 => if littleEndian? bytes 0 4 = some endMark then some 0 else none
  | place + 1 =>
    if littleEndian? bytes (place + 1) 4 = some endMark then some (place + 1) else findEnd? bytes place

/-- The file that the list tells of at a place, and the place behind it. `shift` is how much comes
before the archive. -/
def entryAt? (bytes : ByteArray) (shift place : Nat) : Option (ZipEntry × Nat) := do
  let mark ← littleEndian? bytes place 4
  if mark ≠ listMark then none
  else
    let flags ← littleEndian? bytes (place + 8) 2
    let method ← littleEndian? bytes (place + 10) 2
    let crc ← littleEndian? bytes (place + 16) 4
    let packedSize ← littleEndian? bytes (place + 20) 4
    let size ← littleEndian? bytes (place + 24) 4
    let nameSize ← littleEndian? bytes (place + 28) 2
    let extraSize ← littleEndian? bytes (place + 30) 2
    let commentSize ← littleEndian? bytes (place + 32) 2
    let start ← littleEndian? bytes (place + 42) 4
    let name ← slice? bytes (place + 46) nameSize
    let entry : ZipEntry := {
      name := Text.ofUtf8Lossy name
      encrypted := flags % 2 = 1
      method := method
      crc := crc
      packedSize := packedSize
      size := size
      start := shift + start }
    return (entry, place + 46 + nameSize + extraSize + commentSize)

/-- A number of files from a place in the list on. -/
def entriesFrom? (bytes : ByteArray) (shift : Nat) : (count place : Nat) → Option (List ZipEntry)
  | 0, _ => some []
  | count + 1, place => do
    let (entry, behind) ← entryAt? bytes shift place
    return entry :: (← entriesFrom? bytes shift count behind)

def open? (bytes : ByteArray) : Option ZipArchive := do
  let place ← findEnd? bytes bytes.size
  let count ← littleEndian? bytes (place + 10) 2
  let listSize ← littleEndian? bytes (place + 12) 4
  let listStart ← littleEndian? bytes (place + 16) 4
  let commentSize ← littleEndian? bytes (place + 20) 2
  if bytes.size < place + 22 + commentSize ∨ place < listSize + listStart then none
  else
    let shift := place - listSize - listStart
    return ⟨bytes, ← entriesFrom? bytes shift count (shift + listStart)⟩

/-- The file with a name, the last of several, if there is a way to unpack it. -/
def find? (a : ZipArchive) (name : String) : Option ZipEntry :=
  (a.entries.reverse.find? (·.name = name)).filter fun e => !e.encrypted && (e.method = 0 || e.method = 8)

def read? (a : ZipArchive) (e : ZipEntry) : Option ByteArray := do
  let mark ← littleEndian? a.bytes e.start 4
  if mark ≠ fileMark then none
  else
    let nameSize ← littleEndian? a.bytes (e.start + 26) 2
    let extraSize ← littleEndian? a.bytes (e.start + 28) 2
    let packed ← slice? a.bytes (e.start + 30 + nameSize + extraSize) e.packedSize
    let content ← if e.method = 0 then some packed else (inflate? packed 0).map (·.1)
    if content.size = e.size ∧ (crc32 content).toNat = e.crc then return content else none

/-- An archive that holds one file, not packed. -/
def ofFile (name : String) (content : ByteArray) : ByteArray :=
  let facts := littleEndian 2 20 ++ littleEndian 2 0x800 ++ littleEndian 2 0 ++ littleEndian 4 0 ++
    littleEndian 4 (crc32 content).toNat ++ littleEndian 4 content.size ++ littleEndian 4 content.size ++
    littleEndian 2 name.utf8ByteSize ++ littleEndian 2 0
  let file := littleEndian 4 fileMark ++ facts ++ name.toUTF8 ++ content
  let entry := littleEndian 4 listMark ++ littleEndian 2 20 ++ facts ++ littleEndian 2 0 ++ littleEndian 2 0 ++
    littleEndian 2 0 ++ littleEndian 4 0 ++ littleEndian 4 0 ++ name.toUTF8
  file ++ entry ++ littleEndian 4 endMark ++ littleEndian 2 0 ++ littleEndian 2 0 ++ littleEndian 2 1 ++
    littleEndian 2 1 ++ littleEndian 4 entry.size ++ littleEndian 4 file.size ++ littleEndian 2 0

end ZipArchive

end Docket.Media
