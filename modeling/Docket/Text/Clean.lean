import Docket.Text.Trim
import Docket.Unicode.Category

/-!
Two ways to clean a text.  `normalize` prepares extracted text for storage.  `cleanSample` prepares
a sample for language identification, and reads no further than it has to; `cleanAll` is what it
takes a start of.
-/

namespace Docket.Text

open Docket.Unicode (isWhitespace isAlphabetic isControl)

/-- Whether stored text may hold a character: control characters are dropped, except line feeds and
tabs. -/
def isStorable (c : Char) : Bool := !isControl c || c = '\n' || c = '\t'

/-- Text as it is stored: without control characters, and without white space at its ends. -/
def normalize (s : String) : String := String.ofList (trimChars (s.toList.filter isStorable))

/-- The cleaner: `room` is how many characters may still be written, `pending` says that a blank is
due before the next letter, and `started` that something has been written. -/
def cleanFrom (started pending : Bool) : (room : Nat) → List Char → List Char
  | 0, _ => []
  | _ + 1, [] => []
  | room + 1, c :: rest =>
    if isWhitespace c then cleanFrom started started (room + 1) rest
    else if !isAlphabetic c then cleanFrom started pending (room + 1) rest
    else if pending then
      match room with
      | 0 => [' ']
      | room + 1 => ' ' :: c :: cleanFrom true false room rest
    else c :: cleanFrom true false room rest
termination_by _ s => s.length

/-- The letters of a text, with one blank between words, and no more than `limit` characters. -/
def cleanSample (s : String) (limit : Nat) : String :=
  String.ofList (cleanFrom false false limit s.toList)

/-- How many bytes are set aside for a sample: four for each character that it may have, but no more
than the text has. The product is taken in 64 bits. -/
def sampleCapacity (s : String) (limit : Nat) : Nat := min s.utf8ByteSize (limit * 4 % Nat.pow 2 64)

/-- The pieces of a text between white space, except empty ones. -/
def words (s : List Char) : List (List Char) := (s.splitOnP isWhitespace).filter (!·.isEmpty)

/-- The letters of a text, with one blank between words. -/
def cleanAll (s : List Char) : List Char :=
  [' '].intercalate (words (s.filter fun c => isAlphabetic c || isWhitespace c))

end Docket.Text
