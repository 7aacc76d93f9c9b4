import Docket.Unicode.Property

/-!
Lower-casing of whole texts.  Each character has its own lower-case form, except the capital sigma:
its form depends on whether it ends a word.
-/

namespace Docket.Text

open Docket.Unicode (isCased isCaseIgnorable lowerChar)

/-- Whether the first character that is not ignored has case. -/
def meetsCased : List Char → Bool
  | [] => false
  | c :: rest => if isCaseIgnorable c then meetsCased rest else isCased c

/-- The lower-case form of a character between the characters before it, in reverse order, and those
after it. A sigma is final behind a cased character and before none. -/
def lowerBetween (before : List Char) (c : Char) (after : List Char) : List Char :=
  if c = 'Σ' then (if meetsCased before && !meetsCased after then ['ς'] else ['σ'])
  else lowerChar c

/-- The lower-case form of a text, given the characters before it in reverse order. -/
def lowerAfter (before : List Char) : List Char → List Char
  | [] => []
  | c :: rest => lowerBetween before c rest ++ lowerAfter (c :: before) rest

def lowercase (s : String) : String := String.ofList (lowerAfter [] s.toList)

end Docket.Text
