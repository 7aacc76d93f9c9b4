import Docket.Unicode.Property

/-!
Texts without white space at their ends, and texts within texts.
-/

namespace Docket.Text

open Docket.Unicode (isWhitespace)

def dropLeading (s : List Char) : List Char := s.dropWhile isWhitespace

def dropTrailing (s : List Char) : List Char := (dropLeading s.reverse).reverse

/-- Drop white space at both ends of a list of characters. -/
def trimChars (s : List Char) : List Char := dropTrailing (dropLeading s)

def trim (s : String) : String := String.ofList (trimChars s.toList)

/-- Whether a list of characters occurs in another without gaps. -/
def occursIn (part : List Char) : List Char → Bool
  | [] => part.isEmpty
  | c :: rest => part.isPrefixOf (c :: rest) || occursIn part rest

def startsWith (s start : String) : Bool := start.toList.isPrefixOf s.toList

def contains (s part : String) : Bool := occursIn part.toList s.toList

end Docket.Text
