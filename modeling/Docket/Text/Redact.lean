import Docket.Text.Path

/-!
Texts that may be logged: addresses without credentials, paths without directories.
-/

namespace Docket.Text

/-- Split a text behind the first occurrence of a part; the first component ends with the part. -/
def splitBehind? (part : List Char) : List Char → Option (List Char × List Char)
  | [] => none
  | c :: rest =>
    if part.isPrefixOf (c :: rest) then some (part, (c :: rest).drop part.length)
    else (splitBehind? part rest).map fun (before, after) => (c :: before, after)

/-- What stands behind the last occurrence of a character. -/
def behindLast? (mark : Char) : List Char → Option (List Char)
  | [] => none
  | c :: rest => (behindLast? mark rest).or (if c = mark then some rest else none)

/-- Hide the credentials of an address. They stand between the scheme and the last `@` before the
first slash behind the scheme. -/
def redactUrlChars (url : List Char) : List Char :=
  match splitBehind? [':', '/', '/'] url with
  | none => url
  | some (scheme, rest) =>
    let authority := rest.takeWhile (· ≠ '/')
    match behindLast? '@' authority with
    | none => url
    | some host => scheme ++ ['*', '*', '*', '*', '@'] ++ host ++ rest.dropWhile (· ≠ '/')

def redactUrl (url : String) : String := String.ofList (redactUrlChars url.toList)

/-- The last component of a path, or a mark where there is none. -/
def redactPath (path : String) : String := (fileName? path).getD "<unknown>"

end Docket.Text
