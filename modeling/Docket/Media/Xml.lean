/-!
The parts of an XML text: texts, tags and what stands aside.  A text is read character by character;
what has been read is a state, so that reading is a fold.
-/

namespace Docket.Media

/-- A part of an XML text. -/
inductive XmlPart where
  /-- What stands between two tags, as it is written. -/
  | text (written : List Char)
  | opening (name : List Char)
  | closing (name : List Char)
  /-- A tag that opens and closes. -/
  | empty (name : List Char)
  /-- A comment, raw text, a declaration or an instruction. -/
  | aside
deriving DecidableEq, Repr

namespace Xml

/-- Where a reader is. What has been read of a part is kept with its last character first. -/
inductive Reading where
  | text (read : List Char)
  /-- Behind the mark that starts a tag. -/
  | marked
  /-- In a tag, and in quotes if a mark is given. -/
  | tag (read : List Char) (quote : Option Char)
  | instruction (read : List Char)
  /-- Behind an exclamation mark that starts a part. -/
  | banged
  | comment (read : List Char)
  | raw (read : List Char)
  /-- In a declaration of the kind of document, with tags open inside it. -/
  | declaration (read : List Char) (depth : Nat)
deriving DecidableEq, Repr

def isBlank (c : Char) : Bool := c = ' ' || c = '\t' || c = '\n' || c = '\r'

def tagName (content : List Char) : List Char := content.takeWhile (!isBlank ·)

/-- A text without the white space at its end; one that has nothing else stays as it is. -/
def trimName (content : List Char) : List Char :=
  if content.all isBlank then content else (content.reverse.dropWhile isBlank).reverse

def partOfTag (content : List Char) : XmlPart :=
  match content with
  | '/' :: name => .closing (trimName name)
  | _ =>
    if content.getLast? = some '/' then .empty (tagName content.dropLast)
    else .opening (tagName content)

/-- Whether a text starts with another one, which is in lower case. -/
def startsAs (start content : List Char) : Bool := start.isPrefixOf (content.map Char.toLower)

/-- A reader in a tag, after one character more. -/
def readTag (parts : List XmlPart) (read : List Char) (quote : Option Char) (c : Char) :
    List XmlPart × Reading :=
  match quote with
  | some q => (parts, .tag (c :: read) (if c = q then none else some q))
  | none =>
    if c = '>' then (partOfTag read.reverse :: parts, .text [])
    else if c = '\'' ∨ c = '"' then (parts, .tag (c :: read) (some c))
    else (parts, .tag (c :: read) none)

/-- A reader at the end of an instruction, a comment, a raw text or a declaration; `none` if what has
been read is none. -/
def closeAside (parts : List XmlPart) (wellFormed : Bool) : Option (List XmlPart × Reading) :=
  if wellFormed then some (.aside :: parts, .text []) else none

/-- A reader after one character more. -/
def readChar (c : Char) (parts : List XmlPart) : Reading → Option (List XmlPart × Reading)
  | .text read =>
    if c = '<' then some (if read.isEmpty then parts else .text read.reverse :: parts, .marked)
    else some (parts, .text (c :: read))
  | .marked =>
    if c = '!' then some (parts, .banged)
    else if c = '?' then some (parts, .instruction [c])
    else some (readTag parts [] none c)
  | .tag read quote => some (readTag parts read quote c)
  | .instruction read =>
    if c = '>' && read.head? = some '?' then closeAside parts (2 ≤ read.length)
    else some (parts, .instruction (c :: read))
  | .banged =>
    if c = '-' then some (parts, .comment [c, '!'])
    else if c = '[' then some (parts, .raw [c, '!'])
    else if c = 'D' || c = 'd' then some (parts, .declaration [c, '!'] 0)
    else none
  | .comment read =>
    if c = '>' && 5 ≤ read.length && ['-', '-'].isPrefixOf read then
      closeAside parts (['!', '-', '-'].isPrefixOf read.reverse)
    else some (parts, .comment (c :: read))
  | .raw read =>
    if c = '>' && [']', ']'].isPrefixOf read then
      closeAside parts (startsAs ['!', '[', 'c', 'd', 'a', 't', 'a', '['] read.reverse)
    else some (parts, .raw (c :: read))
  | .declaration read depth =>
    if c = '<' then some (parts, .declaration (c :: read) (depth + 1))
    else if c = '>' then
      match depth with
      | 0 => closeAside parts (startsAs ['!', 'd', 'o', 'c', 't', 'y', 'p', 'e'] read.reverse &&
          (read.reverse.drop 8).any (!isBlank ·))
      | depth + 1 => some (parts, .declaration (c :: read) depth)
    else some (parts, .declaration (c :: read) depth)

/-- The parts of a text; `none` if the last of them has no end, or one is none. -/
def parts? (content : List Char) : Option (List XmlPart) := do
  let content := if content.head? = some '\ufeff' then content.tail else content
  let (parts, reading) ← content.foldlM (fun (parts, reading) c => readChar c parts reading)
    (([], .text []) : List XmlPart × Reading)
  match reading with
  | .text read => return (if read.isEmpty then parts else .text read.reverse :: parts).reverse
  | _ => none

/-- Whether every closing tag closes the tag that was opened last. Tags may stay open. -/
def closesInOrder (opened : List (List Char)) : List XmlPart → Bool
  | [] => true
  | .opening name :: rest => closesInOrder (name :: opened) rest
  | .closing name :: rest =>
    match opened with
    | last :: opened => name = last && closesInOrder opened rest
    | [] => false
  | _ :: rest => closesInOrder opened rest

/-- The parts of a text whose tags close in order. -/
def read? (content : List Char) : Option (List XmlPart) :=
  (parts? content).filter (closesInOrder [])

/-- A name without the name space before it. -/
def localName (name : List Char) : List Char :=
  match name.dropWhile (· ≠ ':') with
  | [] => name
  | _ :: rest => rest

def digit? (base : Nat) (c : Char) : Option Nat :=
  let value :=
    if c.isDigit then some (c.toNat - '0'.toNat)
    else if 'a' ≤ c ∧ c ≤ 'z' then some (c.toNat - 'a'.toNat + 10)
    else if 'A' ≤ c ∧ c ≤ 'Z' then some (c.toNat - 'A'.toNat + 10)
    else none
  value.filter (· < base)

def number? (base : Nat) (digits : List Char) : Option Nat :=
  if digits.isEmpty then none
  else digits.foldlM (fun n c => (digit? base c).map (n * base + ·)) 0

/-- The character that stands at a code point other than zero. -/
def charAt? (code : Nat) : Option Char :=
  if code ≠ 0 ∧ code.isValidChar then some (Char.ofNat code) else none

/-- The character that a reference stands for. -/
def referenced? : List Char → Option Char
  | '#' :: 'x' :: digits => (number? 16 digits).bind charAt?
  | '#' :: digits => (number? 10 digits).bind charAt?
  | ['l', 't'] => some '<'
  | ['g', 't'] => some '>'
  | ['a', 'm', 'p'] => some '&'
  | ['a', 'p', 'o', 's'] => some '\''
  | ['q', 'u', 'o', 't'] => some '"'
  | _ => none

/-- A text with its references resolved; `none` if one of them stands for nothing. `pending` is what
has been read of a reference, with its last character first. -/
def resolve? (pending : Option (List Char)) : List Char → Option (List Char)
  | [] => match pending with
    | none => some []
    | some _ => none
  | c :: rest =>
    match pending with
    | none => if c = '&' then resolve? (some []) rest else (resolve? none rest).map (c :: ·)
    | some name =>
      if c = ';' then do
        let found ← referenced? name.reverse
        return found :: (← resolve? none rest)
      else if c = '&' then none
      else resolve? (some (c :: name)) rest

end Xml

end Docket.Media
