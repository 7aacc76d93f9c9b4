import Docket.Text.Hex

/-!
The values that a PDF file is made of, and how they are written.  A byte is read as the character with
its number.
-/

namespace Docket.Media

/-- A value in a file. -/
inductive PdfValue where
  | null
  | bool (b : Bool)
  | integer (n : Int)
  /-- A number that is no integer, as it is written. -/
  | decimal (written : List Char)
  | name (name : List Char)
  | text (bytes : List Char)
  | array (items : List PdfValue)
  /-- Names and values in turn. -/
  | dictionary (items : List PdfValue)
  /-- The value that is written elsewhere under a number. -/
  | reference (number : Nat)
deriving Repr, Inhabited

namespace PdfValue

/-- The value behind a name in a list of names and values. -/
def lookup? (wanted : String) : List PdfValue → Option PdfValue
  | .name n :: v :: rest => if n = wanted.toList then some v else lookup? wanted rest
  | _ => none

def get? (v : PdfValue) (wanted : String) : Option PdfValue :=
  match v with
  | .dictionary items => lookup? wanted items
  | _ => none

def nat? : PdfValue → Option Nat
  | .integer (.ofNat n) => some n
  | _ => none

end PdfValue

namespace Pdf

open Docket.Text (hexValue?)

/-- The smallest parts of what is written. -/
inductive Token where
  | value (v : PdfValue)
  | word (w : List Char)
  | openArray
  | closeArray
  | openDictionary
  | closeDictionary
deriving Repr

/-- The characters that separate words and mean nothing else. -/
def isSpace (c : Char) : Bool :=
  c = ' ' || c = '\t' || c = '\n' || c = '\r' || c = '\x0c' || c = '\x00'

/-- The characters that end a word and are words of their own. -/
def isDelimiter (c : Char) : Bool :=
  c = '(' || c = ')' || c = '<' || c = '>' || c = '[' || c = ']' || c = '/' || c = '%' || c = '\x7b' || c = '\x7d'

/-- The characters of words. -/
def isRegular (c : Char) : Bool := !isSpace c && !isDelimiter c

/-- What stands behind spaces and comments. -/
def skipSpace (inComment : Bool) : List Char → List Char
  | [] => []
  | c :: rest =>
    if inComment then skipSpace (c ≠ '\n' && c ≠ '\r') rest
    else if isSpace c then skipSpace false rest
    else if c = '%' then skipSpace true rest
    else c :: rest

/-- A name with its escapes resolved. -/
def plainName : List Char → List Char
  | '#' :: a :: b :: rest =>
    match hexValue? a, hexValue? b with
    | some x, some y => Char.ofNat (16 * x + y) :: plainName rest
    | _, _ => '#' :: plainName (a :: b :: rest)
  | c :: rest => c :: plainName rest
  | [] => []

/-- The bytes that pairs of hexadecimal digits are; a digit that is missing is zero. -/
def hexBytes : List Nat → List Char
  | a :: b :: rest => Char.ofNat (16 * a + b) :: hexBytes rest
  | [a] => [Char.ofNat (16 * a)]
  | [] => []

/-- What a letter behind a backslash stands for. -/
def escaped (c : Char) : Char :=
  match c with
  | 'n' => '\n'
  | 'r' => '\r'
  | 't' => '\t'
  | 'b' => '\x08'
  | 'f' => '\x0c'
  | c => c

/-- The bytes of a text up to the parenthesis that closes it, behind those that have been read, and
what stands behind it. `depth` is the number of parentheses that are open inside the text. -/
def textBytes (read : List Char) (depth : Nat) : List Char → Option (List Char × List Char)
  | [] => none
  | '\\' :: '\r' :: '\n' :: rest => textBytes read depth rest
  | '\\' :: c :: rest =>
    if c = '\n' ∨ c = '\r' then textBytes read depth rest
    else if '0' ≤ c ∧ c ≤ '7' then
      let digits := c :: (rest.take 2).takeWhile fun d => '0' ≤ d && d ≤ '7'
      let value := digits.foldl (fun n d => 8 * n + (d.toNat - '0'.toNat)) 0
      textBytes (Char.ofNat (value % 256) :: read) depth (rest.drop (digits.length - 1))
    else textBytes (escaped c :: read) depth rest
  | ['\\'] => none
  | '(' :: rest => textBytes ('(' :: read) (depth + 1) rest
  | ')' :: rest =>
    match depth with
    | 0 => some (read.reverse, rest)
    | depth + 1 => textBytes (')' :: read) depth rest
  | c :: rest => textBytes (c :: read) depth rest
termination_by written => written.length
decreasing_by all_goals simp; try omega

def ofDigits (digits : List Char) : Nat := digits.foldl (fun n d => 10 * n + (d.toNat - '0'.toNat)) 0

def number? (w : List Char) : Option PdfValue :=
  let (sign, digits) : Int × List Char := match w with
    | '-' :: rest => (-1, rest)
    | '+' :: rest => (1, rest)
    | _ => (1, w)
  if digits.all Char.isDigit && !digits.isEmpty then some (.integer (sign * ofDigits digits))
  else if digits.all (fun c => c.isDigit || c = '.') && digits.any Char.isDigit && digits.count '.' = 1 then
    some (.decimal w)
  else none

def ofWord (w : List Char) : Token :=
  if w = "true".toList then .value (.bool true)
  else if w = "false".toList then .value (.bool false)
  else if w = "null".toList then .value .null
  else match number? w with
    | some v => .value v
    | none => .word w

/-- The next token, and what stands behind it. -/
def token? (written : List Char) : Option (Token × List Char) :=
  match skipSpace false written with
  | [] => none
  | '<' :: '<' :: rest => some (.openDictionary, rest)
  | '>' :: '>' :: rest => some (.closeDictionary, rest)
  | '[' :: rest => some (.openArray, rest)
  | ']' :: rest => some (.closeArray, rest)
  | '(' :: rest => (textBytes [] 0 rest).map fun (bytes, rest) => (.value (.text bytes), rest)
  | '<' :: rest =>
    let inside := rest.takeWhile (· ≠ '>')
    some (.value (.text (hexBytes (inside.filterMap hexValue?))), rest.drop (inside.length + 1))
  | '/' :: rest =>
    let name := rest.takeWhile isRegular
    some (.value (.name (plainName name)), rest.drop name.length)
  | c :: rest =>
    if isRegular c then
      let w := c :: rest.takeWhile isRegular
      some (ofWord w, rest.drop (w.length - 1))
    else some (.word [c], rest)

/-- Values that have been read, the last first, and whether they belong to a dictionary. -/
structure Pending where
  isDictionary : Bool
  read : List PdfValue

/-- The value that closes. -/
def Pending.close (p : Pending) : PdfValue :=
  if p.isDictionary then .dictionary p.read.reverse else .array p.read.reverse

/-- Put a word behind values: only the one that makes a reference of two numbers means something. -/
def Pending.word (p : Pending) (w : List Char) : Pending :=
  match w, p.read with
  | ['R'], .integer _ :: .integer n :: before => { p with read := .reference n.toNat :: before }
  | _, _ => p

/-- What is read next outside of arrays and dictionaries: a value or a word. -/
inductive Item where
  | value (v : PdfValue)
  | word (w : List Char)

/-- The next item, and what stands behind it. `open` are the arrays and dictionaries that have not
been closed, the innermost first. -/
def item? : (fuel : Nat) → (opened : List Pending) → List Char → Option (Item × List Char)
  | 0, _, _ => none
  | fuel + 1, opened, written => do
    let (token, rest) ← token? written
    let put (v : PdfValue) (opened : List Pending) : Option (Item × List Char) :=
      match opened with
      | [] => some (.value v, rest)
      | p :: outer => item? fuel ({ p with read := v :: p.read } :: outer) rest
    match token, opened with
    | .value v, _ => put v opened
    | .openArray, _ => item? fuel (⟨false, []⟩ :: opened) rest
    | .openDictionary, _ => item? fuel (⟨true, []⟩ :: opened) rest
    | .closeArray, p :: outer => if p.isDictionary then none else put p.close outer
    | .closeDictionary, p :: outer => if p.isDictionary then put p.close outer else none
    | .word w, p :: outer => item? fuel (p.word w :: outer) rest
    | .word w, [] => some (.word w, rest)
    | _, [] => none

/-- The next item, and what stands behind it. There are no more tokens than characters. -/
def next? (written : List Char) : Option (Item × List Char) := item? (written.length + 1) [] written

end Pdf

end Docket.Media
