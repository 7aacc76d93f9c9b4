import Docket.Json.Value
import Docket.Text.Hex

/-!
Reading JSON text.  The grammar is the strict one: no comments, no trailing commas, no leading
zeros, no bare control characters in strings.
-/

namespace Docket.Json

open Docket.Text (hexValue?)

/-- Drop blanks, tabs and line ends. -/
def dropBlank (s : List Char) : List Char :=
  s.dropWhile fun c => c = ' ' || c = '\n' || c = '\t' || c = '\r'

def hex4? : List Char → Option (Nat × List Char)
  | a :: b :: c :: d :: rest => do
    let a ← hexValue? a
    let b ← hexValue? b
    let c ← hexValue? c
    let d ← hexValue? d
    return (((a * 16 + b) * 16 + c) * 16 + d, rest)
  | _ => none

/-- The characters of a string behind its opening quote, in reverse order; `none` in their place if
half of a surrogate pair was among them. -/
def readString : (fuel : Nat) → List Char → Option (List Char) → Option (Option (List Char) × List Char)
  | 0, _, _ => none
  | fuel + 1, s, out =>
    let push (c : Char) (rest : List Char) := readString fuel rest (out.map (c :: ·))
    match s with
    | [] => none
    | '"' :: rest => some (out, rest)
    | '\\' :: '"' :: rest => push '"' rest
    | '\\' :: '\\' :: rest => push '\\' rest
    | '\\' :: '/' :: rest => push '/' rest
    | '\\' :: 'b' :: rest => push '\x08' rest
    | '\\' :: 'f' :: rest => push '\x0c' rest
    | '\\' :: 'n' :: rest => push '\n' rest
    | '\\' :: 'r' :: rest => push '\r' rest
    | '\\' :: 't' :: rest => push '\t' rest
    | '\\' :: 'u' :: rest =>
      match hex4? rest with
      | none => none
      | some (high, rest) =>
        if high < 0xD800 ∨ 0xDFFF < high then push (Char.ofNat high) rest
        else
          match rest with
          | '\\' :: 'u' :: rest' =>
            match hex4? rest' with
            | some (low, after) =>
              if high < 0xDC00 ∧ 0xDC00 ≤ low ∧ low ≤ 0xDFFF then
                push (Char.ofNat (0x10000 + (high - 0xD800) * 0x400 + (low - 0xDC00))) after
              else readString fuel rest none
            | none => none
          | rest => readString fuel rest none
    | '\\' :: _ => none
    | c :: rest => if c.toNat < 0x20 then none else push c rest

/-- A string behind its opening quote. -/
def readText (s : List Char) : Option (Option String × List Char) :=
  (readString (s.length + 1) s (some [])).map fun (chars, rest) =>
    (chars.map fun chars => String.ofList chars.reverse, rest)

/-- The digits at the start of a text, and the rest. -/
def spanDigits (s : List Char) : List Char × List Char := (s.takeWhile Char.isDigit, s.dropWhile Char.isDigit)

def decimal (digits : List Char) : Nat :=
  digits.foldl (fun n c => n * 10 + (c.toNat - '0'.toNat)) 0

/-- A number without its sign. -/
def readNumber (negative : Bool) (s : List Char) : Option (Json × List Char) := do
  let (digits, rest) := spanDigits s
  if digits.isEmpty || (digits.head? = some '0' && 1 < digits.length) then none
  else
    let (fraction, rest) ← match rest with
      | '.' :: rest =>
        let (fraction, rest) := spanDigits rest
        if fraction.isEmpty then none else some (true, rest)
      | rest => some (false, rest)
    let (exponent, rest) ← match rest with
      | e :: rest' =>
        if e = 'e' || e = 'E' then
          let (digits, rest) := spanDigits (match rest' with
            | '+' :: r | '-' :: r => r
            | r => r)
          if digits.isEmpty then none else some (true, rest)
        else some (false, rest)
      | [] => some (false, [])
    let n : Int := if negative then -(decimal digits : Int) else decimal digits
    if fraction || exponent || (negative && n = 0) || !fits n then return (.real, rest)
    else return (.int n, rest)

def readName (name : String) (value : Json) (s : List Char) : Option (Json × List Char) :=
  if name.toList.isPrefixOf s then some (value, s.drop name.length) else none

mutual

/-- A value. Each step takes at least one character, so the length of the text is fuel enough. -/
def readValue : (fuel : Nat) → List Char → Option (Json × List Char)
  | 0, _ => none
  | fuel + 1, s =>
    match dropBlank s with
    | '\x7b' :: rest =>
      match dropBlank rest with
      | '\x7d' :: rest => some (.obj [], rest)
      | rest => readMembers fuel rest []
    | '[' :: rest =>
      match dropBlank rest with
      | ']' :: rest => some (.arr [], rest)
      | rest => readItems fuel rest []
    | '"' :: rest =>
      (readText rest).map fun (text, rest) =>
        (match text with
          | some text => .str text
          | none => .unpaired, rest)
    | '-' :: rest => readNumber true rest
    | 't' :: rest => readName "true" (.bool true) ('t' :: rest)
    | 'f' :: rest => readName "false" (.bool false) ('f' :: rest)
    | 'n' :: rest => readName "null" .null ('n' :: rest)
    | rest => readNumber false rest

/-- The items of an array, from the start of one. -/
def readItems : (fuel : Nat) → List Char → List Json → Option (Json × List Char)
  | 0, _, _ => none
  | fuel + 1, s, items => do
    let (item, rest) ← readValue fuel s
    match dropBlank rest with
    | ',' :: rest => readItems fuel rest (item :: items)
    | ']' :: rest => return (.arr (item :: items).reverse, rest)
    | _ => none

/-- The members of an object, from the start of one. -/
def readMembers : (fuel : Nat) → List Char → List (String × Json) → Option (Json × List Char)
  | 0, _, _ => none
  | fuel + 1, s, members => do
    match dropBlank s with
    | '"' :: rest =>
      let (name, rest) ← readText rest
      let name ← name
      match dropBlank rest with
      | ':' :: rest =>
        let (value, rest) ← readValue fuel rest
        match dropBlank rest with
        | ',' :: rest => readMembers fuel rest ((name, value) :: members)
        | '\x7d' :: rest => return (.obj ((name, value) :: members).reverse, rest)
        | _ => none
      | _ => none
    | _ => none

end

/-- The value that a text spells, with nothing but blanks around it. -/
def read? (text : String) : Option Json := do
  let s := text.toList
  let (value, rest) ← readValue (2 * s.length + 2) s
  if (dropBlank rest).isEmpty then return value else none

end Docket.Json
