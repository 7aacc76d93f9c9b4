import Docket.Text.Hex
import Docket.Regex.Pattern
import Docket.Unicode.Property

/-!
Reading a pattern from its text.  The reader is a machine that takes at least one character in each
step and keeps the groups that are still open on a stack, so nesting costs no recursion.
-/

namespace Docket.Regex

open Docket.Unicode (isWhitespace isAlphabetic isAlphanumeric)
open Docket.Text (hexValue?)

/-- A pattern may nest this deeply and no deeper. -/
def nestLimit : Nat := 250

/-- Drop blanks and comments; a comment runs from `#` to the end of its line. -/
def dropBlank : (comment : Bool) → List Char → List Char
  | _, [] => []
  | true, c :: rest => dropBlank (c ≠ '\n') rest
  | false, c :: rest =>
    if isWhitespace c then dropBlank false rest
    else if c = '#' then dropBlank true rest
    else c :: rest

/-- Drop blanks and comments where the pattern is verbose, and nothing elsewhere. -/
def skipBlank (verbose : Bool) (s : List Char) : List Char :=
  if verbose then dropBlank false s else s

/-- The characters that a backslash turns into themselves because they have a meaning without it. -/
def isMeta (c : Char) : Bool :=
  "\\.+*?()|[]\x7b\x7d^$#&-~".toList.contains c

/-- Whether a backslash may stand before a character to no effect: ASCII, but no letter or digit,
and no angle bracket. -/
def isEscapable (c : Char) : Bool :=
  isMeta c || (c.toNat < 0x80 && !c.isAlphanum && c ≠ '<' && c ≠ '>')

/-- The character with a code point, if there is one. -/
def charOfCode? (code : Nat) : Option Char :=
  if code.isValidChar then some (Char.ofNat code) else none

/-- The text up to a closing brace, without blanks and comments where the pattern is verbose. -/
def braced (verbose : Bool) : (comment : Bool) → List Char → List Char → Option (List Char × List Char)
  | _, _, [] => none
  | true, body, c :: rest => braced verbose (c ≠ '\n') body rest
  | false, body, c :: rest =>
    if c = '\x7d' then some (body.reverse, rest)
    else if verbose && isWhitespace c then braced verbose false body rest
    else if verbose && c = '#' then braced verbose true body rest
    else braced verbose false (c :: body) rest

def hexNumber? (digits : List Char) : Option Nat :=
  digits.foldl (fun acc c => do return (← acc) * 16 + (← hexValue? c)) (some 0)

/-- A fixed count of hexadecimal digits. -/
def hexDigits (verbose : Bool) : (count acc : Nat) → List Char → Except Fault (Nat × List Char)
  | 0, acc, s => .ok (acc, s)
  | _ + 1, _, [] => .error .escapeUnfinished
  | count + 1, acc, c :: rest =>
    match hexValue? c with
    | none => .error .hexInvalid
    | some d => hexDigits verbose count (acc * 16 + d) (skipBlank verbose rest)

/-- A single item outside or inside brackets. -/
inductive Atom where
  | literal (c : Char) (byte : Bool)
  | dot
  | assertion (kind : Assertion)
  | shorthand (kind : Shorthand) (negated : Bool)
  | property (query : PropertyQuery) (negated : Bool)
deriving Repr

def Atom.toPattern : Atom → Pattern
  | .literal c byte => .literal c byte
  | .dot => .dot
  | .assertion kind => .assertion kind
  | .shorthand kind negated => .shorthand kind negated
  | .property query negated => .property query negated

def Atom.toClassItem : Atom → Except Fault ClassExpr
  | .literal c _ => .ok (.char c)
  | .shorthand kind negated => .ok (.shorthand kind negated)
  | .property query negated => .ok (.property query negated)
  | _ => .error .classEscape

/-- An atom as an end of a range in a bracketed class. -/
def Atom.toRangeEnd : Atom → Except Fault Char
  | .literal c _ => .ok c
  | _ => .error .classRangeOperand

/-- What follows `\x`, `\u` or `\U`: a fixed count of digits, or any count in braces. -/
def readHex (verbose : Bool) (count : Nat) (s : List Char) : Except Fault (Atom × List Char) :=
  match s with
  | [] => .error .escapeUnfinished
  | '\x7b' :: rest =>
    match braced verbose false [] rest with
    | none => .error .escapeUnfinished
    | some ([], _) => .error .hexEmpty
    | some (digits, rest) =>
      match (hexNumber? digits).bind charOfCode? with
      | none => .error .hexInvalid
      | some c => .ok (.literal c false, skipBlank verbose rest)
  | s => do
    let (code, rest) ← hexDigits verbose count 0 s
    match charOfCode? code with
    | none => .error .hexInvalid
    | some c => .ok (.literal c (count = 2), rest)

/-- Split a text at the first occurrence of a non-empty separator. -/
def splitAtFirst (separator : List Char) : List Char → Option (List Char × List Char)
  | [] => none
  | c :: rest =>
    if separator.isPrefixOf (c :: rest) then some ([], (c :: rest).drop separator.length)
    else (splitAtFirst separator rest).map fun (before, after) => (c :: before, after)

/-- The query inside the braces of a property escape. -/
def PropertyQuery.ofName (name : List Char) : PropertyQuery :=
  match splitAtFirst ['!', '='] name with
  | some (property, value) => .notValued property value
  | none =>
    match splitAtFirst [':'] name with
    | some (property, value) => .valued property value
    | none =>
      match splitAtFirst ['='] name with
      | some (property, value) => .valued property value
      | none => .named name

/-- What follows `\p` or `\P`: one letter, or a query in braces. -/
def readProperty (verbose negated : Bool) : List Char → Except Fault (Atom × List Char)
  | [] => .error .escapeUnfinished
  | '\x7b' :: rest =>
    match braced verbose false [] rest with
    | none => .error .escapeUnfinished
    | some (name, rest) => .ok (.property (.ofName name) negated, rest)
  | '\\' :: _ => .error .propertyMalformed
  | c :: rest => .ok (.property (.named [c]) negated, skipBlank verbose rest)

/-- Whether a character may stand in the name of a special word boundary. -/
def isBoundaryChar (c : Char) : Bool := c.isAlpha || c = '-'

/-- The name of a special word boundary, up to the first character that is no part of it. -/
def boundaryName (verbose : Bool) : (comment : Bool) → List Char → List Char → List Char × List Char
  | _, name, [] => (name.reverse, [])
  | true, name, c :: rest => boundaryName verbose (c ≠ '\n') name rest
  | false, name, c :: rest =>
    if isBoundaryChar c then boundaryName verbose false (c :: name) rest
    else if verbose && isWhitespace c then boundaryName verbose false name rest
    else if verbose && c = '#' then boundaryName verbose true name rest
    else (name.reverse, c :: rest)

/-- What follows `\b`: the name of a special boundary in braces, unless the braces hold a count. -/
def readBoundary (verbose : Bool) (s : List Char) : Except Fault (Atom × List Char) :=
  match s with
  | '\x7b' :: rest =>
    match skipBlank verbose rest with
    | [] => .error .boundaryUnclosed
    | c :: rest' =>
      if !isBoundaryChar c then .ok (.assertion .wordBoundary, s)
      else
        match boundaryName verbose false [] (c :: rest') with
        | (name, '\x7d' :: after) =>
          match String.ofList name with
          | "start" => .ok (.assertion .wordStart, after)
          | "end" => .ok (.assertion .wordEnd, after)
          | "start-half" => .ok (.assertion .wordStartHalf, after)
          | "end-half" => .ok (.assertion .wordEndHalf, after)
          | _ => .error .boundaryUnknown
        | _ => .error .boundaryUnclosed
  | s => .ok (.assertion .wordBoundary, s)

def readEscape (verbose : Bool) : List Char → Except Fault (Atom × List Char)
  | [] => .error .escapeUnfinished
  | c :: rest =>
    if c.isDigit then .error .backreference
    else match c with
    | 'x' => readHex verbose 2 (skipBlank verbose rest)
    | 'u' => readHex verbose 4 (skipBlank verbose rest)
    | 'U' => readHex verbose 8 (skipBlank verbose rest)
    | 'p' => readProperty verbose false (skipBlank verbose rest)
    | 'P' => readProperty verbose true (skipBlank verbose rest)
    | 'd' => .ok (.shorthand .digit false, rest)
    | 'D' => .ok (.shorthand .digit true, rest)
    | 's' => .ok (.shorthand .space false, rest)
    | 'S' => .ok (.shorthand .space true, rest)
    | 'w' => .ok (.shorthand .word false, rest)
    | 'W' => .ok (.shorthand .word true, rest)
    | 'a' => .ok (.literal '\x07' false, rest)
    | 'f' => .ok (.literal '\x0c' false, rest)
    | 't' => .ok (.literal '\t' false, rest)
    | 'n' => .ok (.literal '\n' false, rest)
    | 'r' => .ok (.literal '\r' false, rest)
    | 'v' => .ok (.literal '\x0b' false, rest)
    | 'A' => .ok (.assertion .textStart, rest)
    | 'z' => .ok (.assertion .textEnd, rest)
    | 'b' => readBoundary verbose rest
    | 'B' => .ok (.assertion .notWordBoundary, rest)
    | '<' => .ok (.assertion .wordStart, rest)
    | '>' => .ok (.assertion .wordEnd, rest)
    | c => if isEscapable c then .ok (.literal c false, rest) else .error .escapeUnknown

def asciiClass? (name : List Char) : Option (List (Nat × Nat)) :=
  match String.ofList name with
  | "alnum" => some [(0x30, 0x39), (0x41, 0x5A), (0x61, 0x7A)]
  | "alpha" => some [(0x41, 0x5A), (0x61, 0x7A)]
  | "ascii" => some [(0x00, 0x7F)]
  | "blank" => some [(0x09, 0x09), (0x20, 0x20)]
  | "cntrl" => some [(0x00, 0x1F), (0x7F, 0x7F)]
  | "digit" => some [(0x30, 0x39)]
  | "graph" => some [(0x21, 0x7E)]
  | "lower" => some [(0x61, 0x7A)]
  | "print" => some [(0x20, 0x7E)]
  | "punct" => some [(0x21, 0x2F), (0x3A, 0x40), (0x5B, 0x60), (0x7B, 0x7E)]
  | "space" => some [(0x09, 0x0D), (0x20, 0x20)]
  | "upper" => some [(0x41, 0x5A)]
  | "word" => some [(0x30, 0x39), (0x41, 0x5A), (0x5F, 0x5F), (0x61, 0x7A)]
  | "xdigit" => some [(0x30, 0x39), (0x41, 0x46), (0x61, 0x66)]
  | _ => none

/-- An ASCII class such as `[:alpha:]`, behind its opening bracket. Anything else is no such class,
and never an error. -/
def readAsciiClass? (s : List Char) : Option (ClassExpr × List Char) :=
  match s with
  | ':' :: rest =>
    let (negated, rest) := match rest with
      | '^' :: rest => (true, rest)
      | rest => (false, rest)
    let name := rest.takeWhile (· ≠ ':')
    match rest.dropWhile (· ≠ ':') with
    | ':' :: ']' :: after => (asciiClass? name).map fun ranges => (.ascii ranges negated, after)
    | _ => none
  | _ => none

/-- What is open around the innermost part of a bracketed class. -/
inductive ClassFrame where
  /-- A bracket, with the items before it in the class around it. -/
  | opened (outer : List ClassExpr) (negated : Bool)
  /-- An operator that waits for its right operand. -/
  | operator (kind : ClassOperator) (left : ClassExpr)

/-- Apply the operator on top of the stack, if there is one, to its right operand. -/
def closeOperator (right : ClassExpr) : List ClassFrame → ClassExpr × List ClassFrame
  | .operator kind left :: stack => (.operation kind left right, stack)
  | stack => (right, stack)

/-- Literal hyphens at the start of a class. -/
def leadingHyphens (verbose : Bool) : (fuel : Nat) → List Char → List ClassExpr × List Char
  | fuel + 1, '-' :: rest =>
    let (items, rest) := leadingHyphens verbose fuel (skipBlank verbose rest)
    (.char '-' :: items, rest)
  | _, s => ([], s)

/-- Open a bracket: negation, leading hyphens, and a closing bracket that stands first and so for
itself. The items come back in reverse order. -/
def openBracket (verbose : Bool) (s : List Char) : Except Fault (Bool × List ClassExpr × List Char) :=
  let s := skipBlank verbose s
  let (negated, s) := match s with
    | '^' :: rest => (true, skipBlank verbose rest)
    | s => (false, s)
  let (items, s) := leadingHyphens verbose s.length s
  match items, s with
  | _, [] => .error .classUnclosed
  | [], ']' :: rest =>
    match skipBlank verbose rest with
    | [] => .error .classUnclosed
    | s => .ok (negated, [.char ']'], s)
  | items, s => .ok (negated, items.reverse, s)

def readClassAtom (verbose : Bool) : List Char → Except Fault (Atom × List Char)
  | [] => .error .classUnclosed
  | '\\' :: rest => readEscape verbose rest
  | c :: rest => .ok (.literal c false, rest)

/-- The character behind the next one, as seen when a hyphen is classified: in a verbose pattern
blanks are passed over, and one `#` with the blanks behind it. -/
def peekPastBlank (verbose : Bool) (s : List Char) : Option Char :=
  if verbose then
    let past := s.dropWhile isWhitespace
    let past := match past with
      | '#' :: rest => rest.dropWhile isWhitespace
      | past => past
    match past with
    | [] => s.head?
    | c :: _ => some c
  else s.head?

def readClassRange (verbose : Bool) (s : List Char) : Except Fault (ClassExpr × List Char) := do
  let (first, rest) ← readClassAtom verbose s
  let rest := skipBlank verbose rest
  match rest with
  | [] => .error .classUnclosed
  | '-' :: behind =>
    let peeked := peekPastBlank verbose behind
    if peeked = some ']' || peeked = some '-' then
      return (← first.toClassItem, rest)
    else
      match skipBlank verbose behind with
      | [] => .error .classUnclosed
      | rest =>
        let (last, rest) ← readClassAtom verbose rest
        let first ← first.toRangeEnd
        let last ← last.toRangeEnd
        if first ≤ last then return (.range first last, rest) else .error .classRangeReversed
  | rest => return (← first.toClassItem, rest)

/-- The rest of a bracketed class. `items` are those read since the innermost bracket or operator,
in reverse order. -/
def readClass (verbose : Bool) : (fuel : Nat) → List Char → List ClassExpr → List ClassFrame →
    Except Fault (Bool × ClassExpr × List Char)
  | 0, _, _, _ => .error .classUnclosed
  | fuel + 1, s, items, stack => do
    let operator (kind : ClassOperator) (rest : List Char) :=
      let (left, stack) := closeOperator (.ofItems items.reverse) stack
      readClass verbose fuel rest [] (.operator kind left :: stack)
    match skipBlank verbose s with
    | [] => .error .classUnclosed
    | '[' :: rest =>
      match readAsciiClass? rest with
      | some (item, rest) => readClass verbose fuel rest (item :: items) stack
      | none =>
        let (negated, inner, rest) ← openBracket verbose rest
        readClass verbose fuel rest inner (.opened items negated :: stack)
    | ']' :: rest =>
      let (body, stack) := closeOperator (.ofItems items.reverse) stack
      match stack with
      | [.opened _ negated] => return (negated, body, rest)
      | .opened outer negated :: stack =>
        readClass verbose fuel rest (.bracket negated body :: outer) stack
      | _ => .error .classUnclosed
    | '&' :: '&' :: rest => operator .intersection rest
    | '-' :: '-' :: rest => operator .difference rest
    | '~' :: '~' :: rest => operator .symmetricDifference rest
    | s =>
      let (item, rest) ← readClassRange verbose s
      readClass verbose fuel rest (item :: items) stack

def flagOfLetter? : Char → Option Flag
  | 'i' => some .caseInsensitive
  | 'm' => some .multiLine
  | 's' => some .dotMatchesNewline
  | 'U' => some .swapGreed
  | 'u' => some .unicode
  | 'R' => some .crlf
  | 'x' => some .verbose
  | _ => none

/-- Flags up to a colon or a closing parenthesis, which comes back with them. -/
def readFlags : (enable dangling : Bool) → FlagChanges → List Char →
    Except Fault (FlagChanges × Char × List Char)
  | _, _, _, [] => .error .flagUnclosed
  | enable, dangling, changes, c :: rest =>
    if c = ':' || c = ')' then
      if dangling then .error .flagDangling else .ok (changes.reverse, c, rest)
    else if c = '-' then
      if enable then readFlags false true changes rest else .error .flagRepeated
    else
      match flagOfLetter? c with
      | none => .error .flagUnknown
      | some flag =>
        if changes.any (·.1 = flag) then .error .flagRepeated
        else readFlags enable false ((flag, enable) :: changes) rest

/-- Whether a character may stand in the name of a group. -/
def isNameChar (first : Bool) (c : Char) : Bool :=
  c = '_' || (if first then isAlphabetic c
    else isAlphanumeric c || c = '.' || c = '[' || c = ']')

/-- The name of a group, up to its closing angle bracket. -/
def readName : List Char → List Char → Except Fault (List Char × List Char)
  | _, [] => .error .groupNameUnclosed
  | name, c :: rest =>
    if c = '>' then
      if name.isEmpty then .error .groupNameEmpty else .ok (name.reverse, rest)
    else if isNameChar name.isEmpty c then readName (c :: name) rest
    else .error .groupNameInvalid

/-- A group that is still open: what stood before it, and what it sets. -/
structure Opened where
  before : List Pattern
  branches : List Pattern
  captures : Bool
  changes : FlagChanges
  verbose : Bool

/-- The state of the reader: the parts of the current alternative and the alternatives before it,
both in reverse order, the open groups, and the names of groups so far. -/
structure Reader where
  rest : List Char
  verbose : Bool
  parts : List Pattern
  branches : List Pattern
  stack : List Opened
  names : List (List Char)

namespace Reader

def start (s : List Char) : Reader := ⟨s, false, [], [], [], []⟩

def push (r : Reader) (part : Pattern) (rest : List Char) : Reader :=
  { r with rest, parts := part :: r.parts }

/-- What the current group holds. -/
def body (r : Reader) : Pattern :=
  .ofBranches ((Pattern.ofParts r.parts.reverse :: r.branches).reverse)

def enter (r : Reader) (captures : Bool) (changes : FlagChanges) (rest : List Char) : Reader :=
  let verbose := ((changes.find? (·.1 = .verbose)).map (·.2)).getD r.verbose
  { r with
    rest, verbose, parts := [], branches := []
    stack := ⟨r.parts, r.branches, captures, changes, r.verbose⟩ :: r.stack }

/-- What follows an opening parenthesis: a group to enter, or flags to set. -/
def openGroup (r : Reader) (s : List Char) : Except Fault Reader :=
  let named (s : List Char) : Except Fault Reader := do
    let (name, rest) ← readName [] s
    if r.names.contains name then .error .groupNameRepeated
    else return { r.enter true [] rest with names := name :: r.names }
  match skipBlank r.verbose s with
  | '?' :: '=' :: _ | '?' :: '!' :: _ | '?' :: '<' :: '=' :: _ | '?' :: '<' :: '!' :: _ =>
    .error .lookAround
  | '?' :: 'P' :: '<' :: s => named s
  | '?' :: '<' :: s => named s
  | '?' :: s => do
    if s.isEmpty then .error .groupUnclosed
    else
      let (changes, closing, rest) ← readFlags true false [] s
      if closing = ')' then
        if changes.isEmpty then .error .repetitionWithoutOperand
        else
          let verbose := ((changes.find? (·.1 = .verbose)).map (·.2)).getD r.verbose
          return { r.push (.setFlags changes) rest with verbose }
      else return r.enter false changes rest
  | s => .ok (r.enter true [] s)

def closeGroup (r : Reader) (rest : List Char) : Except Fault Reader :=
  match r.stack with
  | [] => .error .groupUnopened
  | outer :: stack =>
    .ok { r with
      rest, stack
      verbose := outer.verbose
      parts := .group outer.captures outer.changes r.body :: outer.before
      branches := outer.branches }

/-- The part that a repetition operator applies to, and the parts before it. -/
def operand (r : Reader) : Except Fault (Pattern × List Pattern) :=
  match r.parts with
  | [] | .empty :: _ | .setFlags _ :: _ => .error .repetitionWithoutOperand
  | part :: before => .ok (part, before)

/-- Drop the question mark that makes a repetition lazy: it changes no answer to whether there is a
match. -/
def dropLazy : List Char → List Char
  | '?' :: rest => rest
  | s => s

def repeatLast (r : Reader) (min : Nat) (max : Option Nat) (rest : List Char) : Except Fault Reader := do
  let (part, before) ← r.operand
  return { r with rest, parts := .repeated min max part :: before }

end Reader

/-- The largest count of a repetition. -/
def maxCount : Nat := Nat.pow 2 32 - 1

/-- The decimal digits of a count; blanks and comments between them are passed over where the
pattern is verbose. -/
def countDigits (verbose : Bool) : (comment : Bool) → Option Nat → List Char → Option Nat × List Char
  | _, acc, [] => (acc, [])
  | true, acc, c :: rest => countDigits verbose (c ≠ '\n') acc rest
  | false, acc, c :: rest =>
    if c.isDigit then
      countDigits verbose false (some (acc.getD 0 * 10 + (c.toNat - '0'.toNat))) rest
    else if verbose && acc.isSome && isWhitespace c then countDigits verbose false acc rest
    else if verbose && acc.isSome && c = '#' then countDigits verbose true acc rest
    else (acc, c :: rest)

/-- A count, with blanks around it; nothing where there are no digits. -/
def readCount (verbose : Bool) (s : List Char) : Except Fault (Option Nat × List Char) :=
  let (count, rest) := countDigits verbose false none (s.dropWhile isWhitespace)
  let rest := rest.dropWhile isWhitespace
  match count with
  | none => .ok (none, rest)
  | some n => if n ≤ maxCount then .ok (some n, rest) else .error .repetitionCountTooLarge

def required (count : Option Nat) : Except Fault Nat :=
  match count with
  | none => .error .repetitionCountEmpty
  | some n => .ok n

namespace Reader

/-- What follows an opening brace: the counts of a repetition. -/
def readCounted (r : Reader) (s : List Char) : Except Fault Reader := do
  let _ ← r.operand
  let s := skipBlank r.verbose s
  if s.isEmpty then .error .repetitionUnclosed
  else
    let (min, s) ← readCount r.verbose s
    let close (min : Nat) (max : Option Nat) (s : List Char) : Except Fault Reader :=
      match s with
      | '\x7d' :: rest =>
        let rest := dropLazy (skipBlank r.verbose rest)
        if max.all (min ≤ ·) then r.repeatLast min max rest else .error .repetitionCountsReversed
      | _ => .error .repetitionUnclosed
    match s with
    | [] => .error .repetitionUnclosed
    | ',' :: rest =>
      match skipBlank r.verbose rest with
      | [] => .error .repetitionUnclosed
      | '\x7d' :: rest => close (← required min) none ('\x7d' :: rest)
      | s =>
        let min ← required min
        let (max, s) ← readCount r.verbose s
        close min (some (← required max)) s
    | s =>
      let min ← required min
      close min (some min) s

/-- One step at the next character that is not blank. -/
def step (r : Reader) (c : Char) (rest : List Char) : Except Fault Reader :=
  match c with
  | '(' => r.openGroup rest
  | ')' => r.closeGroup rest
  | '|' => .ok { r with
      rest, parts := []
      branches := .ofParts r.parts.reverse :: r.branches }
  | '[' => do
    let (negated, items, s) ← openBracket r.verbose rest
    let (negated, body, s) ←
      readClass r.verbose (s.length + 1) s items [.opened [] negated]
    return r.push (.bracket negated body) s
  | '?' => r.repeatLast 0 (some 1) (dropLazy rest)
  | '*' => r.repeatLast 0 none (dropLazy rest)
  | '+' => r.repeatLast 1 none (dropLazy rest)
  | '\x7b' => r.readCounted rest
  | '\\' => do
    let (atom, s) ← readEscape r.verbose rest
    return r.push atom.toPattern s
  | '.' => .ok (r.push .dot rest)
  | '^' => .ok (r.push (.assertion .lineStart) rest)
  | '$' => .ok (r.push (.assertion .lineEnd) rest)
  | c => .ok (r.push (.literal c false) rest)

/-- Run to the end of the text. Each step takes at least one character, so the length of the text
is fuel enough. -/
def run : (fuel : Nat) → Reader → Except Fault Pattern
  | fuel, r =>
    match skipBlank r.verbose r.rest, fuel with
    | [], _ => if r.stack.isEmpty then .ok r.body else .error .groupUnclosed
    | _ :: _, 0 => .error .groupUnclosed
    | c :: rest, fuel + 1 => do run fuel (← r.step c rest)

end Reader

def Pattern.read (s : List Char) : Except Fault Pattern := do
  let pattern ← (Reader.start s).run s.length
  if pattern.depth ≤ nestLimit then return pattern else .error .nestedTooDeeply

end Docket.Regex
