import Docket.Regex.Basic
import Docket.Regex.Pattern
import Docket.Unicode.Script
import Docket.Unicode.Age

/-!
The regular expression that a pattern stands for.  Flags are resolved here: case is folded into
character sets, and each dot and assertion takes the meaning that the flags around it give.
-/

namespace Docket.Regex

open Docket.Unicode

/-- The flags in force. -/
structure Flags where
  caseInsensitive : Bool := false
  multiLine : Bool := false
  dotMatchesNewline : Bool := false
  unicode : Bool := true
  crlf : Bool := false
deriving DecidableEq, Repr

/-- Flags after some changes. Verbosity is settled when a pattern is read, and greed changes no
answer to whether there is a match. -/
def Flags.apply (flags : Flags) (changes : FlagChanges) : Flags :=
  changes.foldl (fun flags (flag, enable) => match flag with
    | .caseInsensitive => { flags with caseInsensitive := enable }
    | .multiLine => { flags with multiLine := enable }
    | .dotMatchesNewline => { flags with dotMatchesNewline := enable }
    | .unicode => { flags with unicode := enable }
    | .crlf => { flags with crlf := enable }
    | .swapGreed | .verbose => flags) flags

/-- A property name as it is compared: lower case, without blanks, underscores, hyphens and a leading
`is`, and without characters beyond ASCII. -/
def looseName (name : List Char) : String :=
  let (is_, rest) := match name with
    | i :: s :: rest => if i.toLower = 'i' && s.toLower = 's' then (true, rest) else (false, name)
    | _ => (false, name)
  let kept := (rest.filter fun c => c.toNat < 0x80 && c ≠ ' ' && c ≠ '_' && c ≠ '-').map Char.toLower
  if is_ && kept = ['c'] then "isc" else String.ofList kept

/-- The characters that a property name stands for: a binary property, else a general category, else
a script. -/
def namedProperty (name : List Char) : Except Fault CharSet :=
  let name := looseName name
  let property := if ["cf", "sc", "lc"].contains name then none else propertyNamed? name
  match property.or ((categoryNamed? name).or ((scriptCode? name).map ofScript)) with
  | some set => .ok set
  | none => .error .propertyUnknown

def valuedProperty (property value : List Char) : Except Fault CharSet :=
  let value := looseName value
  let set := match looseName property with
    | "gc" | "generalcategory" => some (categoryNamed? value)
    | "sc" | "script" => some ((scriptCode? value).map ofScript)
    | "scx" | "scriptextensions" => some ((scriptCode? value).map ofScriptExtension)
    | "age" => some ((versionLetter? value).map assignedBy)
    | _ => none
  match set with
  | none => .error .propertyUnknown
  | some none => .error .propertyValueUnknown
  | some (some set) => .ok set

/-- ASCII letters together with their other case. -/
def foldAscii (s : CharSet) : CharSet :=
  let upper := s.inter (.ofRanges [(0x41, 0x5A)])
  let lower := s.inter (.ofRanges [(0x61, 0x7A)])
  (s.union (.ofRanges (upper.ranges.toList.map fun r => (r.1 + 32, r.2 + 32)))).union
    (.ofRanges (lower.ranges.toList.map fun r => (r.1 - 32, r.2 - 32)))

/-- A set with the characters that differ from its members only by case, if case is ignored. -/
def Flags.fold (flags : Flags) (s : CharSet) : CharSet :=
  if !flags.caseInsensitive then s
  else if flags.unicode then s.foldCase
  else foldAscii s

/-- Without Unicode a class must stay within ASCII, since anything else could match a part of a
character. -/
def Flags.checked (flags : Flags) (s : CharSet) : Except Fault CharSet :=
  if flags.unicode || s.isAscii then .ok s else .error .matchesInvalidText

/-- A set after case folding and negation, in this order. -/
def Flags.foldNegate (flags : Flags) (negated : Bool) (s : CharSet) : Except Fault CharSet :=
  let s := flags.fold s
  flags.checked (if negated then s.compl else s)

def Flags.shorthand (flags : Flags) (kind : Shorthand) (negated : Bool) : Except Fault CharSet :=
  let s := match kind, flags.unicode with
    | .digit, true => decimalDigits
    | .digit, false => .ofRanges [(0x30, 0x39)]
    | .space, true => whitespace
    | .space, false => .ofRanges [(0x09, 0x0D), (0x20, 0x20)]
    | .word, true => wordCharacters
    | .word, false => .ofRanges [(0x30, 0x39), (0x41, 0x5A), (0x5F, 0x5F), (0x61, 0x7A)]
  flags.checked (if negated then s.compl else s)

def Flags.property (flags : Flags) (query : PropertyQuery) (negated : Bool) : Except Fault CharSet := do
  if !flags.unicode then .error .unicodeDisabled
  else
    let (set, inverted) ← match query with
      | .named name => do pure (← namedProperty name, false)
      | .valued property value => do pure (← valuedProperty property value, false)
      | .notValued property value => do pure (← valuedProperty property value, true)
    flags.foldNegate (negated != inverted) set

/-- The characters from one to another; without Unicode they must be ASCII. -/
def Flags.classChars (flags : Flags) (first last : Char) : Except Fault CharSet :=
  if flags.unicode || last.toNat < 0x80 then .ok (.ofRanges [(first.toNat, last.toNat)])
  else .error .unicodeDisabled

mutual

/-- The characters of a bracketed class, before its own brackets fold and negate them. -/
def Flags.classSet (flags : Flags) : ClassExpr → Except Fault CharSet
  | .nothing => .ok .empty
  | .char c => flags.classChars c c
  | .range first last => flags.classChars first last
  | .ascii ranges negated => flags.foldNegate negated (.ofRanges ranges)
  | .shorthand kind negated => flags.shorthand kind negated
  | .property query negated => flags.property query negated
  | .bracket negated body => do flags.foldNegate negated (← flags.classSet body)
  | .union items => flags.classUnion items
  | .operation operator left right => do
    let left := flags.fold (← flags.classSet left)
    let right := flags.fold (← flags.classSet right)
    return match operator with
      | .intersection => left.inter right
      | .difference => left.diff right
      | .symmetricDifference => left.symmDiff right

def Flags.classUnion (flags : Flags) : List ClassExpr → Except Fault CharSet
  | [] => .ok .empty
  | item :: rest => do return (← flags.classSet item).union (← flags.classUnion rest)

end

def Flags.literal (flags : Flags) (c : Char) (byte : Bool) : Except Fault Regex :=
  if flags.unicode then .ok (.chars (flags.fold (.singleton c)))
  else if c.toNat < 0x80 then .ok (.chars (flags.fold (.singleton c)))
  else if byte then .error .matchesInvalidText
  else if flags.caseInsensitive then .error .unicodeDisabled
  else .ok (.chars (.singleton c))

def Flags.dot (flags : Flags) : Except Fault Regex :=
  if !flags.unicode then .error .matchesInvalidText
  else if flags.dotMatchesNewline then .ok (.chars .full)
  else if flags.crlf then .ok (.chars (CharSet.ofChars ['\n', '\r']).compl)
  else .ok (.chars (CharSet.singleton '\n').compl)

/-- The condition that an assertion stands for. -/
def Flags.look (flags : Flags) : Assertion → Look
  | .lineStart =>
    if flags.multiLine then (if flags.crlf then .anyLineStart else .lineStart) else .start
  | .lineEnd =>
    if flags.multiLine then (if flags.crlf then .anyLineStop else .lineStop) else .stop
  | .textStart => .start
  | .textEnd => .stop
  | .wordBoundary => .boundary flags.unicode
  | .notWordBoundary => .noBoundary flags.unicode
  | .wordStart => .wordStart flags.unicode
  | .wordEnd => .wordStop flags.unicode
  | .wordStartHalf => .noWordBefore flags.unicode
  | .wordEndHalf => .noWordAfter flags.unicode

mutual

/-- The expression that a pattern stands for under some flags, and the flags in force behind it. -/
def ofPattern (flags : Flags) : Pattern → Except Fault (Regex × Flags)
  | .empty => .ok (.empty, flags)
  | .setFlags changes => .ok (.empty, flags.apply changes)
  | .literal c byte => do return (← flags.literal c byte, flags)
  | .dot => do return (← flags.dot, flags)
  | .assertion kind => .ok (.look (flags.look kind), flags)
  | .shorthand kind negated => do return (.chars (← flags.shorthand kind negated), flags)
  | .property query negated => do return (.chars (← flags.property query negated), flags)
  | .bracket negated body => do
    return (.chars (← flags.foldNegate negated (← flags.classSet body)), flags)
  | .repeated min max body => do
    let (body, flags) ← ofPattern flags body
    return (.repeated min max body, flags)
  | .group captures changes body => do
    let (body, _) ← ofPattern (flags.apply changes) body
    return (if captures then .captured body else body, flags)
  | .alternation branches => do
    let (branches, flags) ← ofPatterns flags branches
    return (.alternation branches, flags)
  | .concat parts => do
    let (parts, flags) ← ofPatterns flags parts
    return (.concat parts, flags)

/-- The expressions of several patterns, where flags set in one stay in force in the next. -/
def ofPatterns (flags : Flags) : List Pattern → Except Fault (List Regex × Flags)
  | [] => .ok ([], flags)
  | p :: rest => do
    let (r, flags) ← ofPattern flags p
    let (rest, flags) ← ofPatterns flags rest
    return (r :: rest, flags)

end

end Docket.Regex
