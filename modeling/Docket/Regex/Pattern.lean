import Docket.Unicode.CharSet

/-!
The syntax tree of a regular expression, as it is written: character classes are still expressions,
and flags are still part of the text they govern.
-/

namespace Docket.Regex

open Docket.Unicode (CharSet)

/-- Why a pattern is refused. -/
inductive Fault where
  | groupUnclosed
  | groupUnopened
  | groupNameUnclosed
  | groupNameEmpty
  | groupNameInvalid
  | groupNameRepeated
  | lookAround
  | flagUnknown
  | flagRepeated
  | flagDangling
  | flagUnclosed
  | repetitionWithoutOperand
  | repetitionUnclosed
  | repetitionCountEmpty
  | repetitionCountTooLarge
  | repetitionCountsReversed
  | escapeUnfinished
  | escapeUnknown
  | backreference
  | hexEmpty
  | hexInvalid
  | boundaryUnclosed
  | boundaryUnknown
  | classUnclosed
  | classEscape
  | classRangeOperand
  | classRangeReversed
  | propertyUnknown
  | propertyValueUnknown
  | propertyMalformed
  | unicodeDisabled
  | matchesInvalidText
  | nestedTooDeeply
  | programTooLarge
deriving DecidableEq, Repr

/-- A flag that changes the meaning of the text behind it. -/
inductive Flag where
  | caseInsensitive
  | multiLine
  | dotMatchesNewline
  | swapGreed
  | unicode
  | crlf
  | verbose
deriving DecidableEq, Repr

/-- The flags that a group or a flag setting turns on or off. -/
abbrev FlagChanges := List (Flag × Bool)

/-- What `\d`, `\s` and `\w` stand for. -/
inductive Shorthand where
  | digit
  | space
  | word
deriving DecidableEq, Repr

/-- The part of a Unicode property that an escape names. -/
inductive PropertyQuery where
  /-- A binary property, a general category or a script. -/
  | named (name : List Char)
  /-- A property with a value. -/
  | valued (property value : List Char)
  /-- A property with a value that its members do not have. -/
  | notValued (property value : List Char)
deriving DecidableEq, Repr

/-- Conditions on a position of the text. -/
inductive Assertion where
  | lineStart
  | lineEnd
  | textStart
  | textEnd
  | wordBoundary
  | notWordBoundary
  | wordStart
  | wordEnd
  | wordStartHalf
  | wordEndHalf
deriving DecidableEq, Repr

/-- Operators between the operands of a bracketed class. -/
inductive ClassOperator where
  | intersection
  | difference
  | symmetricDifference
deriving DecidableEq, Repr

/-- A bracketed class. -/
inductive ClassExpr where
  | nothing
  | char (c : Char)
  | range (first last : Char)
  | ascii (ranges : List (Nat × Nat)) (negated : Bool)
  | shorthand (kind : Shorthand) (negated : Bool)
  | property (query : PropertyQuery) (negated : Bool)
  | bracket (negated : Bool) (body : ClassExpr)
  | union (items : List ClassExpr)
  | operation (operator : ClassOperator) (left right : ClassExpr)
deriving Repr, Inhabited

/-- A pattern. -/
inductive Pattern where
  | empty
  /-- A setting such as `(?i)`, in force up to the end of the group around it. -/
  | setFlags (changes : FlagChanges)
  /-- A character; `byte` marks the two-digit form `\xFF`, which may stand for a raw byte. -/
  | literal (c : Char) (byte : Bool)
  | dot
  | assertion (kind : Assertion)
  | shorthand (kind : Shorthand) (negated : Bool)
  | property (query : PropertyQuery) (negated : Bool)
  | bracket (negated : Bool) (body : ClassExpr)
  | repeated (min : Nat) (max : Option Nat) (body : Pattern)
  /-- A group with the flags it sets for itself; `captures` for one that records its match. -/
  | group (captures : Bool) (changes : FlagChanges) (body : Pattern)
  | alternation (branches : List Pattern)
  | concat (parts : List Pattern)
deriving Repr, Inhabited

namespace ClassExpr

mutual

/-- How deeply brackets, unions and operators of a class are nested. -/
def depth : ClassExpr → Nat
  | .bracket _ body => body.depth + 1
  | .union items => depthAll items + 1
  | .operation _ left right => max left.depth right.depth + 1
  | _ => 0

def depthAll : List ClassExpr → Nat
  | [] => 0
  | item :: rest => max item.depth (depthAll rest)

end

/-- The union of items; one item stands for itself. -/
def ofItems : List ClassExpr → ClassExpr
  | [] => .nothing
  | [item] => item
  | items => .union items

end ClassExpr

namespace Pattern

mutual

/-- How deeply the parts of a pattern are nested. -/
def depth : Pattern → Nat
  | .bracket _ body => body.depth + 1
  | .repeated _ _ body => body.depth + 1
  | .group _ _ body => body.depth + 1
  | .alternation branches => depthAll branches + 1
  | .concat parts => depthAll parts + 1
  | _ => 0

def depthAll : List Pattern → Nat
  | [] => 0
  | part :: rest => max part.depth (depthAll rest)

end

/-- Patterns one after the other; one pattern stands for itself. -/
def ofParts : List Pattern → Pattern
  | [] => .empty
  | [part] => part
  | parts => .concat parts

/-- Alternatives in order; one alternative stands for itself. -/
def ofBranches : List Pattern → Pattern
  | [] => .empty
  | [branch] => branch
  | branches => .alternation branches

end Pattern

end Docket.Regex
