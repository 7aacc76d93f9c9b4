import Docket.Unicode.Property

/-!
Regular expressions over characters, with conditions on positions, and the search for a match.

A text of `n` characters has `n + 1` positions, and a set of positions is a natural number whose
bits are its members.  An expression maps the set of positions where a match may start to the set of
positions where one may end, so a search costs no backtracking: every position is advanced at once.
-/

namespace Docket

open Docket.Unicode (CharSet wordCharacters)

namespace Regex

/-- Conditions on a position. -/
inductive Look where
  | start
  | stop
  | lineStart
  | lineStop
  /-- The start of a line that a line feed, a carriage return or both may end. -/
  | anyLineStart
  | anyLineStop
  | boundary (unicode : Bool)
  | noBoundary (unicode : Bool)
  | wordStart (unicode : Bool)
  | wordStop (unicode : Bool)
  | noWordBefore (unicode : Bool)
  | noWordAfter (unicode : Bool)
deriving DecidableEq, Repr

/-- Whether a character is part of a word: by its Unicode property, or an ASCII letter, digit or
underscore. -/
def isWord (unicode : Bool) (c : Char) : Bool :=
  if unicode && 0x80 ≤ c.toNat then wordCharacters.contains c else c.isAlphanum || c = '_'

/-- Whether a condition holds between the character before a position and the one after it. -/
def Look.holds (look : Look) (before after : Option Char) : Bool :=
  let word (unicode : Bool) (c : Option Char) : Bool := c.any (isWord unicode)
  match look with
  | .start => before.isNone
  | .stop => after.isNone
  | .lineStart => before.all (· = '\n')
  | .lineStop => after.all (· = '\n')
  | .anyLineStart => before.all (· = '\n') || (before = some '\r' && after ≠ some '\n')
  | .anyLineStop => after.all (· = '\r') || (after = some '\n' && before ≠ some '\r')
  | .boundary u => word u before != word u after
  | .noBoundary u => word u before == word u after
  | .wordStart u => !word u before && word u after
  | .wordStop u => word u before && !word u after
  | .noWordBefore u => !word u before
  | .noWordAfter u => !word u after

end Regex

/-- Regular expressions. -/
inductive Regex where
  | empty
  | chars (set : CharSet)
  | look (condition : Regex.Look)
  | repeated (min : Nat) (max : Option Nat) (body : Regex)
  | captured (body : Regex)
  | alternation (branches : List Regex)
  | concat (parts : List Regex)
deriving Repr, Inhabited

namespace Regex

/-- The set of the positions whose bit is set, lowest first. -/
def ofBits (bits : List Bool) : Nat :=
  bits.foldr (fun bit rest => 2 * rest + bit.toNat) 0

/-- The members of one set of positions that are not in another. -/
def without (s t : Nat) : Nat := s ^^^ (s &&& t)

/-- An expression read against one text: each test is the set of positions that pass it. -/
inductive Track where
  | stay (allowed : Nat)
  | advance (allowed : Nat)
  | repeated (min : Nat) (max : Option Nat) (body : Track)
  | alternation (branches : List Track)
  | concat (parts : List Track)
deriving Repr, Inhabited

/-- The characters around each position of a text. -/
def neighbours (before : Option Char) : List Char → List (Option Char × Option Char)
  | [] => [(before, none)]
  | c :: rest => (before, some c) :: neighbours (some c) rest

mutual

/-- Read an expression against a text. -/
def onText (text : List Char) : Regex → Track
  | .empty => .concat []
  | .chars set => .advance (ofBits (text.map set.contains))
  | .look condition =>
    .stay (ofBits ((neighbours none text).map fun around => condition.holds around.1 around.2))
  | .repeated min max body => .repeated min max (onText text body)
  | .captured body => onText text body
  | .alternation branches => .alternation (onTextAll text branches)
  | .concat parts => .concat (onTextAll text parts)

def onTextAll (text : List Char) : List Regex → List Track
  | [] => []
  | r :: rest => onText text r :: onTextAll text rest

end

/-- Apply a step a number of times, unless it changes nothing before. -/
def iterate (step : Nat → Nat) : (count : Nat) → Nat → Nat
  | 0, s => s
  | count + 1, s =>
    let next := step s
    if next = s then s else iterate step count next

/-- All positions that at most `count` steps reach. Only positions that are new take another step;
when there are none the search ends. -/
def reach (step : Nat → Nat) : (count : Nat) → (seen frontier : Nat) → Nat
  | 0, seen, _ => seen
  | count + 1, seen, frontier =>
    let fresh := without (step frontier) seen
    if fresh = 0 then seen else reach step count (seen ||| fresh) fresh

namespace Track

mutual

/-- The positions where a match may end that starts at one of `starts`, in a text of `length`
characters. -/
def ends (length : Nat) (starts : Nat) : Track → Nat
  | .stay allowed => starts &&& allowed
  | .advance allowed => (starts &&& allowed) <<< 1
  | .repeated min max body =>
    let least := iterate (fun s => ends length s body) min starts
    let more := match max with
      | none => length + 1
      | some max => Nat.min (max - min) (length + 1)
    reach (fun s => ends length s body) more least least
  | .alternation branches => endsOfAny length starts branches
  | .concat parts => endsOfAll length starts parts

/-- The positions where a match of some branch may end. -/
def endsOfAny (length : Nat) (starts : Nat) : List Track → Nat
  | [] => 0
  | t :: rest => ends length starts t ||| endsOfAny length starts rest

/-- The positions where matches of all parts one after the other may end. -/
def endsOfAll (length : Nat) (starts : Nat) : List Track → Nat
  | [] => starts
  | t :: rest => endsOfAll length (ends length starts t) rest

end

end Track

/-- Whether an expression matches somewhere in a text. -/
def isMatch (r : Regex) (text : String) : Bool :=
  let cs := text.toList
  let everywhere := Nat.pow 2 (cs.length + 1) - 1
  (onText cs r).ends cs.length everywhere != 0

end Regex

end Docket
