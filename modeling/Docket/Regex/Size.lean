import Docket.Regex.Basic

/-!
The size of the automaton that an expression takes when it reads UTF-8 byte by byte, forwards and
backwards.  An expression whose automaton is too large is refused: counted repetitions multiply, so
a short pattern can ask for more states than any memory holds.
-/

namespace Docket.Regex

open Docket.Unicode (CharSet)

/-- The bytes that one state takes. -/
def stateSize : Nat := 32

/-- The bytes that one step out of a state with several steps takes. -/
def stepSize : Nat := 8

/-- The bytes that one alternative of a choice takes. -/
def choiceSize : Nat := 4

/-- The largest automaton, in bytes: ten mebibytes. -/
def sizeLimit : Nat := 10 * Nat.pow 2 20

def utf8 (code : Nat) : List Nat :=
  if code < 0x80 then [code]
  else if code < 0x800 then [0xC0 + code / 64, 0x80 + code % 64]
  else if code < 0x10000 then [0xE0 + code / 4096, 0x80 + code / 64 % 64, 0x80 + code % 64]
  else [0xF0 + code / 262144, 0x80 + code / 4096 % 64, 0x80 + code / 64 % 64, 0x80 + code % 64]

/-- Where to cut a range of code points so that both parts are closer to a product of byte ranges:
at the surrogates, where encodings grow, and where a continuation byte wraps. The second component
is the start of the upper part. -/
def cut? (first last : Nat) : Option (Nat × Nat) :=
  if first < 0xE000 ∧ 0xD7FF < last then some (0xD7FF, 0xE000)
  else
    match [0x7F, 0x7FF, 0xFFFF].find? (fun m => first ≤ m && m < last) with
    | some m => some (m, m + 1)
    | none =>
      if last < 0x80 then none
      else
        [64, 4096, 262144].findSome? fun unit =>
          if first / unit = last / unit then none
          else if first % unit ≠ 0 then
            let m := first / unit * unit + (unit - 1)
            some (m, m + 1)
          else if last % unit ≠ unit - 1 then
            let m := last / unit * unit
            some (m - 1, m)
          else none

/-- A range of code points as products of byte ranges. A range is cut into few parts, so the fuel
suffices. -/
def byteRanges : (fuel : Nat) → (first last : Nat) → List (List (Nat × Nat))
  | 0, _, _ => []
  | fuel + 1, first, last =>
    if last < first then []
    else match cut? first last with
      | some (below, above) => byteRanges fuel first below ++ byteRanges fuel above last
      | none => [(utf8 first).zip (utf8 last)]

def CharSet.byteSequences (s : CharSet) : List (List (Nat × Nat)) :=
  s.ranges.toList.flatMap fun r => byteRanges 32 r.1 r.2

/-- A state of an automaton without cycles: its byte ranges and the states they lead to. -/
abbrev ByteState := List (Nat × Nat × Nat)

/-- The number of a state in a table, added if it is new. State zero is the end. -/
def internState (table : Array ByteState) (state : ByteState) : Nat × Array ByteState :=
  match table.findIdx? (· = state) with
  | some i => (i + 1, table)
  | none => (table.size + 1, table.push state)

/-- Group neighbouring sequences by their first range. -/
def groupByHead : List (List (Nat × Nat)) → List ((Nat × Nat) × List (List (Nat × Nat)))
  | [] => []
  | [] :: rest => groupByHead rest
  | (head :: tail) :: rest =>
    match groupByHead rest with
    | (head', tails) :: groups =>
      if head = head' then (head, tail :: tails) :: groups
      else (head, [tail]) :: (head', tails) :: groups
    | [] => [(head, [tail])]

/-- Add the states that read some sequences to a table in which equal states are shared. -/
def addSequences : (depth : Nat) → Array ByteState → List (List (Nat × Nat)) → Nat × Array ByteState
  | 0, table, _ => (0, table)
  | depth + 1, table, sequences =>
    if sequences.all List.isEmpty then (0, table)
    else
      let (steps, table) := (groupByHead sequences).foldl
        (fun (steps, table) (head, tails) =>
          let (target, table) := addSequences depth table tails
          ((head.1, head.2, target) :: steps, table)) ([], table)
      internState table steps.reverse

/-- The prefixes of sequences that are not yet in a list. -/
def addPrefixes (known : List (List (Nat × Nat))) (sequence : List (Nat × Nat)) :
    List (List (Nat × Nat)) :=
  (List.range sequence.length).foldl (fun known i =>
    let initial := sequence.take (i + 1)
    if known.contains initial then known else initial :: known) known

/-- The size of the automaton of a set of characters. Forwards, equal states are shared; backwards,
only common beginnings are. -/
def classSize (backwards : Bool) (s : CharSet) : Nat :=
  match s.ranges.toList with
  | [] => stateSize
  | [(first, last)] =>
    if first = last then stateSize * (utf8 first).length
    else general
  | _ => general
where
  general : Nat :=
    if s.isAscii then 2 * stateSize + stepSize * s.ranges.size
    else if backwards then
      let sequences := CharSet.byteSequences s
      2 * stateSize + choiceSize * sequences.length +
        stateSize * (sequences.foldl addPrefixes []).length
    else
      let (_, table) := addSequences 5 #[] (CharSet.byteSequences s)
      stateSize + (table.toList.map fun state => stateSize + stepSize * state.length).foldl (· + ·) 0

mutual

/-- The least number of characters that a match takes. -/
def minLength : Regex → Nat
  | .empty | .look _ => 0
  | .chars _ => 1
  | .repeated min _ body => min * minLength body
  | .captured body => minLength body
  | .alternation branches => minLengthAny branches
  | .concat parts => minLengthAll parts

/-- The least number of characters that a match of some branch takes. -/
def minLengthAny : List Regex → Nat
  | [] => 0
  | [r] => minLength r
  | r :: rest => Nat.min (minLength r) (minLengthAny rest)

/-- The least number of characters that matches of all parts take. -/
def minLengthAll : List Regex → Nat
  | [] => 0
  | r :: rest => minLength r + minLengthAll rest

end

mutual

/-- Whether every match is empty. -/
def onlyEmpty : Regex → Bool
  | .empty | .look _ => true
  | .chars _ => false
  | .repeated _ max body => max = some 0 || onlyEmpty body
  | .captured body => onlyEmpty body
  | .alternation branches => onlyEmptyAll branches
  | .concat parts => onlyEmptyAll parts

/-- Whether every match of each expression is empty. -/
def onlyEmptyAll : List Regex → Bool
  | [] => true
  | r :: rest => onlyEmpty r && onlyEmptyAll rest

end

/-- The size of a repetition whose operand has a given size. -/
def repeatedSize (body : Nat) (nonEmpty : Bool) (min : Nat) (max : Option Nat) : Nat :=
  let choice := stateSize + 2 * choiceSize
  let exactly (n : Nat) := if n = 0 then stateSize else n * body
  match max with
  | none =>
    if min = 0 then (if nonEmpty then choice + body else 2 * choice + stateSize + body)
    else min * body + choice
  | some max =>
    if max = 0 then stateSize
    else if min = max then exactly min
    else if min = 0 ∧ max = 1 then choice + stateSize + body
    else exactly min + stateSize + (max - min) * (choice + body)

mutual

/-- The size of the automaton of an expression. -/
def size (backwards : Bool) : Regex → Nat
  | .empty | .look _ => stateSize
  | .chars set => classSize backwards set
  | .repeated min max body =>
    if onlyEmpty body then
      repeatedSize (size backwards body) false (Nat.min min 1) (some ((max.map (Nat.min 1)).getD 1))
    else repeatedSize (size backwards body) (0 < minLength body) min max
  | .captured body => size backwards body + if backwards then 0 else 2 * stateSize
  | .alternation branches =>
    2 * stateSize + choiceSize * branches.length + sizeAll backwards branches
  | .concat parts => if parts.isEmpty then stateSize else sizeAll backwards parts

def sizeAll (backwards : Bool) : List Regex → Nat
  | [] => 0
  | r :: rest => size backwards r + sizeAll backwards rest

end

/-- Whether an expression is small enough in both directions. The search for a start and the mark of
a match take five states more. -/
def fits (r : Regex) : Bool :=
  5 * stateSize + size false r ≤ sizeLimit && 5 * stateSize + size true r ≤ sizeLimit

end Docket.Regex
