/-!
Sets of characters.  A set is kept as closed ranges of code points that ascend and neither overlap
nor touch, so that a look-up is a binary search and the Boolean operations are single passes.
-/

namespace Docket.Unicode

def maxCodePoint : Nat := 0x10FFFF

/-- A set of code points as ascending closed ranges. -/
structure CharSet where
  ranges : Array (Nat × Nat)
deriving DecidableEq, Repr, Inhabited

/-- The value of one digit in base 36, where letters follow the decimal digits. -/
def digit36 (c : Char) : Nat :=
  if c.isDigit then c.toNat - '0'.toNat else c.toNat - 'a'.toNat + 10

/-- Blank-separated numbers in base 36; a leading hyphen makes a number negative. -/
def numbers36 (text : String) : List Int :=
  let close (neg : Bool) (n : Option Nat) (out : List Int) : List Int :=
    match n with
    | none => out
    | some n => (if neg then -(n : Int) else n) :: out
  let rec go : List Char → Bool → Option Nat → List Int → List Int
    | [], neg, n, out => (close neg n out).reverse
    | ' ' :: rest, neg, n, out => go rest false none (close neg n out)
    | '-' :: rest, _, n, out => go rest true n out
    | c :: rest, neg, n, out => go rest neg (some (n.getD 0 * 36 + digit36 c)) out
  go text.toList false none []

namespace CharSet

def empty : CharSet := ⟨#[]⟩

def full : CharSet := ⟨#[(0, maxCodePoint)]⟩

def isEmpty (s : CharSet) : Bool := s.ranges.isEmpty

/-- Binary search among the ranges from `lo` on and before `hi`. -/
def search (ranges : Array (Nat × Nat)) (code : Nat) : (fuel lo hi : Nat) → Bool
  | 0, _, _ => false
  | fuel + 1, lo, hi =>
    if lo < hi then
      let mid := (lo + hi) / 2
      match ranges[mid]? with
      | none => false
      | some (first, last) =>
        if code < first then search ranges code fuel lo mid
        else if last < code then search ranges code fuel (mid + 1) hi
        else true
    else false

def containsCode (s : CharSet) (code : Nat) : Bool :=
  search s.ranges code (s.ranges.size + 1) 0 s.ranges.size

def contains (s : CharSet) (c : Char) : Bool := s.containsCode c.toNat

/-- Join ranges that overlap or touch, in a list sorted by first member. -/
def joinSorted : List (Nat × Nat) → List (Nat × Nat)
  | [] => []
  | (first, last) :: rest =>
    let rec go (first last : Nat) : List (Nat × Nat) → List (Nat × Nat)
      | [] => [(first, last)]
      | (first', last') :: rest =>
        if first' ≤ last + 1 then go first (max last last') rest
        else (first, last) :: go first' last' rest
    go first last rest

/-- The set of all members of some ranges in any order; empty ranges are dropped. -/
def ofRanges (ranges : List (Nat × Nat)) : CharSet :=
  let proper := ranges.filter (fun r => r.1 ≤ r.2)
  ⟨(joinSorted (proper.mergeSort (fun a b => a.1 ≤ b.1))).toArray⟩

def singleton (c : Char) : CharSet := ⟨#[(c.toNat, c.toNat)]⟩

def ofChars (cs : List Char) : CharSet := ofRanges (cs.map fun c => (c.toNat, c.toNat))

def union (s t : CharSet) : CharSet :=
  if s.isEmpty then t
  else if t.isEmpty then s
  else ofRanges (s.ranges.toList ++ t.ranges.toList)

/-- The code points outside a list of ascending ranges, from `next` on. -/
def gaps (next : Nat) : List (Nat × Nat) → List (Nat × Nat)
  | [] => if next ≤ maxCodePoint then [(next, maxCodePoint)] else []
  | (first, last) :: rest =>
    if next < first then (next, first - 1) :: gaps (last + 1) rest else gaps (last + 1) rest

/-- All code points that are no members. -/
def compl (s : CharSet) : CharSet := ⟨(gaps 0 s.ranges.toList).toArray⟩

def inter (s t : CharSet) : CharSet := (s.compl.union t.compl).compl

/-- Members of the first set that are no members of the second. -/
def diff (s t : CharSet) : CharSet := s.inter t.compl

def symmDiff (s t : CharSet) : CharSet := (s.diff t).union (t.diff s)

def isAscii (s : CharSet) : Bool := s.ranges.all (fun r => r.2 < 0x80)

/-- Alternating gaps and lengths, from code point zero on. -/
def ofGaps (next : Nat) : List Int → List (Nat × Nat)
  | gap :: length :: rest =>
    let first := next + gap.toNat
    let after := first + length.toNat
    (first, after - 1) :: ofGaps after rest
  | _ => []

/-- Read a set from its table: the lengths of the alternating stretches outside and inside the set,
in base 36. -/
def ofTable (text : String) : CharSet := ⟨(ofGaps 0 (numbers36 text)).toArray⟩

end CharSet

/-- A maximal stretch of code points that share a label. -/
structure Stretch where
  first : Nat
  last : Nat
  label : String
deriving Repr, Inhabited

/-- A property that gives every code point one label, as ascending stretches. -/
structure Labelling where
  stretches : Array Stretch
deriving Inhabited

namespace Labelling

/-- Read a labelling from its table: lengths of stretches in decimal, each followed by its label. -/
def ofTable (text : String) : Labelling :=
  let emit (next count : Nat) (label : List Char) (out : List Stretch) : List Stretch :=
    if count = 0 then out else ⟨next, next + count - 1, String.ofList label.reverse⟩ :: out
  let rec go : List Char → Nat → Nat → List Char → List Stretch → List Stretch
    | [], next, count, label, out => (emit next count label out).reverse
    | c :: rest, next, count, label, out =>
      if c.isDigit then
        let digit := c.toNat - '0'.toNat
        if label.isEmpty then go rest next (count * 10 + digit) [] out
        else go rest (next + count) digit [] (emit next count label out)
      else go rest next count (c :: label) out
  ⟨(go text.toList 0 0 [] []).toArray⟩

/-- Binary search for the label of a code point. -/
def search (stretches : Array Stretch) (code : Nat) : (fuel lo hi : Nat) → Option String
  | 0, _, _ => none
  | fuel + 1, lo, hi =>
    if lo < hi then
      let mid := (lo + hi) / 2
      match stretches[mid]? with
      | none => none
      | some s =>
        if code < s.first then search stretches code fuel lo mid
        else if s.last < code then search stretches code fuel (mid + 1) hi
        else some s.label
    else none

def label? (l : Labelling) (c : Char) : Option String :=
  search l.stretches c.toNat (l.stretches.size + 1) 0 l.stretches.size

/-- The set of all code points whose label satisfies a condition. -/
def select (l : Labelling) (p : String → Bool) : CharSet :=
  .ofRanges ((l.stretches.toList.filter (p ·.label)).map fun s => (s.first, s.last))

end Labelling

end Docket.Unicode
