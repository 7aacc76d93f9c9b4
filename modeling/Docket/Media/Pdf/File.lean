import Docket.Media.Inflate
import Docket.Media.Pdf.Object

/-!
PDF files: where the numbered values of a file stand, and the pages that they make up.
-/

namespace Docket.Media

/-- A file with the table of its numbered values. -/
structure PdfFile where
  written : List Char
  /-- Where the value of a number stands; of several entries the first counts. -/
  places : List (Nat × Nat)
  trailer : PdfValue

/-- A numbered value, with the bytes that follow a dictionary that describes them. -/
structure PdfObject where
  value : PdfValue
  content : Option (List Char) := none

namespace Pdf

/-- The numbers of values from one number on, and their places. -/
def tableRows? (number : Nat) : (count : Nat) → List Char → Option (List (Nat × Nat) × List Char)
  | 0, written => some ([], written)
  | count + 1, written => do
    let (.value (.integer place), rest) ← next? written | none
    let (.value (.integer _), rest) ← next? rest | none
    let (.word kind, rest) ← next? rest | none
    let (rows, rest) ← tableRows? (number + 1) count rest
    return (if kind = ['n'] then (number, place.toNat) :: rows else rows, rest)

/-- The parts of a table up to the trailer. -/
def tableParts? : (fuel : Nat) → List Char → Option (List (Nat × Nat) × PdfValue)
  | 0, _ => none
  | fuel + 1, written => do
    let (item, rest) ← next? written
    match item with
    | .value (.integer first) =>
      let (.value (.integer count), rest) ← next? rest | none
      let (rows, rest) ← tableRows? first.toNat count.toNat rest
      let (more, trailer) ← tableParts? fuel rest
      return (rows ++ more, trailer)
    | .word w =>
      if w ≠ "trailer".toList then none
      else
        let (.value trailer, _) ← next? rest | none
        return ([], trailer)
    | _ => none

/-- The table at a place, and the older tables that it refers to. -/
def tables? (written : List Char) : (fuel place : Nat) → Option (List (Nat × Nat) × PdfValue)
  | 0, _ => none
  | fuel + 1, place => do
    let (.word w, rest) ← next? (written.drop place) | none
    if w ≠ "xref".toList then none
    else
      let (rows, trailer) ← tableParts? (rest.length + 1) rest
      match (trailer.get? "Prev").bind PdfValue.nat? with
      | none => return (rows, trailer)
      | some older =>
        let (more, _) ← tables? written fuel older
        return (rows ++ more, trailer)

/-- What stands behind the last occurrence of a text. -/
def behindLast? (wanted : List Char) : List Char → Option (List Char)
  | [] => none
  | c :: rest =>
    match behindLast? wanted rest with
    | some found => some found
    | none => if wanted.isPrefixOf (c :: rest) then some ((c :: rest).drop wanted.length) else none

/-- How far from its end the place of the table is told, and how far from its start a file says what
it is. -/
def margin : Nat := 1024

/-- The most tables that are followed. -/
def maxTables : Nat := 64

/-- Read the table of a file; `none` if it is no file of this kind. -/
def open? (bytes : ByteArray) : Option PdfFile := do
  let written := bytes.toList.map fun b => Char.ofNat b.toNat
  let _ ← behindLast? "%PDF-".toList (written.take margin)
  let rest ← behindLast? "startxref".toList (written.drop (written.length - margin))
  let (.value (.integer place), _) ← next? rest | none
  let (places, trailer) ← tables? written maxTables place.toNat
  return ⟨written, places, trailer⟩

end Pdf

namespace PdfFile

/-- The value of a number, without the bytes that follow it, and what stands behind it. -/
def valueAt? (f : PdfFile) (number : Nat) : Option (PdfValue × List Char) := do
  let (_, place) ← f.places.find? (·.1 = number)
  let (.value (.integer n), rest) ← Pdf.next? (f.written.drop place) | none
  let (.value (.integer _), rest) ← Pdf.next? rest | none
  let (.word w, rest) ← Pdf.next? rest | none
  if n ≠ number ∨ w ≠ "obj".toList then none
  else
    let (.value v, rest) ← Pdf.next? rest | none
    return (v, rest)

/-- The most references that lead from one to the next. -/
def maxReferences : Nat := 32

/-- The value that a value refers to, or the value itself. -/
def resolveWithin? (f : PdfFile) : (fuel : Nat) → PdfValue → Option PdfValue
  | 0, _ => none
  | fuel + 1, .reference number => do
    let (v, _) ← f.valueAt? number
    f.resolveWithin? fuel v
  | _ + 1, v => some v

/-- The value that a value refers to, or the value itself. -/
def resolve? (f : PdfFile) (v : PdfValue) : Option PdfValue := f.resolveWithin? maxReferences v

/-- The value under a name in a dictionary, wherever it is written. -/
def get? (f : PdfFile) (v : PdfValue) (name : String) : Option PdfValue := do
  f.resolve? (← (← f.resolve? v).get? name)

/-- The bytes behind a dictionary that describes them. -/
def bytesBehind? (f : PdfFile) (v : PdfValue) (rest : List Char) : Option (List Char) := do
  let (.word w, rest) ← Pdf.next? rest | none
  if w ≠ "stream".toList then none
  else
    let length ← (← f.get? v "Length").nat?
    let rest := match rest with
      | '\r' :: '\n' :: rest => rest
      | '\n' :: rest => rest
      | rest => rest
    return rest.take length

/-- The value of a number, with the bytes that follow it. -/
def object? (f : PdfFile) (number : Nat) : Option PdfObject := do
  let (v, rest) ← f.valueAt? number
  return ⟨v, f.bytesBehind? v rest⟩

/-- The bytes that follow a value, unpacked. -/
def content? (f : PdfFile) (o : PdfObject) : Option (List Char) := do
  let packed ← o.content
  let unpack (packed : List Char) (filter : PdfValue) : Option (List Char) :=
    match filter with
    | .name n =>
      if n = "FlateDecode".toList then
        (unwrapZlib? ⟨(packed.map fun c => c.toNat.toUInt8).toArray⟩).map fun b =>
          b.toList.map fun b => Char.ofNat b.toNat
      else none
    | _ => none
  match f.get? o.value "Filter" with
  | none => return packed
  | some (.array filters) => filters.foldlM unpack packed
  | some filter => unpack packed filter

/-- The pages below a node of the tree of pages, in order. A page is known by its number, and comes
with the nodes above it, the nearest first. -/
def pagesBelow (f : PdfFile) : (fuel : Nat) → (above : List PdfValue) → (number : Nat) →
    List (Nat × List PdfValue)
  | 0, _, _ => []
  | fuel + 1, above, number =>
    match f.resolve? (.reference number) with
    | none => []
    | some v =>
      match f.get? v "Kids" with
      | some (.array kids) => kids.flatMap fun kid =>
          match kid with
          | .reference n => f.pagesBelow fuel (v :: above) n
          | _ => []
      | _ => [(number, v :: above)]

/-- The deepest tree of pages that is read. -/
def maxDepth : Nat := 64

/-- The pages of a file in order, each with itself and the nodes above it. -/
def pages (f : PdfFile) : List (Nat × List PdfValue) :=
  match (f.get? f.trailer "Root").bind (·.get? "Pages") with
  | some (.reference number) => f.pagesBelow maxDepth [] number
  | _ => []

end PdfFile

end Docket.Media
