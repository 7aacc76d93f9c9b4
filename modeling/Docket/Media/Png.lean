import Docket.Media.Inflate
import Docket.Media.Raster

/-!
Pictures in PNG files: pieces with check sums, of which some hold the packed rows of dots.
-/

namespace Docket.Media

namespace Png

/-- The bytes that a file starts with. -/
def signature : ByteArray := ⟨#[0x89, 0x50, 0x4e, 0x47, 0x0d, 0x0a, 0x1a, 0x0a]⟩

/-- Why a picture cannot be read. -/
inductive Fault where
  /-- The file ends too early. -/
  | truncated
  | malformed
deriving DecidableEq, Repr

def bytesAt (bytes : ByteArray) (place length : Nat) : Except Fault ByteArray :=
  match slice? bytes place length with
  | some b => .ok b
  | none => .error .truncated

def wordAt (bytes : ByteArray) (place : Nat) : Except Fault Nat :=
  (bytesAt bytes place 4).map fun b => ofBase256 b.toList.reverse

/-- Whether a file starts as it has to. Each half of the first bytes is looked at on its own. -/
def checkSignature (bytes : ByteArray) : Except Fault Unit := do
  let first ← bytesAt bytes 0 4
  if first.toList ≠ (signature.extract 0 4).toList then throw .malformed
  let second ← bytesAt bytes 4 4
  if second.toList ≠ (signature.extract 4 8).toList then throw .malformed

/-- A piece of a file. -/
structure Chunk where
  kind : String
  content : ByteArray

/-- The piece at a place, and the place behind it. -/
def chunkAt (bytes : ByteArray) (place : Nat) : Except Fault (Chunk × Nat) := do
  let length ← wordAt bytes place
  let kind ← bytesAt bytes (place + 4) 4
  let content ← bytesAt bytes (place + 8) length
  let sum ← wordAt bytes (place + 8 + length)
  if (crc32 (kind ++ content)).toNat = sum then
    return (⟨String.ofList (kind.toList.map fun b => Char.ofNat b.toNat), content⟩, place + 12 + length)
  else throw .malformed

/-- The pieces from a place on, up to the one that ends the file. -/
def chunksFrom (bytes : ByteArray) : (fuel place : Nat) → Except Fault (List Chunk)
  | 0, _ => throw .truncated
  | fuel + 1, place => do
    let (chunk, behind) ← chunkAt bytes place
    if chunk.kind = "IEND" then return []
    else return chunk :: (← chunksFrom bytes fuel behind)

/-- How the dots of a file are written. -/
structure Header where
  width : Nat
  height : Nat
  depth : Nat
  colour : Nat
  interlaced : Bool

/-- How many samples a dot has, for each kind of colour that there is, and their depths. -/
def samplesOf? (colour depth : Nat) : Option Nat :=
  match colour with
  | 0 => if [1, 2, 4, 8, 16].contains depth then some 1 else none
  | 2 => if [8, 16].contains depth then some 3 else none
  | 3 => if [1, 2, 4, 8].contains depth then some 1 else none
  | 4 => if [8, 16].contains depth then some 2 else none
  | 6 => if [8, 16].contains depth then some 4 else none
  | _ => none

/-- The header in the first piece. -/
def header? (chunk : Chunk) : Option Header := do
  let width ← bigEndian? chunk.content 0 4
  let height ← bigEndian? chunk.content 4 4
  let depth ← bigEndian? chunk.content 8 1
  let colour ← bigEndian? chunk.content 9 1
  let method ← bigEndian? chunk.content 10 1
  let filter ← bigEndian? chunk.content 11 1
  let interlace ← bigEndian? chunk.content 12 1
  let _ ← samplesOf? colour depth
  if chunk.kind = "IHDR" ∧ chunk.content.size = 13 ∧ 0 < width ∧ 0 < height ∧ method = 0 ∧ filter = 0 ∧
      interlace ≤ 1 then
    return ⟨width, height, depth, colour, interlace = 1⟩
  else none

/-- Which of three neighbours is nearest to left plus up minus the one between them. -/
def nearest (left up corner : Nat) : Nat :=
  let toLeft := if corner ≤ up then up - corner else corner - up
  let toUp := if corner ≤ left then left - corner else corner - left
  let sum := left + up
  let toCorner := if 2 * corner ≤ sum then sum - 2 * corner else 2 * corner - sum
  if toLeft ≤ toUp ∧ toLeft ≤ toCorner then left else if toUp ≤ toCorner then up else corner

/-- What a byte is told relative to, by the kind of filter of its row; `none` if there is no such kind. -/
def predicted? (filter left up corner : Nat) : Option Nat :=
  match filter with
  | 0 => some 0
  | 1 => some left
  | 2 => some up
  | 3 => some ((left + up) / 2)
  | 4 => some (nearest left up corner)
  | _ => none

/-- Rows without their filters. The bytes of the rows are written one after the other; `start` is
where the first of them starts, and `step` is the distance between the bytes of neighbouring dots. -/
def unfilter? (packed : ByteArray) (rowSize step start : Nat) : (rows : Nat) → (place : Nat) →
    ByteArray → Option ByteArray
  | 0, _, out => some out
  | rows + 1, place, out => do
    let filter ← packed[place]?
    if packed.size < place + 1 + rowSize then none
    else
      let row := out.size
      let out ← (List.range rowSize).foldlM (fun (out : ByteArray) i => do
        let left := if step ≤ i then ((out[row + i - step]?).getD 0).toNat else 0
        let up := if start + rowSize ≤ row then ((out[row + i - rowSize]?).getD 0).toNat else 0
        let corner := if start + rowSize ≤ row ∧ step ≤ i then
          ((out[row + i - rowSize - step]?).getD 0).toNat else 0
        let base ← predicted? filter.toNat left up corner
        return out.push (((packed[place + 1 + i]?).getD 0).toNat + base).toUInt8) out
      unfilter? packed rowSize step start rows (place + 1 + rowSize) out

/-- A part of a picture whose dots are written together: the dots from a first column and row on, in
steps. -/
structure Pass where
  firstX : Nat
  firstY : Nat
  stepX : Nat
  stepY : Nat

/-- The parts in which an interlaced picture is written. -/
def passes : List Pass :=
  [⟨0, 0, 8, 8⟩, ⟨4, 0, 8, 8⟩, ⟨0, 4, 4, 8⟩, ⟨2, 0, 4, 4⟩, ⟨0, 2, 2, 4⟩, ⟨1, 0, 2, 2⟩, ⟨0, 1, 1, 2⟩]

def Pass.extent (p : Pass) (h : Header) : Nat × Nat :=
  ((h.width + p.stepX - 1 - p.firstX) / p.stepX, (h.height + p.stepY - 1 - p.firstY) / p.stepY)

/-- A part whose rows have been read: they start at a place in the bytes. -/
structure ReadPass where
  pass : Pass
  start : Nat
  rowSize : Nat

/-- The rows of all parts of a picture, without their filters. -/
def readPasses? (h : Header) (samples : Nat) (packed : ByteArray) :
    List Pass → (place : Nat) → ByteArray → Option (List ReadPass × ByteArray)
  | [], _, out => some ([], out)
  | p :: rest, place, out => do
    let (across, down) := p.extent h
    let bits := samples * h.depth
    let rowSize := (across * bits + 7) / 8
    let down := if across = 0 then 0 else down
    let start := out.size
    let out ← unfilter? packed rowSize (max 1 (bits / 8)) start down place out
    let (reads, out) ← readPasses? h samples packed rest (place + down * (rowSize + 1)) out
    return (⟨p, start, rowSize⟩ :: reads, out)

/-- A sample of a row. Of two bytes only the first counts. -/
def sampleAt (rows : ByteArray) (rowStart depth index : Nat) : Nat :=
  if depth = 16 then ((rows[rowStart + 2 * index]?).getD 0).toNat
  else if depth = 8 then ((rows[rowStart + index]?).getD 0).toNat
  else
    let bit := index * depth
    (((rows[rowStart + bit / 8]?).getD 0).toNat >>> (8 - depth - bit % 8)) % Nat.pow 2 depth

/-- A sample as a byte, whatever its depth is. -/
def toByte (depth sample : Nat) : UInt8 :=
  if 8 ≤ depth then sample.toUInt8 else (sample * 255 / (Nat.pow 2 depth - 1)).toUInt8

/-- A dot from its samples. A sample of a palette is the number of a colour. -/
def dotOf (h : Header) (palette opacity : ByteArray) (sample : Nat → Nat) : List UInt8 :=
  match h.colour with
  | 0 =>
    let b := toByte h.depth (sample 0)
    [b, b, b, 255]
  | 2 => [toByte 8 (sample 0), toByte 8 (sample 1), toByte 8 (sample 2), 255]
  | 3 =>
    let n := sample 0
    let part (c : Nat) := (palette[3 * n + c]?).getD 0
    [part 0, part 1, part 2, (opacity[n]?).getD 255]
  | 4 =>
    let b := toByte 8 (sample 0)
    [b, b, b, toByte 8 (sample 1)]
  | _ => (List.range 4).map fun c => toByte 8 (sample c)

/-- The dot at a place of a picture whose rows have been read. -/
def dotAt (h : Header) (samples : Nat) (palette opacity rows : ByteArray) (reads : List ReadPass)
    (x y : Nat) : List UInt8 :=
  match reads.find? fun r => r.pass.firstX ≤ x && (x - r.pass.firstX) % r.pass.stepX = 0 &&
      r.pass.firstY ≤ y && (y - r.pass.firstY) % r.pass.stepY = 0 with
  | none => [0, 0, 0, 0]
  | some r =>
    let column := (x - r.pass.firstX) / r.pass.stepX
    let rowStart := r.start + (y - r.pass.firstY) / r.pass.stepY * r.rowSize
    dotOf h palette opacity fun c => sampleAt rows rowStart h.depth (column * samples + c)

def ofChunks? (chunks : List Chunk) : Option Raster := do
  let h ← header? (← chunks.head?)
  let samples ← samplesOf? h.colour h.depth
  let contentOf (kind : String) := ((chunks.find? (·.kind = kind)).map (·.content)).getD .empty
  if h.colour = 3 ∧ !chunks.any (·.kind = "PLTE") then none
  else
    let packed := (chunks.filter (·.kind = "IDAT")).foldl (fun out c => out ++ c.content) ByteArray.empty
    let plain ← unwrapZlib? packed
    let (reads, rows) ← readPasses? h samples plain (if h.interlaced then passes else [⟨0, 0, 1, 1⟩]) 0 .empty
    return .ofFn h.width h.height (dotAt h samples (contentOf "PLTE") (contentOf "tRNS") rows reads)

def read (bytes : ByteArray) : Except Fault Raster := do
  checkSignature bytes
  match ofChunks? (← chunksFrom bytes bytes.size signature.size) with
  | some picture => return picture
  | none => throw .malformed

def writeChunk (kind : String) (content : ByteArray) : ByteArray :=
  let named := kind.toUTF8 ++ content
  bigEndian 4 content.size ++ named ++ bigEndian 4 (crc32 named).toNat

/-- The rows of a picture, none of them filtered. -/
def rowsOf (r : Raster) : ByteArray :=
  (List.range r.height).foldl (fun out y =>
    out.push 0 ++ r.dots.extract (4 * r.width * y) (4 * r.width * (y + 1))) .empty

def write (r : Raster) : ByteArray :=
  signature ++
  writeChunk "IHDR" (bigEndian 4 r.width ++ bigEndian 4 r.height ++ ⟨#[8, 6, 0, 0, 0]⟩) ++
  writeChunk "IDAT" (wrapZlib (rowsOf r)) ++
  writeChunk "IEND" .empty

end Png

end Docket.Media
