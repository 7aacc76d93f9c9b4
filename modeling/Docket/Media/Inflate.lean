import Docket.Media.Bytes
import Docket.Media.Checksum

/-!
Unpacking bytes that were packed by the deflate method: blocks that are stored as they are, and blocks
of literal bytes and references back, written in canonical prefix codes.
-/

namespace Docket.Media

/-- Bytes read bit by bit, from the lowest bit of each. -/
structure BitReader where
  bytes : ByteArray
  position : Nat := 0

namespace BitReader

def bit? (r : BitReader) : Option (Nat × BitReader) :=
  (r.bytes[r.position / 8]?).map fun b =>
    ((b.toNat >>> (r.position % 8)) % 2, { r with position := r.position + 1 })

/-- A number of some bits, the lowest first. -/
def bits? (r : BitReader) : (count : Nat) → Option (Nat × BitReader)
  | 0 => some (0, r)
  | count + 1 => do
    let (low, r) ← r.bit?
    let (high, r) ← r.bits? count
    return (low + 2 * high, r)

/-- Pass over what is left of the current byte. -/
def align (r : BitReader) : BitReader := { r with position := (r.position + 7) / 8 * 8 }

end BitReader

/-- A canonical prefix code: how many codes there are of each length from 1 on, and the symbols in
the order of their codes. -/
structure PrefixCode where
  counts : List Nat
  symbols : Array Nat

namespace PrefixCode

/-- The longest code, in bits. -/
def maxLength : Nat := 15

/-- How many codes of the next length are left if so many were left and some of them are used;
`none` if they are too few. -/
def remaining? : (left : Nat) → List Nat → Option Nat
  | left, [] => some left
  | left, count :: rest => if 2 * left < count then none else remaining? (2 * left - count) rest

/-- The code in which each symbol has a code of the given length, or none if the length is zero.
`none` if there are not so many codes. -/
def ofLengths? (lengths : List Nat) : Option PrefixCode := do
  let counts := (List.range maxLength).map fun n => lengths.count (n + 1)
  let _ ← remaining? 1 counts
  let numbered := lengths.zipIdx
  let symbols := (List.range maxLength).flatMap fun n =>
    (numbered.filter (·.1 = n + 1)).map (·.2)
  return ⟨counts, symbols.toArray⟩

/-- Read bits until they are a code. `code` are the bits so far, `first` is the first code of the
current length and `index` the place of its symbol. -/
def next? (symbols : Array Nat) (r : BitReader) (code first index : Nat) :
    (counts : List Nat) → Option (Nat × BitReader)
  | [] => none
  | count :: rest => do
    let (b, r) ← r.bit?
    let code := code + b
    if code < first + count then
      let symbol ← symbols[index + (code - first)]?
      return (symbol, r)
    else next? symbols r (2 * code) (2 * (first + count)) (index + count) rest

/-- The symbol of the next code. -/
def read? (c : PrefixCode) (r : BitReader) : Option (Nat × BitReader) :=
  next? c.symbols r 0 0 0 c.counts

end PrefixCode

/-- The shortest length that a symbol from 257 on stands for, and the number of bits that are added
to it. -/
def lengthTable : List (Nat × Nat) := [(3, 0), (4, 0), (5, 0), (6, 0), (7, 0), (8, 0), (9, 0), (10, 0),
  (11, 1), (13, 1), (15, 1), (17, 1), (19, 2), (23, 2), (27, 2), (31, 2), (35, 3), (43, 3), (51, 3),
  (59, 3), (67, 4), (83, 4), (99, 4), (115, 4), (131, 5), (163, 5), (195, 5), (227, 5), (258, 0)]

/-- The shortest distance that a symbol stands for, and the number of bits that are added to it. -/
def distanceTable : List (Nat × Nat) := [(1, 0), (2, 0), (3, 0), (4, 0), (5, 1), (7, 1), (9, 2), (13, 2),
  (17, 3), (25, 3), (33, 4), (49, 4), (65, 5), (97, 5), (129, 6), (193, 6), (257, 7), (385, 7),
  (513, 8), (769, 8), (1025, 9), (1537, 9), (2049, 10), (3073, 10), (4097, 11), (6145, 11),
  (8193, 12), (12289, 12), (16385, 13), (24577, 13)]

/-- A value from a table, with the bits that are added to it. -/
def tableValue? (table : List (Nat × Nat)) (symbol : Nat) (r : BitReader) : Option (Nat × BitReader) := do
  let (least, extra) ← table[symbol]?
  let (more, r) ← r.bits? extra
  return (least + more, r)

/-- Repeat bytes that stand a distance before the end; some of them may be written on the way. -/
def copyBack? (out : ByteArray) (distance : Nat) : (length : Nat) → Option ByteArray
  | 0 => some out
  | length + 1 =>
    if distance = 0 ∨ out.size < distance then none
    else match out[out.size - distance]? with
      | some b => copyBack? (out.push b) distance length
      | none => none

def endOfBlock : Nat := 256

/-- Unpack the symbols of a block, of which there are at most as many as there are bits. -/
def inflateSymbols (literals distances : PrefixCode) :
    (fuel : Nat) → BitReader → ByteArray → Option (BitReader × ByteArray)
  | 0, _, _ => none
  | fuel + 1, r, out => do
    let (symbol, r) ← literals.read? r
    if symbol < endOfBlock then inflateSymbols literals distances fuel r (out.push symbol.toUInt8)
    else if symbol = endOfBlock then return (r, out)
    else
      let (length, r) ← tableValue? lengthTable (symbol - 257) r
      let (d, r) ← distances.read? r
      let (distance, r) ← tableValue? distanceTable d r
      inflateSymbols literals distances fuel r (← copyBack? out distance length)

/-- The codes of blocks that do not bring their own. -/
def fixedCodes? : Option (PrefixCode × PrefixCode) := do
  let literals ← PrefixCode.ofLengths? (List.replicate 144 8 ++ List.replicate 112 9 ++
    List.replicate 24 7 ++ List.replicate 8 8)
  let distances ← PrefixCode.ofLengths? (List.replicate 30 5)
  return (literals, distances)

/-- The order in which a block gives the lengths of the code for lengths. -/
def lengthOrder : List Nat := [16, 17, 18, 0, 8, 7, 9, 6, 10, 5, 11, 4, 12, 3, 13, 2, 14, 1, 15]

def threeBits? (r : BitReader) : (count : Nat) → Option (List Nat × BitReader)
  | 0 => some ([], r)
  | count + 1 => do
    let (n, r) ← r.bits? 3
    let (rest, r) ← threeBits? r count
    return (n :: rest, r)

/-- Read lengths of codes, with the last first. A symbol from 16 on repeats a length. -/
def codeLengths? (code : PrefixCode) (wanted : Nat) :
    (fuel : Nat) → BitReader → List Nat → Option (List Nat × BitReader)
  | 0, _, _ => none
  | fuel + 1, r, read =>
    if wanted < read.length then none
    else if wanted = read.length then some (read.reverse, r)
    else do
      let (symbol, r) ← code.read? r
      match symbol with
      | 16 =>
        let last ← read.head?
        let (n, r) ← r.bits? 2
        codeLengths? code wanted fuel r (List.replicate (n + 3) last ++ read)
      | 17 =>
        let (n, r) ← r.bits? 3
        codeLengths? code wanted fuel r (List.replicate (n + 3) 0 ++ read)
      | 18 =>
        let (n, r) ← r.bits? 7
        codeLengths? code wanted fuel r (List.replicate (n + 11) 0 ++ read)
      | length => codeLengths? code wanted fuel r (length :: read)

/-- The codes that a block brings. -/
def ownCodes? (r : BitReader) : Option (PrefixCode × PrefixCode × BitReader) := do
  let (literalCount, r) ← r.bits? 5
  let (distanceCount, r) ← r.bits? 5
  let (lengthCount, r) ← r.bits? 4
  let (given, r) ← threeBits? r (lengthCount + 4)
  let ordered := (List.range 19).map fun n =>
    (((lengthOrder.zip given).find? (·.1 = n)).map (·.2)).getD 0
  let code ← PrefixCode.ofLengths? ordered
  let literalCount := literalCount + 257
  let wanted := literalCount + distanceCount + 1
  let (lengths, r) ← codeLengths? code wanted (wanted + 1) r []
  let literals ← PrefixCode.ofLengths? (lengths.take literalCount)
  let distances ← PrefixCode.ofLengths? (lengths.drop literalCount)
  return (literals, distances, r)

/-- Take over a block that is stored as it is. -/
def storedBlock? (r : BitReader) (out : ByteArray) : Option (BitReader × ByteArray) := do
  let r := r.align
  let start := r.position / 8
  let length ← littleEndian? r.bytes start 2
  let check ← littleEndian? r.bytes (start + 2) 2
  if length + check ≠ 0xffff then none
  else
    let content ← slice? r.bytes (start + 4) length
    return ({ r with position := 8 * (start + 4 + length) }, out ++ content)

/-- Unpack blocks up to the one that says it is the last. -/
def inflateBlocks (bitCount : Nat) : (fuel : Nat) → BitReader → ByteArray → Option (BitReader × ByteArray)
  | 0, _, _ => none
  | fuel + 1, r, out => do
    let (last, r) ← r.bits? 1
    let (kind, r) ← r.bits? 2
    let (r, out) ← match kind with
      | 0 => storedBlock? r out
      | 1 => do
        let (literals, distances) ← fixedCodes?
        inflateSymbols literals distances bitCount r out
      | 2 => do
        let (literals, distances, r) ← ownCodes? r
        inflateSymbols literals distances bitCount r out
      | _ => none
    if last = 1 then return (r, out) else inflateBlocks bitCount fuel r out

/-- Unpack bytes from a place on. Also the place behind them. -/
def inflate? (bytes : ByteArray) (start : Nat) : Option (ByteArray × Nat) :=
  let bitCount := 8 * bytes.size + 1
  (inflateBlocks bitCount bitCount ⟨bytes, 8 * start⟩ .empty).map fun (r, out) =>
    (out, (r.position + 7) / 8)

/-- Unpack bytes in a wrapper with a check sum. -/
def unwrapZlib? (bytes : ByteArray) : Option ByteArray := do
  let head ← bigEndian? bytes 0 2
  if head % 31 ≠ 0 ∨ (head / 256) % 16 ≠ 8 ∨ (head / 32) % 2 = 1 then none
  else
    let (out, behind) ← inflate? bytes 2
    let sum ← bigEndian? bytes behind 4
    if sum = (adler32 out).toNat then return out else none

/-- The longest block that can be stored. -/
def maxStored : Nat := 65535

def storedBlocks (bytes : ByteArray) (start : Nat) : (fuel : Nat) → ByteArray → ByteArray
  | 0, out => out
  | fuel + 1, out =>
    let length := min maxStored (bytes.size - start)
    let last := start + length = bytes.size
    let out := out.push (if last then 1 else 0) ++ littleEndian 2 length ++ littleEndian 2 (0xffff - length) ++
      bytes.extract start (start + length)
    if last then out else storedBlocks bytes (start + length) fuel out

/-- Bytes in a wrapper with a check sum, not packed. -/
def wrapZlib (bytes : ByteArray) : ByteArray :=
  storedBlocks bytes 0 (bytes.size / maxStored + 1) ⟨#[0x78, 0x01]⟩ ++ bigEndian 4 (adler32 bytes).toNat

end Docket.Media
