/-!
Reading bytes as UTF-8 where they need not be.  Each longest start of an encoded character that
breaks off, and each byte that starts none, counts as one replacement character.
-/

namespace Docket.Text

/-- What stands for bytes that are no character. -/
def replacementChar : Char := '\ufffd'

/-- The six bits that a byte adds to a character; `none` if it can only start one. -/
def continuation? (b : UInt8) : Option Nat :=
  if 0x80 ≤ b && b ≤ 0xbf then some (b.toNat - 0x80) else none

/-- The lowest and the highest second byte of a character, and how many bytes follow that one. -/
def secondByteOf? (b : UInt8) : Option (UInt8 × UInt8 × Nat) :=
  if 0xc2 ≤ b && b ≤ 0xdf then some (0x80, 0xbf, 0)
  else if b = 0xe0 then some (0xa0, 0xbf, 1)
  else if b = 0xed then some (0x80, 0x9f, 1)
  else if 0xe1 ≤ b && b ≤ 0xef then some (0x80, 0xbf, 1)
  else if b = 0xf0 then some (0x90, 0xbf, 2)
  else if 0xf1 ≤ b && b ≤ 0xf3 then some (0x80, 0xbf, 2)
  else if b = 0xf4 then some (0x80, 0x8f, 2)
  else none

/-- The bits of a character in a first byte that so many bytes follow. -/
def leadBits (b : UInt8) (following : Nat) : Nat := b.toNat % Nat.pow 2 (6 - following)

/-- Add the bits of a number of bytes. The second part counts the bytes that could be used; the
first is `none` if they were too few. -/
def takeContinuations (value : Nat) : Nat → List UInt8 → Option Nat × Nat
  | 0, _ => (some value, 0)
  | _ + 1, [] => (none, 0)
  | n + 1, b :: rest =>
    match continuation? b with
    | none => (none, 0)
    | some bits =>
      let (result, used) := takeContinuations (value * 64 + bits) n rest
      (result, used + 1)

/-- The character that starts with a byte, and how many of the bytes behind it belong to it. -/
def firstUtf8 (b : UInt8) (rest : List UInt8) : Char × Nat :=
  if b < 0x80 then (Char.ofNat b.toNat, 0)
  else match secondByteOf? b, rest with
    | some (low, high, more), second :: rest =>
      if low ≤ second && second ≤ high then
        let value := leadBits b (more + 1) * 64 + (second.toNat - 0x80)
        match takeContinuations value more rest with
        | (some value, used) => (Char.ofNat value, used + 1)
        | (none, used) => (replacementChar, used + 1)
      else (replacementChar, 0)
    | _, _ => (replacementChar, 0)

/-- The characters of bytes, behind those that have been read. -/
def decodeUtf8 (read : List Char) : List UInt8 → List Char
  | [] => read.reverse
  | b :: rest =>
    let (c, used) := firstUtf8 b rest
    decodeUtf8 (c :: read) (rest.drop used)
termination_by bytes => bytes.length
decreasing_by
  rw [List.length_drop, List.length_cons]
  omega

def ofUtf8Lossy (bytes : ByteArray) : String := String.ofList (decodeUtf8 [] bytes.toList)

end Docket.Text
