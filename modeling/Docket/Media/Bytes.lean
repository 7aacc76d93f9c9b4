/-!
Numbers of several bytes inside a sequence of bytes.
-/

namespace Docket.Media

/-- The number whose digits to the base 256 are given, the lowest first. -/
def ofBase256 : List UInt8 → Nat
  | [] => 0
  | b :: rest => b.toNat + 256 * ofBase256 rest

/-- The lowest digits of a number to the base 256, the lowest first. -/
def toBase256 : (count : Nat) → Nat → List UInt8
  | 0, _ => []
  | count + 1, n => (n % 256).toUInt8 :: toBase256 count (n / 256)

theorem ofBase256_toBase256 (count n : Nat) :
    ofBase256 (toBase256 count n) = n % Nat.pow 256 count := by
  induction count generalizing n with
  | zero => simp [toBase256, ofBase256, Nat.mod_one]
  | succ count ih =>
    have hpow : Nat.pow 256 (count + 1) = 256 * Nat.pow 256 count := Nat.mul_comm _ _
    rw [toBase256, ofBase256, ih, hpow, Nat.mod_mul]
    simp

/-- Some bytes from a place on; `none` if there are not so many. -/
def slice? (bytes : ByteArray) (start length : Nat) : Option ByteArray :=
  if start + length ≤ bytes.size then some (bytes.extract start (start + length)) else none

/-- A number of some bytes at a place, the lowest byte first. -/
def littleEndian? (bytes : ByteArray) (start count : Nat) : Option Nat :=
  (slice? bytes start count).map fun b => ofBase256 b.toList

/-- A number of some bytes at a place, the highest byte first. -/
def bigEndian? (bytes : ByteArray) (start count : Nat) : Option Nat :=
  (slice? bytes start count).map fun b => ofBase256 b.toList.reverse

/-- A number as bytes, the highest first. -/
def bigEndian (count n : Nat) : ByteArray := ⟨(toBase256 count n).reverse.toArray⟩

/-- A number as bytes, the lowest first. -/
def littleEndian (count n : Nat) : ByteArray := ⟨(toBase256 count n).toArray⟩

end Docket.Media
