/-!
The two check sums that compressed files carry.
-/

namespace Docket.Media

/-- The remainder of one byte, as one step of division by the generator. -/
def crcShift (n : UInt32) : UInt32 := if n &&& 1 = 1 then (n >>> 1) ^^^ 0xedb88320 else n >>> 1

/-- The remainders of all bytes. -/
def crcTable : Array UInt32 :=
  ((List.range 256).map fun n => (List.range 8).foldl (fun c _ => crcShift c) n.toUInt32).toArray

/-- The cyclic redundancy check of bytes, with 32 bits. -/
def crc32 (bytes : ByteArray) : UInt32 :=
  (bytes.foldl (fun c b => crcTable.getD ((c ^^^ b.toUInt32) &&& 0xff).toNat 0 ^^^ (c >>> 8)) 0xffffffff)
    ^^^ 0xffffffff

def adlerModulus : UInt32 := 65521

/-- The sum of bytes, and the sum of the sums on the way, in one word. -/
def adler32 (bytes : ByteArray) : UInt32 :=
  let (a, b) := bytes.foldl (fun (a, b) x =>
    let a := (a + x.toUInt32) % adlerModulus
    (a, (b + a) % adlerModulus)) ((1 : UInt32), (0 : UInt32))
  (b <<< 16) ||| a

end Docket.Media
