/-!
Reading numbers that count something.
-/

namespace Docket.Text

/-- The largest number that is read. -/
def maxCount : Nat := Nat.pow 2 64 - 1

/-- The number that decimal digits spell, with or without a plus sign. -/
def readCount? (s : List Char) : Option Nat :=
  let digits := match s with
    | '+' :: rest => rest
    | s => s
  if digits.isEmpty || !digits.all Char.isDigit then none
  else
    let n := digits.foldl (fun n c => n * 10 + (c.toNat - '0'.toNat)) 0
    if n ≤ maxCount then some n else none

end Docket.Text
