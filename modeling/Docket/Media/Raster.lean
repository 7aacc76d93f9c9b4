/-!
Pictures as rows of dots, and making them smaller.
-/

namespace Docket.Media

/-- A picture. Each dot has four bytes: red, green, blue and how opaque it is. -/
structure Raster where
  width : Nat
  height : Nat
  dots : ByteArray

namespace Raster

/-- How bright a dot is. The eye counts green most. -/
def brightness (red green blue : Nat) : Nat := (2126 * red + 7152 * green + 722 * blue) / 10000

/-- One byte of a dot; zero outside of the picture. -/
def channel (r : Raster) (x y c : Nat) : Nat := ((r.dots[4 * (y * r.width + x) + c]?).getD 0).toNat

/-- A picture whose dots are given by their place. -/
def ofFn (width height : Nat) (dot : Nat → Nat → List UInt8) : Raster where
  width := width
  height := height
  dots := (List.range height).foldl (fun out y =>
    (List.range width).foldl (fun out x => (dot x y).foldl ByteArray.push out) out) .empty

def toGray (r : Raster) : Raster :=
  ofFn r.width r.height fun x y =>
    let b := (brightness (r.channel x y 0) (r.channel x y 1) (r.channel x y 2)).toUInt8
    [b, b, b, (r.channel x y 3).toUInt8]

/-- A length that is scaled with the width of a picture, rounded to a whole number of dots. -/
def scaledLength (length width newWidth : Nat) : Nat :=
  max 1 (Float.round (length.toFloat * (newWidth.toFloat / width.toFloat))).toUInt64.toNat

/-- The mean of one byte over a part of a picture. -/
def mean (r : Raster) (x0 x1 y0 y1 c : Nat) : UInt8 :=
  let sum := (List.range (y1 - y0)).foldl (fun s j =>
    (List.range (x1 - x0)).foldl (fun s i => s + r.channel (x0 + i) (y0 + j) c) s) 0
  (sum / ((x1 - x0) * (y1 - y0))).toUInt8

/-- A smaller picture; each of its dots is the mean of a part of the picture. -/
def shrink (r : Raster) (width height : Nat) : Raster :=
  ofFn width height fun x y =>
    let x0 := x * r.width / width
    let y0 := y * r.height / height
    let x1 := max (x0 + 1) ((x + 1) * r.width / width)
    let y1 := max (y0 + 1) ((y + 1) * r.height / height)
    (List.range 4).map (r.mean x0 x1 y0 y1)

/-- A picture that is at most so wide, in the same proportions. -/
def fitWidth (r : Raster) (width : Nat) : Raster :=
  if r.width ≤ width then r
  else r.shrink (scaledLength r.width r.width width) (scaledLength r.height r.width width)

end Raster

end Docket.Media
