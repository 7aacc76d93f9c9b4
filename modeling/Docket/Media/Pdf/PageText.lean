import Docket.Media.Pdf.File
import Docket.Text.Utf8

/-!
The text that the pages of a PDF file show.
-/

namespace Docket.Media

/-- How the bytes of a font are read. -/
inductive PdfEncoding where
  /-- A table of characters. -/
  | table (char? : Nat → Option Char)
  /-- Glyph numbers of the font itself. -/
  | glyphs
  | utf8

namespace PdfEncoding

/-- What stands for text that cannot be read. -/
def glyphMarker : String := "?Identity-H Unimplemented?"

/-- The characters from 0x80 to 0x9f in the encoding that Windows uses for western languages. -/
def windowsUpper : List Nat := [0x20ac, 0, 0x201a, 0x0192, 0x201e, 0x2026, 0x2020, 0x2021, 0x02c6, 0x2030,
  0x0160, 0x2039, 0x0152, 0, 0x017d, 0, 0, 0x2018, 0x2019, 0x201c, 0x201d, 0x2022, 0x2013, 0x2014, 0x02dc,
  0x2122, 0x0161, 0x203a, 0x0153, 0, 0x017e, 0x0178]

/-- The encoding that Windows uses for western languages. -/
def windows (b : Nat) : Option Char :=
  if b < 0x20 ∨ b = 0x7f then none
  else if 0x80 ≤ b ∧ b < 0xa0 then
    (windowsUpper[b - 0x80]?).bind fun c => if c = 0 then none else some (Char.ofNat c)
  else some (Char.ofNat b)

/-- The characters from 0xa1 on in the encoding that fonts have by default; zero for none. -/
def standardUpper : List Nat := [0xa1, 0xa2, 0xa3, 0x2044, 0xa5, 0x192, 0xa7, 0xa4, 0x27, 0x201c, 0xab,
  0x2039, 0x203a, 0xfb01, 0xfb02, 0, 0x2013, 0x2020, 0x2021, 0xb7, 0, 0xb6, 0x2022, 0x201a, 0x201e,
  0x201d, 0xbb, 0x2026, 0x2030, 0, 0xbf, 0, 0x60, 0xb4, 0x2c6, 0x2dc, 0xaf, 0x2d8, 0x2d9, 0xa8, 0, 0x2da,
  0xb8, 0, 0x2dd, 0x2db, 0x2c7, 0x2014, 0, 0, 0, 0, 0, 0, 0, 0, 0, 0, 0, 0, 0, 0, 0, 0, 0xc6, 0, 0xaa, 0,
  0, 0, 0, 0x141, 0xd8, 0x152, 0xba, 0, 0, 0, 0, 0, 0xe6, 0, 0, 0, 0x131, 0, 0, 0x142, 0xf8, 0x153, 0xdf]

/-- The encoding that fonts have by default. -/
def standard (b : Nat) : Option Char :=
  if b < 0x20 ∨ b = 0x7f then none
  else if b = 0x27 then some '\u2019'
  else if b = 0x60 then some '\u2018'
  else if b < 0x80 then some (Char.ofNat b)
  else if b < 0xa1 then none
  else (standardUpper[b - 0xa1]?).bind fun c => if c = 0 then none else some (Char.ofNat c)

def ofName (name : List Char) : PdfEncoding :=
  if name = "StandardEncoding".toList then .table standard
  else if name = "WinAnsiEncoding".toList then .table windows
  else if name = "Identity-H".toList then .glyphs
  else .utf8

def decode (e : PdfEncoding) (bytes : List Char) : List Char :=
  match e with
  | .table char? => bytes.filterMap fun b => char? b.toNat
  | .glyphs => glyphMarker.toList
  | .utf8 => Text.decodeUtf8 [] (bytes.map fun b => b.toNat.toUInt8)

end PdfEncoding

namespace PdfFile

def encodingOf (f : PdfFile) (font : PdfValue) : PdfEncoding :=
  match f.get? font "Encoding" with
  | none => .table PdfEncoding.standard
  | some (.name n) => .ofName n
  | some d =>
    match f.get? d "BaseEncoding" with
    | some (.name n) => .ofName n
    | _ => .table PdfEncoding.standard

/-- The font with a name, on a page or on a node above it. -/
def font? (f : PdfFile) (nodes : List PdfValue) (name : List Char) : Option PdfValue :=
  nodes.findSome? fun node => do
    let fonts ← f.get? (← f.get? node "Resources") "Font"
    f.resolve? (← fonts.get? (String.ofList name))

/-- A number below which a gap between two texts counts as a space. -/
def widestGap : Int := -100

/-- The text that an operand shows. Behind a list of texts stands a space. -/
def shown (e : PdfEncoding) : PdfValue → List Char
  | .text bytes => e.decode bytes
  | .integer n => if n < widestGap then [' '] else []
  | .array items => (items.attach.flatMap fun ⟨v, _⟩ => shown e v) ++ [' ']
  | _ => []

/-- What has been shown on a page so far, its last character first, and the font in use. -/
structure Showing where
  shown : List Char := []
  font : Option PdfEncoding := none

/-- Carry out an operator with its operands, the last first. -/
def Showing.operate (s : Showing) (fontOf : List Char → Option PdfEncoding) (operator : String)
    (operands : List PdfValue) : Option Showing :=
  match operator with
  | "Tf" =>
    match operands.getLast? with
    | some (.name n) => some { s with font := fontOf n }
    | _ => none
  | "Tj" | "TJ" =>
    match s.font with
    | none => some s
    | some e => some { s with shown := (operands.reverse.flatMap (PdfFile.shown e)).reverse ++ s.shown }
  | "ET" => some (if s.shown.head? = some '\n' then s else { s with shown := '\n' :: s.shown })
  | _ => some s

/-- Carry out the operators that bytes tell; operands stand before their operator. -/
def operateAll (fontOf : List Char → Option PdfEncoding) :
    (fuel : Nat) → (operands : List PdfValue) → Showing → List Char → Option Showing
  | 0, _, s, _ => some s
  | fuel + 1, operands, s, written =>
    match Pdf.next? written with
    | none => if (Pdf.skipSpace false written).isEmpty then some s else none
    | some (.value v, rest) => operateAll fontOf fuel (v :: operands) s rest
    | some (.word w, rest) => do
      let s ← s.operate fontOf (String.ofList w) operands
      operateAll fontOf fuel [] s rest

/-- The bytes that tell what is shown on a page. -/
def pageContent (f : PdfFile) (page : PdfValue) : List Char :=
  let part (v : PdfValue) : List Char :=
    match v with
    | .reference n => ((f.object? n).bind f.content?).getD []
    | _ => []
  match page.get? "Contents" with
  | some (.reference n) =>
    match f.resolve? (.reference n) with
    | some (.array parts) => parts.flatMap fun v => part v ++ ['\n']
    | _ => part (.reference n)
  | some (.array parts) => parts.flatMap fun v => part v ++ ['\n']
  | _ => []

/-- The text of a page; `none` if what is shown on it cannot be read. -/
def pageText? (f : PdfFile) (page : Nat × List PdfValue) : Option String := do
  let v ← page.2.head?
  let content := f.pageContent v
  let s ← operateAll (fun name => (f.font? page.2 name).map f.encodingOf) (content.length + 1) [] {} content
  return String.ofList s.shown.reverse

end PdfFile

/-- What is read from a PDF file: how many pages it has, and the texts of those that can be read. -/
structure PdfReading where
  pageCount : Nat
  texts : List String
deriving DecidableEq, Repr

/-- Read a PDF file; `none` if it is none. -/
def readPdf? (bytes : ByteArray) : Option PdfReading :=
  (Pdf.open? bytes).map fun f => ⟨f.pages.length, f.pages.filterMap f.pageText?⟩

end Docket.Media
