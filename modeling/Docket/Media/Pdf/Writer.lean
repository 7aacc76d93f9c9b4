import Docket.Media.Pdf.Object

/-!
Writing PDF files that show texts.
-/

namespace Docket.Media.Pdf

def writeText (text : String) : String :=
  let marked (c : Char) : List Char := if c = '(' ∨ c = ')' ∨ c = '\\' then ['\\', c] else [c]
  "(" ++ String.ofList (text.toList.flatMap marked) ++ ")"

/-- The numbers of a page and of what it shows. The first three numbers are those of the catalogue, of
the pages and of the font. -/
def pageNumber (n : Nat) : Nat := 4 + 2 * n

/-- The values of a file with one page for each text. -/
def valuesOf (encoding : String) (texts : List String) : List String :=
  let kids := " ".intercalate ((List.range texts.length).map fun n => toString (pageNumber n) ++ " 0 R")
  let ofPage (text : String) (n : Nat) : List String :=
    let content := "BT /F1 12 Tf " ++ writeText text ++ " Tj ET"
    ["<< /Type /Page /Parent 2 0 R /Contents " ++ toString (pageNumber n + 1) ++ " 0 R >>",
      "<< /Length " ++ toString content.utf8ByteSize ++ " >>\nstream\n" ++ content ++ "\nendstream"]
  ["<< /Type /Catalog /Pages 2 0 R >>",
    "<< /Type /Pages /Kids [" ++ kids ++ "] /Count " ++ toString texts.length ++
      " /Resources << /Font << /F1 3 0 R >> >> >>",
    "<< /Type /Font /Subtype /Type1 /BaseFont /Courier /Encoding /" ++ encoding ++ " >>"] ++
  texts.zipIdx.flatMap fun (text, n) => ofPage text n

/-- Values under numbers from one on, behind what has been written; also the places of the values. -/
def writeValues (written : String) (number : Nat) : List String → String × List Nat
  | [] => (written, [])
  | v :: rest =>
    let next := written ++ toString number ++ " 0 obj\n" ++ v ++ "\nendobj\n"
    let (out, places) := writeValues next (number + 1) rest
    (out, written.utf8ByteSize :: places)

/-- A place with ten digits. -/
def tenDigits (place : Nat) : String :=
  let digits := (toString place).toList
  String.ofList (List.replicate (10 - digits.length) '0' ++ digits)

/-- A file with one page for each text. Texts beyond ASCII are written in UTF-8. -/
def ofTexts (texts : List String) : ByteArray :=
  let ascii := texts.all fun t => t.toList.all fun c => c.toNat < 128
  let values := valuesOf (if ascii then "WinAnsiEncoding" else "UTF8") texts
  let (written, places) := writeValues "%PDF-1.5\n" 1 values
  let count := toString (values.length + 1)
  (String.join [written, "xref\n0 ", count, "\n0000000000 65535 f \n",
    String.join (places.map fun p => tenDigits p ++ " 00000 n \n"),
    "trailer\n<< /Size ", count, " /Root 1 0 R >>\nstartxref\n", toString written.utf8ByteSize,
    "\n%%EOF\n"]).toUTF8

end Docket.Media.Pdf
