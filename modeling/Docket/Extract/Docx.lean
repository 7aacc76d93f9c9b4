import Docket.Extract.Tool
import Docket.Media.Xml
import Docket.Media.Zip

/-!
The text of word processor files: archives in which one file is the document, in XML.
-/

namespace Docket

namespace DocxText

def documentName : String := "word/document.xml"

/-- What has been collected, the last character first, and whether what stands between tags is text. -/
structure Collecting where
  read : List Char := []
  inText : Bool := false

/-- Take in a part of the document. A text with a reference that stands for nothing counts as empty. -/
def Collecting.add (c : Collecting) (part : Media.XmlPart) : Collecting :=
  match part with
  | .text written =>
    if c.inText then { c with read := ((Media.Xml.resolve? none written).getD []).reverse ++ c.read } else c
  | .opening name => if Media.Xml.localName name = ['t'] then { c with inText := true } else c
  | .empty name =>
    if Media.Xml.localName name = "tab".toList then { c with read := '\t' :: c.read }
    else if Media.Xml.localName name = "br".toList then { c with read := '\n' :: c.read }
    else c
  | .closing name =>
    if Media.Xml.localName name = ['t'] then { c with inText := false }
    else if Media.Xml.localName name = ['p'] then { c with read := '\n' :: c.read }
    else c
  | .aside => c

/-- The text of a document; `none` if it is no XML. -/
def ofXml? (document : String) : Option String :=
  (Media.Xml.read? document.toList).map fun parts =>
    String.ofList (parts.foldl Collecting.add {}).read.reverse

def ofBytes (bytes : ByteArray) : Except ExtractError String :=
  match Media.ZipArchive.open? bytes with
  | none => .error .archiveMalformed
  | some archive =>
    match archive.find? documentName with
    | none => .error .documentMissing
    | some entry =>
      match (archive.read? entry).bind String.fromUTF8? with
      | none => .error .documentUnreadable
      | some document =>
        match ofXml? document with
        | none => .error .markupMalformed
        | some text => .ok text

end DocxText

end Docket
