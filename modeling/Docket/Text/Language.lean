/-!
The language of a text, where its script tells it.

Each letter is counted for its script, and the script with most letters decides.  Scripts that
several languages share decide nothing.
-/

namespace Docket.Text

/-- Scripts that are told apart. -/
inductive WritingSystem where
  | latin | cyrillic | arabic | han | devanagari | hebrew | ethiopic | georgian | bengali | hangul
  | hiragana | katakana | greek | kannada | tamil | thai | gujarati | gurmukhi | telugu | malayalam
  | oriya | myanmar | sinhala | khmer | armenian
deriving DecidableEq, Repr

namespace WritingSystem

/-- All scripts, in the order in which a tie is decided. -/
def all : List WritingSystem :=
  [.latin, .cyrillic, .arabic, .han, .devanagari, .hebrew, .ethiopic, .georgian, .bengali, .hangul,
   .hiragana, .katakana, .greek, .kannada, .tamil, .thai, .gujarati, .gurmukhi, .telugu, .malayalam,
   .oriya, .myanmar, .sinhala, .khmer, .armenian]

/-- The code points that count for a script. -/
def ranges : WritingSystem → List (Nat × Nat)
  | .latin => [(0x41, 0x5A), (0x61, 0x7A), (0x80, 0x24F), (0x250, 0x2AF), (0x1D00, 0x1D2A),
      (0x1D2C, 0x1D77), (0x1D79, 0x1DBF), (0x1E00, 0x1EFF), (0x2100, 0x214F), (0x2C60, 0x2C7F),
      (0xA720, 0xA7FF), (0xAB30, 0xAB6F)]
  | .cyrillic => [(0x400, 0x484), (0x487, 0x52F), (0x1D2B, 0x1D2B), (0x1D78, 0x1D78),
      (0x2DE0, 0x2DFF), (0xA640, 0xA69D), (0xA69F, 0xA69F)]
  | .arabic => [(0x600, 0x6FF), (0x750, 0x7FF), (0x8A0, 0x8FF), (0xFB50, 0xFDFF), (0xFE70, 0xFEFF),
      (0x10E60, 0x10E7F), (0x1EE00, 0x1EEFF)]
  | .han => [(0x2E80, 0x2E99), (0x2E9B, 0x2EF3), (0x2F00, 0x2FD5), (0x3005, 0x3005),
      (0x3007, 0x3007), (0x3021, 0x3029), (0x3038, 0x303B), (0x3400, 0x4DB5), (0x4E00, 0x9FCC),
      (0xF900, 0xFA6D), (0xFA70, 0xFAD9)]
  | .devanagari => [(0x900, 0x97F), (0xA8E0, 0xA8FF), (0x1CD0, 0x1CFF)]
  | .hebrew => [(0x590, 0x5FF)]
  | .ethiopic => [(0x1200, 0x139F), (0x2D80, 0x2DDF), (0xAB00, 0xAB2F)]
  | .georgian => [(0x10A0, 0x10FF)]
  | .bengali => [(0x980, 0x9FF)]
  | .hangul => [(0x1100, 0x11FF), (0x3130, 0x318F), (0x3200, 0x32FF), (0xA960, 0xA97F),
      (0xAC00, 0xD7FF), (0xFF00, 0xFFEF)]
  | .hiragana => [(0x3040, 0x309F)]
  | .katakana => [(0x30A0, 0x30FF)]
  | .greek => [(0x370, 0x3FF)]
  | .kannada => [(0xC80, 0xCFF)]
  | .tamil => [(0xB80, 0xBFF)]
  | .thai => [(0xE00, 0xE7F)]
  | .gujarati => [(0xA80, 0xAFF)]
  | .gurmukhi => [(0xA00, 0xA7F)]
  | .telugu => [(0xC00, 0xC7F)]
  | .malayalam => [(0xD00, 0xD7F)]
  | .oriya => [(0xB00, 0xB7F)]
  | .myanmar => [(0x1000, 0x109F)]
  | .sinhala => [(0xD80, 0xDFF)]
  | .khmer => [(0x1780, 0x17FF), (0x19E0, 0x19FF)]
  | .armenian => [(0x530, 0x58F)]

def has (w : WritingSystem) (c : Char) : Bool :=
  w.ranges.any fun r => r.1 ≤ c.toNat && c.toNat ≤ r.2

/-- The language that a script is used for, where there is one such language. -/
def language? : WritingSystem → Option String
  | .bengali => some "ben"
  | .hangul => some "kor"
  | .hiragana | .katakana => some "jpn"
  | .greek => some "ell"
  | .kannada => some "kan"
  | .tamil => some "tam"
  | .thai => some "tha"
  | .gujarati => some "guj"
  | .gurmukhi => some "pan"
  | .telugu => some "tel"
  | .malayalam => some "mal"
  | .oriya => some "ori"
  | .myanmar => some "mya"
  | .sinhala => some "sin"
  | .khmer => some "khm"
  | .ethiopic => some "amh"
  | .georgian => some "kat"
  | .armenian => some "hye"
  | .han => some "cmn"
  | .latin | .cyrillic | .arabic | .devanagari | .hebrew => none

end WritingSystem

def countOf (w : WritingSystem) (s : List Char) : Nat := s.countP w.has

/-- The script with most characters, unless there are none. -/
def mainScript? (s : List Char) : Option WritingSystem :=
  let best := WritingSystem.all.foldl (fun best w =>
    let n := countOf w s
    match best with
    | some (_, m) => if m < n then some (w, n) else best
    | none => if 0 < n then some (w, n) else none) none
  best.map (·.1)

/-- The code of the language of a text, and whether the finding is reliable. Chinese and Japanese
share characters: a text with more than a fifth of kana is Japanese, and one with few kana may be
either. -/
def languageOf? (text : String) : Option (String × Bool) := do
  let s := text.toList
  let script ← mainScript? s
  if script = .han then
    let kana := countOf .hiragana s + countOf .katakana s
    let total := countOf .han s + kana
    if total < 5 * kana then some ("jpn", true)
    else if total < 20 * kana then some ("jpn", false)
    else if total < 50 * kana then some ("cmn", false)
    else some ("cmn", true)
  else (script.language?).map (·, true)

end Docket.Text
