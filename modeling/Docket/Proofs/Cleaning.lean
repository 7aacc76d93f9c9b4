import Docket.Text.Clean
import Mathlib.Data.List.Basic

/-!
Samples of text.  The cleaner reads a text once and stops as soon as it has written
enough.  What it has written by then is the start of what one gets by dropping all
that is neither letter nor white space, splitting the rest at white space and joining
the pieces that are not empty by single blanks.
-/

namespace Docket.Text

open Docket.Unicode (isWhitespace isAlphabetic)

/-! ### The cleaner without a limit -/

/-- The cleaner as it would go on if there were always room. -/
def cleanOn (started pending : Bool) : List Char → List Char
  | [] => []
  | c :: rest =>
    if isWhitespace c then cleanOn started started rest
    else if !isAlphabetic c then cleanOn started pending rest
    else if pending then ' ' :: c :: cleanOn true false rest
    else c :: cleanOn true false rest

/-- The limit cuts off what comes too late, and changes nothing before. -/
theorem cleanFrom_eq_take (started pending : Bool) (room : Nat) (s : List Char) :
    cleanFrom started pending room s = (cleanOn started pending s).take room := by
  fun_induction cleanFrom started pending room s with
  | case1 => simp
  | case2 => simp [cleanOn]
  | case3 started pending room c rest hblank ih => simp [cleanOn, hblank, ih]
  | case4 started pending room c rest hblank hletter ih => simp_all [cleanOn]
  | case5 started c rest hblank hletter => simp_all [cleanOn]
  | case6 started c rest hblank hletter room ih => simp_all [cleanOn]
  | case7 started pending room c rest hblank hletter hnone ih => simp_all [cleanOn]

/-! ### Pieces between white space -/

/-- The pieces of a text between white space, those of no characters included. What is neither
letter nor white space is left out. -/
def pieces (s : List Char) : List (List Char) :=
  (s.filter fun c => isAlphabetic c || isWhitespace c).splitOnP isWhitespace

variable {c : Char} {s first : List Char} {others : List (List Char)}

@[simp]
theorem pieces_nil : pieces [] = [[]] := rfl

theorem pieces_of_blank (hblank : isWhitespace c = true) : pieces (c :: s) = [] :: pieces s := by
  simp [pieces, hblank, List.splitOnP_cons_eq_if_modifyHead]

theorem pieces_of_dropped (hblank : isWhitespace c = false) (hletter : isAlphabetic c = false) :
    pieces (c :: s) = pieces s := by
  simp [pieces, hblank, hletter]

theorem pieces_of_letter (hblank : isWhitespace c = false) (hletter : isAlphabetic c = true)
    (hpieces : pieces s = first :: others) : pieces (c :: s) = (c :: first) :: others := by
  rw [pieces] at hpieces
  simp [pieces, hblank, hletter, List.splitOnP_cons_eq_if_modifyHead, hpieces]

theorem exists_pieces (s : List Char) : ∃ first others, pieces s = first :: others :=
  List.exists_cons_of_ne_nil (List.splitOnP_ne_nil isWhitespace _)

/-- Words with a blank in front of each. -/
def blankBefore (pieces : List (List Char)) : List Char :=
  (pieces.filter (!·.isEmpty)).flatMap (' ' :: ·)

/-- Once something has been written, the cleaner finishes the word that it is in, if it is in one,
and sets a blank before every further word. -/
theorem cleanOn_of_started (s : List Char) :
    (∀ first others, pieces s = first :: others →
      cleanOn true false s = first ++ blankBefore others) ∧
    cleanOn true true s = blankBefore (pieces s) := by
  -- A blank leads from a word into a gap and a letter back, so that each half needs the other.
  induction s with
  | nil => simp [cleanOn, blankBefore]
  | cons c rest ih =>
      obtain ⟨first, others, hrest⟩ := exists_pieces rest
      obtain ⟨hword, hgap⟩ := ih
      have hword := hword first others hrest
      cases hblank : isWhitespace c with
      | true => simp [cleanOn, hblank, pieces_of_blank hblank, blankBefore, hgap]
      | false =>
          cases hletter : isAlphabetic c with
          | false => simp [cleanOn, hblank, hletter, pieces_of_dropped, hrest, hword, hgap]
          | true =>
              simp [cleanOn, hblank, hletter, pieces_of_letter hblank hletter hrest, hword,
                blankBefore]

theorem intercalate_blank_cons (first : List Char) (others : List (List Char)) :
    [' '].intercalate (first :: others) = first ++ others.flatMap (' ' :: ·) := by
  induction others generalizing first with
  | nil => simp
  | cons next others ih => simp [List.intercalate_cons_cons, ih]

/-- Before the first word the cleaner sets no blank. -/
theorem cleanOn_eq_cleanAll (s : List Char) : cleanOn false false s = cleanAll s := by
  change _ = [' '].intercalate ((pieces s).filter (!·.isEmpty))
  induction s with
  | nil => simp [cleanOn]
  | cons c rest ih =>
      obtain ⟨first, others, hrest⟩ := exists_pieces rest
      cases hblank : isWhitespace c with
      | true => simp [cleanOn, hblank, pieces_of_blank hblank, ih]
      | false =>
          cases hletter : isAlphabetic c with
          | false => simp [cleanOn, hblank, hletter, pieces_of_dropped, ih]
          | true =>
              have hword := (cleanOn_of_started rest).1 first others hrest
              simp [cleanOn, hblank, hletter, pieces_of_letter hblank hletter hrest, hword,
                intercalate_blank_cons, blankBefore]

/-- Whatever the limit, a sample is the start of the cleaned text: it may end within a word, or with
the blank behind one. -/
theorem cleanSample_eq_take (s : String) (limit : Nat) :
    cleanSample s limit = String.ofList ((cleanAll s.toList).take limit) := by
  rw [cleanSample, cleanFrom_eq_take, cleanOn_eq_cleanAll]

end Docket.Text
