import Docket.Text.Lowercase
import Docket.Text.Trim
import Mathlib.Data.List.Basic
import Mathlib.Data.String.Basic

/-!
Lower-casing a text and lower-casing a part of it.  A character keeps its lower-case form
wherever it stands, but for the capital sigma, which has one form at the end of a word and
another elsewhere.  A part has the same lower-case form within a text as alone exactly if
each of its sigmas ends a word in both or in neither.
-/

namespace Docket.Text

open Docket.Unicode (lowerChar)

/-- A capital sigma ends a word between the characters before it, in reverse order, and those
after it. -/
def endsWord (before after : List Char) : Bool := meetsCased before && !meetsCased after

/-- The lower-case form of a part of a text, given the characters before it in reverse order
and those after it. -/
def lowerWithin (before : List Char) : List Char → List Char → List Char
  | [], _ => []
  | c :: rest, after => lowerBetween before c (rest ++ after) ++ lowerWithin (c :: before) rest after

/-- No capital sigma of a part ends a word in the part alone and none within a text, or the
other way round. -/
def KeepsSigmas (before part after : String) : Prop :=
  ∀ left right, part.toList = left ++ 'Σ' :: right →
    endsWord (left.reverse ++ before.toList.reverse) (right ++ after.toList) =
      endsWord left.reverse right

theorem keepsSigmas_of_notMem {part : String} (h : 'Σ' ∉ part.toList) (before after : String) :
    KeepsSigmas before part after := by
  intro left right hpart
  rw [hpart] at h
  exact absurd (List.mem_append_right left List.mem_cons_self) h

theorem keepsSigmas_alone (part : String) : KeepsSigmas "" part "" := by
  intro left right _
  simp

/-! One character. -/

theorem lowerBetween_sigma (before after : List Char) :
    lowerBetween before 'Σ' after = if endsWord before after then ['ς'] else ['σ'] :=
  if_pos rfl

theorem lowerBetween_of_ne {c : Char} (h : c ≠ 'Σ') (before after : List Char) :
    lowerBetween before c after = lowerChar c := if_neg h

theorem lowerChar_ne_nil (c : Char) : lowerChar c ≠ [] := by
  unfold lowerChar
  split
  · exact List.cons_ne_nil _ _
  · split
    · exact List.cons_ne_nil _ _
    · split
      · exact List.cons_ne_nil _ _
      · exact List.cons_ne_nil _ _

theorem lowerBetween_ne_nil (before : List Char) (c : Char) (after : List Char) :
    lowerBetween before c after ≠ [] := by
  by_cases h : c = 'Σ'
  · rw [h, lowerBetween_sigma]
    split <;> simp
  · rw [lowerBetween_of_ne h]
    exact lowerChar_ne_nil c

/-- What stands around a character may change its lower-case form, but not the length of it. -/
theorem length_lowerBetween (before before' : List Char) (c : Char) (after after' : List Char) :
    (lowerBetween before c after).length = (lowerBetween before' c after').length := by
  by_cases h : c = 'Σ'
  · rw [h, lowerBetween_sigma, lowerBetween_sigma]
    split <;> split <;> rfl
  · rw [lowerBetween_of_ne h, lowerBetween_of_ne h]

theorem lowerBetween_eq_iff {before before' after after' : List Char} {c : Char} :
    lowerBetween before c after = lowerBetween before' c after' ↔
      (c = 'Σ' → endsWord before after = endsWord before' after') := by
  by_cases h : c = 'Σ'
  · subst h
    rw [lowerBetween_sigma, lowerBetween_sigma]
    cases endsWord before after <;> cases endsWord before' after' <;> simp
  · simp [lowerBetween_of_ne h, h]

/-! Parts of a text. -/

theorem lowerWithin_nil (before part : List Char) :
    lowerWithin before part [] = lowerAfter before part := by
  induction part generalizing before with
  | nil => rfl
  | cons c rest ih => simp [lowerWithin, lowerAfter, ih]

theorem lowerAfter_append (before part after : List Char) :
    lowerAfter before (part ++ after) =
      lowerWithin before part after ++ lowerAfter (part.reverse ++ before) after := by
  induction part generalizing before with
  | nil => rfl
  | cons c rest ih => simp [lowerWithin, lowerAfter, ih]

theorem length_lowerWithin (before before' part after after' : List Char) :
    (lowerWithin before part after).length = (lowerWithin before' part after').length := by
  induction part generalizing before before' with
  | nil => rfl
  | cons c rest ih =>
      rw [lowerWithin, lowerWithin, List.length_append, List.length_append,
        length_lowerBetween before before' c (rest ++ after) (rest ++ after'),
        ih (c :: before) (c :: before')]

/-- Behind some characters that the part has in both texts, and between others that it has in
the one text only, the lower-case form of the part is the same exactly if its sigmas are. -/
theorem lowerWithin_eq_lowerAfter {seen before part after : List Char} :
    lowerWithin (seen ++ before) part after = lowerAfter seen part ↔
      ∀ left right, part = left ++ 'Σ' :: right →
        endsWord (left.reverse ++ (seen ++ before)) (right ++ after) =
          endsWord (left.reverse ++ seen) right := by
  induction part generalizing seen with
  | nil => simp [lowerWithin, lowerAfter]
  | cons c rest ih =>
      have hsplit : lowerWithin (seen ++ before) (c :: rest) after = lowerAfter seen (c :: rest) ↔
          lowerBetween (seen ++ before) c (rest ++ after) = lowerBetween seen c rest ∧
            lowerWithin ((c :: seen) ++ before) rest after = lowerAfter (c :: seen) rest := by
        constructor
        · intro h
          exact List.append_inj h (length_lowerBetween _ _ _ _ _)
        · rintro ⟨hc, hrest⟩
          exact congrArg₂ (· ++ ·) hc hrest
      rw [hsplit, lowerBetween_eq_iff, ih]
      constructor
      · rintro ⟨hc, hrest⟩ left right hpart
        cases left with
        | nil =>
            obtain ⟨rfl, rfl⟩ := List.cons_eq_cons.mp hpart
            exact hc rfl
        | cons b left =>
            obtain ⟨rfl, hbehind⟩ := List.cons_eq_cons.mp hpart
            simpa using hrest left right hbehind
      · intro h
        constructor
        · rintro rfl
          exact h [] rest rfl
        · intro left right hpart
          simpa using h (c :: left) right (by rw [hpart]; rfl)

/-! Whole texts. -/

theorem lowercase_eq_empty {s : String} : lowercase s = "" ↔ s = "" := by
  rw [← String.toList_eq_nil_iff, ← String.toList_eq_nil_iff, lowercase, String.toList_ofList]
  cases s.toList with
  | nil => simp [lowerAfter]
  | cons c rest => simp [lowerAfter, lowerBetween_ne_nil]

theorem startsWith_iff {s start : String} :
    startsWith s start = true ↔ ∃ rest, s = start ++ rest := by
  unfold startsWith
  rw [List.isPrefixOf_iff_prefix]
  constructor
  · rintro ⟨rest, h⟩
    exact ⟨String.ofList rest, String.toList_inj.mp (by simp [h])⟩
  · rintro ⟨rest, rfl⟩
    simp

theorem occursIn_iff {part s : List Char} : occursIn part s = true ↔ part <:+: s := by
  induction s with
  | nil => simp [occursIn]
  | cons c rest ih =>
      rw [occursIn, Bool.or_eq_true, ih, List.isPrefixOf_iff_prefix, List.infix_cons_iff]

theorem contains_iff {s part : String} :
    contains s part = true ↔ ∃ before after, s = before ++ part ++ after := by
  unfold contains
  rw [occursIn_iff]
  constructor
  · rintro ⟨before, after, h⟩
    exact ⟨String.ofList before, String.ofList after, String.toList_inj.mp (by simp [← h])⟩
  · rintro ⟨before, after, rfl⟩
    exact ⟨before.toList, after.toList, by simp⟩

/-- A text is lower-cased part by part, and a part in the middle has the length that it has
when it is lower-cased alone. -/
theorem lowercase_append (before part after : String) :
    ∃ first middle last : List Char,
      (lowercase (before ++ part ++ after)).toList = first ++ middle ++ last ∧
      first.length = (lowercase before).toList.length ∧
      middle.length = (lowercase part).toList.length ∧
      (middle = (lowercase part).toList ↔ KeepsSigmas before part after) := by
  let first := lowerWithin [] before.toList (part.toList ++ after.toList)
  let middle := lowerWithin before.toList.reverse part.toList after.toList
  refine ⟨first, middle, lowerAfter (part.toList.reverse ++ before.toList.reverse) after.toList,
    ?_, ?_, ?_, ?_⟩
  · rw [lowercase, String.toList_ofList, String.toList_append, String.toList_append,
      List.append_assoc, lowerAfter_append, List.append_nil, lowerAfter_append]
    simp [first, middle]
  · rw [lowercase, String.toList_ofList, ← lowerWithin_nil]
    exact length_lowerWithin _ _ _ _ _
  · rw [lowercase, String.toList_ofList, ← lowerWithin_nil]
    exact length_lowerWithin _ _ _ _ _
  · rw [lowercase, String.toList_ofList]
    have h := @lowerWithin_eq_lowerAfter [] before.toList.reverse part.toList after.toList
    simpa [middle, KeepsSigmas] using h

/-- At the place of a part, a lower-cased text goes on with the lower-cased part exactly if the
part keeps its sigmas there. -/
theorem lowercase_at (before part after : String) :
    (lowercase part).toList <+:
        (lowercase (before ++ part ++ after)).toList.drop (lowercase before).toList.length ↔
      KeepsSigmas before part after := by
  obtain ⟨first, middle, last, htext, hfirst, hmiddle, hkeeps⟩ := lowercase_append before part after
  rw [htext, List.append_assoc, ← hfirst, List.drop_left, ← hkeeps]
  constructor
  · rintro ⟨rest, h⟩
    exact (List.append_inj h hmiddle.symm).1.symm
  · intro h
    exact ⟨last, by rw [h]⟩

theorem startsWith_lowercase {start rest : String} :
    startsWith (lowercase (start ++ rest)) (lowercase start) = true ↔
      KeepsSigmas "" start rest := by
  rw [← lowercase_at, startsWith, List.isPrefixOf_iff_prefix]
  simp [lowercase, lowerAfter]

/-- Where a part keeps its sigmas, the lower-cased text has the lower-cased part in it. -/
theorem contains_lowercase {before part after : String} (h : KeepsSigmas before part after) :
    contains (lowercase (before ++ part ++ after)) (lowercase part) = true := by
  rw [← lowercase_at] at h
  rw [contains, occursIn_iff]
  exact h.isInfix.trans (List.drop_suffix _ _).isInfix

end Docket.Text
