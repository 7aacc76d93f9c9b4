import Mathlib.Algebra.Group.Nat.Defs
import Docket.Proofs.Moments

/-!
Moments and their texts sort alike.  Texts of moments to the microsecond are compared
character by character; as long as years have four digits all their fields are of fixed
widths, so that the first field in which they differ decides as it does for the moments.
-/

namespace Docket.Calendar

/-! Numbers of one width. -/

theorem ofDigitChars_eq_add (cs : List Char) (init : Nat) :
    Nat.ofDigitChars 10 cs init = init * 10 ^ cs.length + Nat.ofDigitChars 10 cs 0 := by
  induction cs generalizing init with
  | nil => simp
  | cons c cs ih =>
      rw [Nat.ofDigitChars_cons, Nat.ofDigitChars_cons, ih, ih (10 * 0 + _), List.length_cons,
        Nat.pow_succ]
      grind

theorem ofDigitChars_cons_eq (c : Char) (cs : List Char) :
    Nat.ofDigitChars 10 (c :: cs) 0 =
      (c.toNat - '0'.toNat) * 10 ^ cs.length + Nat.ofDigitChars 10 cs 0 := by
  rw [Nat.ofDigitChars_cons, ofDigitChars_eq_add, Nat.mul_zero, Nat.zero_add]

theorem ofDigitChars_lt {cs : List Char} (hcs : ∀ c ∈ cs, c.isDigit = true) :
    Nat.ofDigitChars 10 cs 0 < 10 ^ cs.length := by
  induction cs with
  | nil => simp
  | cons c cs ih =>
      have hrest := ih fun d hd => hcs d (List.mem_cons_of_mem c hd)
      have hc := (Char.isDigit_iff_toNat.mp (hcs c List.mem_cons_self)).2
      have hnine : '9'.toNat - '0'.toNat = 9 := rfl
      have hhead := Nat.mul_le_mul_right (10 ^ cs.length) (show c.toNat - '0'.toNat ≤ 9 by omega)
      rw [ofDigitChars_cons_eq, List.length_cons, Nat.pow_succ]
      omega

/-- Digits sort like the numbers that they spell, where there are equally many. -/
theorem lt_iff_ofDigitChars_lt {as bs : List Char} (hlength : as.length = bs.length)
    (has : ∀ c ∈ as, c.isDigit = true) (hbs : ∀ c ∈ bs, c.isDigit = true) :
    as < bs ↔ Nat.ofDigitChars 10 as 0 < Nat.ofDigitChars 10 bs 0 := by
  induction as generalizing bs with
  | nil =>
      cases bs with
      | nil => simp
      | cons b bs => cases hlength
  | cons a as ih =>
      cases bs with
      | nil => cases hlength
      | cons b bs =>
          have hlength : as.length = bs.length := by simpa using hlength
          have has' : ∀ c ∈ as, c.isDigit = true := fun c hc => has c (List.mem_cons_of_mem a hc)
          have hbs' : ∀ c ∈ bs, c.isDigit = true := fun c hc => hbs c (List.mem_cons_of_mem b hc)
          have ha := (Char.isDigit_iff_toNat.mp (has a List.mem_cons_self)).1
          have hb := (Char.isDigit_iff_toNat.mp (hbs b List.mem_cons_self)).1
          have halow := ofDigitChars_lt has'
          have hblow := ofDigitChars_lt hbs'
          have heq : a = b ↔ a.toNat = b.toNat := Char.toNat_inj.symm
          have hlt : a < b ↔ a.toNat < b.toNat := Iff.rfl
          rw [List.cons_lt_cons_iff, ih hlength has' hbs', ofDigitChars_cons_eq,
            ofDigitChars_cons_eq, hlt, heq, hlength]
          rw [hlength] at halow
          generalize 10 ^ bs.length = p at *
          rcases Nat.lt_trichotomy a.toNat b.toNat with h | h | h
          · have := Nat.mul_le_mul_right p
              (show a.toNat - '0'.toNat + 1 ≤ b.toNat - '0'.toNat by omega)
            rw [Nat.add_mul] at this
            omega
          · rw [h]
            omega
          · have := Nat.mul_le_mul_right p
              (show b.toNat - '0'.toNat + 1 ≤ a.toNat - '0'.toNat by omega)
            rw [Nat.add_mul] at this
            omega

/-- Where two texts begin with equally long parts, these decide if they differ. -/
theorem append_lt_append_iff {as bs : List Char} (hlength : as.length = bs.length)
    (x y : List Char) : as ++ x < bs ++ y ↔ as < bs ∨ as = bs ∧ x < y := by
  induction as generalizing bs with
  | nil =>
      cases bs with
      | nil => simp
      | cons b bs => cases hlength
  | cons a as ih =>
      cases bs with
      | nil => cases hlength
      | cons b bs =>
          have hlength : as.length = bs.length := by simpa using hlength
          simp only [List.cons_append, List.cons_lt_cons_iff, ih hlength, List.cons.injEq,
            and_or_left, or_assoc, and_assoc]

/-- Two texts that begin with numbers of one width. -/
theorem padded_append_lt_iff {width m n : Nat} (hwidth : 0 < width) (hm : m < 10 ^ width)
    (hn : n < 10 ^ width) (x y : List Char) :
    (padded width m).toList ++ x < (padded width n).toList ++ y ↔ m < n ∨ m = n ∧ x < y := by
  have hlength : (padded width m).toList.length = (padded width n).toList.length := by
    rw [length_padded hwidth hm, length_padded hwidth hn]
  have heq : (padded width m).toList = (padded width n).toList ↔ m = n := by
    constructor
    · intro h
      have hvalue := congrArg (Nat.ofDigitChars 10 · 0) h
      simpa only [ofDigitChars_padded] using hvalue
    · rintro rfl
      rfl
  rw [append_lt_append_iff hlength, heq,
    lt_iff_ofDigitChars_lt hlength (fun _ => isDigit_of_mem_padded)
      (fun _ => isDigit_of_mem_padded),
    ofDigitChars_padded, ofDigitChars_padded]

namespace Instant

/-- A moment lies before another. -/
def Before (t u : Instant) : Prop := compare t u = .lt

instance (t u : Instant) : Decidable (t.Before u) := inferInstanceAs (Decidable (_ = _))

variable {t u : Instant}

/-- What is shorter than a microsecond is not in the text. -/
theorem toMicrosText_truncate (t : Instant) : t.truncate.toMicrosText = t.toMicrosText := by
  have hsecond : t.nano / 1000 * 1000 / 1000000000 = t.nano / 1000000000 := by omega
  have hmicros : t.nano / 1000 * 1000 % 1000000000 / 1000 = t.nano % 1000000000 / 1000 := by
    omega
  simp only [toMicrosText, textToSeconds, truncate, hsecond, hmicros]

theorem truncate_truncate (t : Instant) : t.truncate.truncate = t.truncate := by
  have hnano : t.nano / 1000 * 1000 / 1000 * 1000 = t.nano / 1000 * 1000 := by omega
  simp only [truncate, hnano]

/-- Moments with equal texts are equal to the microsecond. -/
theorem toMicrosText_inj (ht : t.HasPlainYear) (hu : u.HasPlainYear) :
    t.toMicrosText = u.toMicrosText ↔ t.truncate = u.truncate := by
  constructor
  · intro h
    have hread := t.readStrict?_toMicrosText
    rw [h, u.readStrict?_toMicrosText, if_pos ht, if_pos hu] at hread
    exact (Option.some.inj hread).symm
  · intro h
    rw [← toMicrosText_truncate t, h, toMicrosText_truncate]

theorem before_iff : t.Before u ↔
    t.date.year < u.date.year ∨ t.date.year = u.date.year ∧
      (t.date.month < u.date.month ∨ t.date.month = u.date.month ∧
        (t.date.day < u.date.day ∨ t.date.day = u.date.day ∧
          (t.second < u.second ∨ t.second = u.second ∧ t.nano < u.nano))) := by
  simp only [Before, compare, Date.compare, Ordering.then_eq_lt, Ordering.then_eq_eq,
    Nat.compare_eq_lt, Nat.compare_eq_eq, Int.compare_eq_lt, Int.compare_eq_eq, and_or_left,
    or_assoc, and_assoc]

/-- Hours, minutes, seconds and microseconds sort like seconds and nanoseconds. -/
theorem clock_lt_iff (t u : Instant) :
    t.second / 3600 < u.second / 3600 ∨ t.second / 3600 = u.second / 3600 ∧
      (t.second / 60 % 60 < u.second / 60 % 60 ∨ t.second / 60 % 60 = u.second / 60 % 60 ∧
        (t.second % 60 + t.nano / 1000000000 < u.second % 60 + u.nano / 1000000000 ∨
          t.second % 60 + t.nano / 1000000000 = u.second % 60 + u.nano / 1000000000 ∧
            t.nano % 1000000000 / 1000 < u.nano % 1000000000 / 1000)) ↔
    t.second < u.second ∨ t.second = u.second ∧
      t.nano / 1000 * 1000 < u.nano / 1000 * 1000 := by
  have htnano := t.nano_lt
  have hunano := u.nano_lt
  have htleap := t.leap_last
  have huleap := u.leap_last
  omega

/-- The fields fit the widths that they have in the text. -/
theorem fields_lt (ht : t.HasPlainYear) : t.date.year.toNat < 10 ^ 4 ∧
    t.date.month < 10 ^ 2 ∧ t.date.day < 10 ^ 2 ∧ t.second / 3600 < 10 ^ 2 ∧
    t.second / 60 % 60 < 10 ^ 2 ∧ t.second % 60 + t.nano / 1000000000 < 10 ^ 2 ∧
    t.nano % 1000000000 / 1000 < 10 ^ 6 := by
  obtain ⟨hlo, hhi⟩ := ht
  have hmonth := t.date.month_le
  have hday := t.date.day_le_31
  have hsecond := t.second_lt
  have hleap := t.second_of_leap
  omega

/-- The texts of moments sort like the moments to the microsecond, where years have four
digits. -/
theorem toMicrosText_lt_iff (ht : t.HasPlainYear) (hu : u.HasPlainYear) :
    t.toMicrosText < u.toMicrosText ↔ t.truncate.Before u.truncate := by
  have hyears : t.date.year.toNat < u.date.year.toNat ↔ t.date.year < u.date.year := by
    have hlo := ht.1
    omega
  have hsame : t.date.year.toNat = u.date.year.toNat ↔ t.date.year = u.date.year := by
    have hlo := ht.1
    have hlo' := hu.1
    omega
  obtain ⟨ht₁, ht₂, ht₃, ht₄, ht₅, ht₆, ht₇⟩ := fields_lt ht
  obtain ⟨hu₁, hu₂, hu₃, hu₄, hu₅, hu₆, hu₇⟩ := fields_lt hu
  rw [String.lt_iff, toList_toMicrosText, toList_toMicrosText, yearText_of_plainYear ht,
    yearText_of_plainYear hu]
  simp only [padded_append_lt_iff, List.cons_lt_cons_iff, ht₁, ht₂, ht₃, ht₄, ht₅, ht₆, ht₇, hu₁,
    hu₂, hu₃, hu₄, hu₅, hu₆, hu₇, Nat.reduceLT, hyears, hsame]
  have hclock := clock_lt_iff t u
  rw [before_iff]
  simp [truncate, hclock]

end Instant

end Docket.Calendar
