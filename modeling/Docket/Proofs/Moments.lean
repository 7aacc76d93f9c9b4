import Mathlib.Algebra.Group.Nat.Defs
import Docket.Calendar.Instant

/-!
What a moment is read back from.  The text of a moment to the microsecond is read back as the
moment without what is shorter, provided that its year has four digits: in the texts of all
other years a sign comes first, which the strict form does not know.
-/

namespace Docket.Calendar

/-! Numbers filled up with zeros. -/

theorem takeDigits_append {ds : List Char} (hds : ∀ c ∈ ds, c.isDigit = true) (k : Nat)
    (rest : List Char) (v n : Nat) :
    takeDigits (some (ds.length + k)) (ds ++ rest) v n =
      takeDigits (some k) rest (Nat.ofDigitChars 10 ds v) (n + ds.length) := by
  induction ds generalizing v n with
  | nil => simp
  | cons c ds ih =>
      have hc := hds c List.mem_cons_self
      have hrest := ih (fun d hd => hds d (List.mem_cons_of_mem c hd))
      have hcount : (c :: ds).length + k = (ds.length + k) + 1 := by
        rw [List.length_cons]
        omega
      rw [hcount, List.cons_append, takeDigits, if_pos hc]
      · simp only [Option.map_some, Nat.add_sub_cancel]
        rw [hrest, Nat.ofDigitChars_cons, Nat.mul_comm v 10, List.length_cons,
          Nat.add_assoc, Nat.add_comm 1]
      · simp

theorem takeDigits_of_not_digit {c : Char} (hc : c.isDigit = false) (count : Option Nat)
    (rest : List Char) (v n : Nat) : takeDigits count (c :: rest) v n = (v, n, c :: rest) := by
  unfold takeDigits
  split <;> simp_all

variable {width n : Nat}

theorem toList_padded : (padded width n).toList =
    List.replicate (width - (Nat.toDigits 10 n).length) '0' ++ Nat.toDigits 10 n := by
  simp [padded]

theorem isDigit_of_mem_padded {c : Char} (hc : c ∈ (padded width n).toList) :
    c.isDigit = true := by
  rw [toList_padded] at hc
  rcases List.mem_append.mp hc with hc | hc
  · rw [(List.mem_replicate.mp hc).2]
    decide
  · exact Nat.isDigit_of_mem_toDigits (by decide) (by decide) hc

theorem ofDigitChars_padded : Nat.ofDigitChars 10 (padded width n).toList 0 = n := by
  rw [toList_padded, Nat.ofDigitChars_append, Nat.ofDigitChars_replicate_zero, Nat.mul_zero,
    Nat.ofDigitChars_ten_toDigits]

theorem length_padded (hwidth : 0 < width) (hn : n < 10 ^ width) :
    (padded width n).toList.length = width := by
  have hle := (Nat.length_toDigits_le_iff (by decide) hwidth).mpr hn
  rw [toList_padded, List.length_append, List.length_replicate]
  omega

theorem takeDigits_padded (hwidth : 0 < width) (hn : n < 10 ^ width) (k : Nat)
    (rest : List Char) : takeDigits (some (width + k)) ((padded width n).toList ++ rest) 0 0 =
      takeDigits (some k) rest n width := by
  have hdigits : ∀ c ∈ (padded width n).toList, c.isDigit = true :=
    fun _ hc => isDigit_of_mem_padded hc
  have htake := takeDigits_append hdigits k rest 0 0
  rwa [length_padded hwidth hn, ofDigitChars_padded, Nat.zero_add] at htake

/-- A number is read back from its digits. -/
theorem readNumber_padded (hwidth : 0 < width) (hn : n < 10 ^ width) (hfits : n < 2 ^ 63)
    (rest : List Char) :
    readNumber width (some width) ((padded width n).toList ++ rest) = some ((n : Int), rest) := by
  have htake := takeDigits_padded hwidth hn 0 rest
  rw [Nat.add_zero] at htake
  have hfits : ¬ Nat.pow 2 63 ≤ n := Nat.not_le.mpr hfits
  unfold readNumber
  rw [htake]
  simp [takeDigits, hfits]

/-- A fraction to the microsecond is read back in nanoseconds. -/
theorem readFraction_padded (hn : n < 10 ^ 6) :
    readFraction ((padded 6 n).toList ++ ['Z']) = some (((n * 1000 : Nat) : Int), ['Z']) := by
  have htake := takeDigits_padded (by decide) hn 3 ['Z']
  unfold readFraction
  rw [htake, takeDigits_of_not_digit (by decide)]
  rfl

/-! The text of a moment. -/

namespace Instant

/-- A moment whose year is written with four digits and no sign. -/
def HasPlainYear (t : Instant) : Prop := 0 ≤ t.date.year ∧ t.date.year ≤ 9999

instance (t : Instant) : Decidable t.HasPlainYear := inferInstanceAs (Decidable (_ ∧ _))

theorem yearText_of_plainYear {t : Instant} (ht : t.HasPlainYear) :
    yearText t.date.year = padded 4 t.date.year.toNat := by
  obtain ⟨hlo, hhi⟩ := ht
  rw [yearText, if_neg (by omega), if_pos hhi]

theorem toList_toMicrosText (t : Instant) : t.toMicrosText.toList =
    (yearText t.date.year).toList ++ '-' :: ((padded 2 t.date.month).toList ++
      '-' :: ((padded 2 t.date.day).toList ++ 'T' :: ((padded 2 (t.second / 3600)).toList ++
        ':' :: ((padded 2 (t.second / 60 % 60)).toList ++
          ':' :: ((padded 2 (t.second % 60 + t.nano / 1000000000)).toList ++
            '.' :: ((padded 6 (t.nano % 1000000000 / 1000)).toList ++ ['Z'])))))) := by
  simp [toMicrosText, textToSeconds]

theorem second_of_leap (t : Instant) : t.second % 60 + t.nano / 1000000000 ≤ 60 := by
  have hnano := t.nano_lt
  have hleap := t.leap_last
  omega

end Instant

theorem Date.day_le_31 (d : Date) : d.day ≤ 31 := by
  have hday := d.day_le
  unfold daysInMonth at hday
  repeat' split at hday
  all_goals omega

/-- The fields that the text of a moment spells. -/
def Instant.spelled (t : Instant) : Fields where
  year := some t.date.year
  month := some t.date.month
  day := some t.date.day
  halfDay := some (t.second / 3600 / 12 : Nat)
  hourOfHalf := some (t.second / 3600 % 12 : Nat)
  minute := some (t.second / 60 % 60 : Nat)
  second := some (t.second % 60 + t.nano / 1000000000 : Nat)
  nanosecond := some (t.nano % 1000000000 / 1000 * 1000 : Nat)
  offset := some 0

theorem bind_of_some {α β : Type} {x : Option α} {a : α} {f : α → Option β} {b : Option β}
    (hx : x = some a) (hf : f a = b) : (x >>= f) = b := by
  subst hx
  exact hf

/-- A number of a field, read and recorded. -/
theorem readField_of_some {digits : Nat} {field : NumberField} {f f' : Fields} {s rest : List Char}
    {v : Int} (hread : readNumber digits (some digits) s = some (v, rest))
    (hset : f.set field v = some f') :
    (do
      let (v, s) ← readNumber digits (some digits) s
      return (← f.set field v, s) : Option (Fields × List Char)) = some (f', rest) := by
  refine bind_of_some hread ?_
  exact bind_of_some hset rfl

/-- The numbers that the text of a moment spells lie in the ranges of their fields. -/
theorem Instant.set_spelled {t : Instant} (hplain : t.HasPlainYear) :
    (do
      let f ← ({} : Fields).set .year t.date.year
      let f ← f.set .month t.date.month
      let f ← f.set .day t.date.day
      let f ← f.set .hour (t.second / 3600 : Nat)
      let f ← f.set .minute (t.second / 60 % 60 : Nat)
      let f ← f.set .second (t.second % 60 + t.nano / 1000000000 : Nat)
      let f ← f.set .nanosecond (t.nano % 1000000000 / 1000 * 1000 : Nat)
      f.setOffset 0) = some t.spelled := by
  have hyear : -Int.pow 2 31 ≤ t.date.year ∧ t.date.year ≤ Int.pow 2 31 - 1 := by
    have hpow : Int.pow 2 31 = 2147483648 := rfl
    obtain ⟨hlo, hhi⟩ := hplain
    omega
  have hmonth : (1 : Int) ≤ t.date.month ∧ (t.date.month : Int) ≤ 12 := by
    have hlo := t.date.month_pos
    have hhi := t.date.month_le
    omega
  have hday : (1 : Int) ≤ t.date.day ∧ (t.date.day : Int) ≤ 31 := by
    have hlo := t.date.day_pos
    have hhi := t.date.day_le_31
    omega
  have hhour : (0 : Int) ≤ (t.second / 3600 : Nat) ∧ ((t.second / 3600 : Nat) : Int) ≤ 23 := by
    have hsecond := t.second_lt
    omega
  have hminute : (0 : Int) ≤ (t.second / 60 % 60 : Nat) ∧
      ((t.second / 60 % 60 : Nat) : Int) ≤ 59 := by
    omega
  have hsecond : (0 : Int) ≤ (t.second % 60 + t.nano / 1000000000 : Nat) ∧
      ((t.second % 60 + t.nano / 1000000000 : Nat) : Int) ≤ 60 := by
    have hleap := t.second_of_leap
    omega
  have hnano : (0 : Int) ≤ (t.nano % 1000000000 / 1000 * 1000 : Nat) ∧
      ((t.nano % 1000000000 / 1000 * 1000 : Nat) : Int) ≤ 999999999 := by
    omega
  simp only [Fields.set, if_pos hyear, if_pos hmonth, if_pos hday, if_pos hhour, if_pos hminute,
    if_pos hsecond, if_pos hnano]
  rfl

/-- The fields are read one after the other, each from the text that those before it leave. -/
theorem Instant.readStrict?_of_plainYear {t : Instant} (hplain : t.HasPlainYear) :
    readStrict? t.toMicrosText = t.spelled.instant? := by
  have hset := set_spelled hplain
  simp only [Option.bind_eq_bind, Option.bind_eq_some_iff] at hset
  obtain ⟨f₁, hyear, f₂, hmonth, f₃, hday, f₄, hhour, f₅, hminute, f₆, hsecond, f₇, hnano,
    hoffset⟩ := hset
  have hmonth_le := t.date.month_le
  have hday_le := t.date.day_le_31
  have hsecond_lt := t.second_lt
  have hleap := t.second_of_leap
  have hnumber : ∀ n < 10 ^ 2, ∀ rest, readNumber 2 (some 2) ((padded 2 n).toList ++ rest) =
      some ((n : Int), rest) := fun n hn => readNumber_padded (by decide) hn (by omega)
  have hread (rest : List Char) : readNumber 4 (some 4) ((yearText t.date.year).toList ++ rest) =
      some (t.date.year, rest) := by
    obtain ⟨hlo, hhi⟩ := hplain
    have hsigned : (t.date.year.toNat : Int) = t.date.year := by omega
    rw [yearText_of_plainYear ⟨hlo, hhi⟩, readNumber_padded (by decide) (by omega) (by omega),
      hsigned]
  unfold readStrict?
  rw [toList_toMicrosText]
  refine bind_of_some (readField_of_some (hread _) hyear) ?_
  refine bind_of_some rfl ?_
  refine bind_of_some (readField_of_some (hnumber _ (by omega) _) hmonth) ?_
  refine bind_of_some rfl ?_
  refine bind_of_some (readField_of_some (hnumber _ (by omega) _) hday) ?_
  dsimp only
  split
  · next heq => simp at heq
  · next heq =>
      cases heq
      refine bind_of_some rfl ?_
      refine bind_of_some (readField_of_some (hnumber _ (by omega) _) hhour) ?_
      refine bind_of_some rfl ?_
      refine bind_of_some (readField_of_some (hnumber _ (by omega) _) hminute) ?_
      refine bind_of_some rfl ?_
      refine bind_of_some (readField_of_some (hnumber _ (by omega) _) hsecond) ?_
      dsimp only
      split
      · next heq =>
          cases heq
          refine bind_of_some (readFraction_padded (by omega)) (bind_of_some hnano ?_)
          refine bind_of_some rfl (bind_of_some rfl ?_)
          exact bind_of_some hoffset rfl
      · next hnot => exact (hnot _ rfl).elim
  · next heq => simp at heq
  · next hnot _ => exact (hnot _ rfl).elim

theorem Fields.date?_of_ymd {f : Fields} {d : Date}
    (hf : f = { year := some d.year, month := some d.month, day := some d.day,
                halfDay := f.halfDay, hourOfHalf := f.hourOfHalf, minute := f.minute,
                second := f.second, nanosecond := f.nanosecond, offset := f.offset }) :
    f.date? = some d := by
  have hymd : Date.ofYmd? d.year d.month d.day = some d := by
    unfold Date.ofYmd?
    rw [dif_pos ⟨d.year_ge, d.year_le, d.month_pos, d.month_le, d.day_pos, d.day_le⟩]
  rw [hf]
  simp [Fields.date?, resolveYear, hymd, agreesWithIsoWeek, agreesWithOrdinal, agreesWithYear,
    permits]

/-- Hours, minutes and seconds make up the second of the day; the second 60 stands for the
leap second behind the 59th. -/
theorem Instant.time?_spelled (t : Instant) :
    t.spelled.time? = some (t.second, t.nano / 1000 * 1000) := by
  have hnano := t.nano_lt
  have hleap := t.leap_last
  unfold Fields.time?
  refine bind_of_some rfl ?_
  refine bind_of_some rfl ?_
  refine bind_of_some rfl ?_
  rw [if_neg (by simp [spelled])]
  by_cases hlast : 1000000000 ≤ t.nano
  · have hsixty : t.spelled.second.getD 0 = 60 := by
      change ((t.second % 60 + t.nano / 1000000000 : Nat) : Int) = 60
      omega
    rw [if_pos hsixty]
    simp only [spelled, Option.getD_some, Option.pure_def, Option.some.injEq, Prod.mk.injEq]
    omega
  · have hsixty : ¬ t.spelled.second.getD 0 = 60 := by
      change ¬ ((t.second % 60 + t.nano / 1000000000 : Nat) : Int) = 60
      omega
    rw [if_neg hsixty]
    simp only [spelled, Option.getD_some, Option.pure_def, Option.some.injEq, Prod.mk.injEq]
    omega

theorem Instant.ofLocal?_zero (t : Instant) : ofLocal? t.date t.second t.nano 0 = some t := by
  have hsecond := t.second_lt
  unfold ofLocal? of?
  simp only [Int.sub_zero, Int.toNat_natCast]
  rw [if_neg (by omega), if_neg (by omega), dif_pos ⟨t.second_lt, t.nano_lt, t.leap_last⟩]

theorem Instant.instant?_spelled (t : Instant) : t.spelled.instant? = some t.truncate := by
  have hdate : t.spelled.date? = some t.date := Fields.date?_of_ymd rfl
  unfold Fields.instant?
  refine bind_of_some rfl ?_
  refine bind_of_some hdate ?_
  refine bind_of_some t.time?_spelled ?_
  exact t.truncate.ofLocal?_zero

/-- In other years the text begins with a sign, where the strict form wants a digit. -/
theorem Instant.readStrict?_of_not_plainYear {t : Instant} (hplain : ¬ t.HasPlainYear) :
    readStrict? t.toMicrosText = none := by
  obtain ⟨sign, hsign, rest, htext⟩ : ∃ sign : Char, sign.isDigit = false ∧
      ∃ rest, (yearText t.date.year).toList = sign :: rest := by
    unfold yearText
    by_cases hneg : t.date.year < 0
    · rw [if_pos hneg]
      exact ⟨'-', by decide, (padded 4 t.date.year.natAbs).toList, by simp⟩
    · have hlate : ¬ t.date.year ≤ 9999 := fun h => hplain ⟨by omega, h⟩
      rw [if_neg hneg, if_neg hlate]
      exact ⟨'+', by decide, (padded 4 t.date.year.toNat).toList, by simp⟩
  unfold readStrict?
  rw [toList_toMicrosText, htext, List.cons_append]
  have hread : ∀ s, readNumber 4 (some 4) (sign :: s) = none := by
    intro s
    unfold readNumber
    rw [takeDigits_of_not_digit hsign]
    rfl
  simp only [hread, Option.bind_eq_bind, Option.bind_none]

/-- A moment is read back from its text exactly if its year has four digits. -/
theorem Instant.readStrict?_toMicrosText (t : Instant) :
    readStrict? t.toMicrosText = if t.HasPlainYear then some t.truncate else none := by
  split
  · next hplain => rw [readStrict?_of_plainYear hplain, instant?_spelled]
  · next hplain => exact readStrict?_of_not_plainYear hplain

end Docket.Calendar
