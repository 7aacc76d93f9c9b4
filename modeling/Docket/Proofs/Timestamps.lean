import Docket.Proofs.Chronology
import Docket.Store.Tables

/-!
Moments in the store.  A column holds the text of a moment, and the store compares texts by their
bytes.  The bytes of a text sort as its characters do, whatever the characters are, so that the
texts of moments whose years have four digits sort by bytes as the moments do by time.
-/

namespace Docket

namespace Text

/-- The bytes of a text, in their order. -/
def bytes (s : String) : List UInt8 := s.toUTF8.data.toList

theorem bytes_eq (s : String) : bytes s = s.toList.flatMap String.utf8EncodeChar := by
  unfold bytes
  conv => lhs; rw [← String.ofList_toList (s := s)]
  rw [String.toUTF8_eq_toByteArray, String.toByteArray_ofList, List.utf8Encode,
    List.toList_data_toByteArray]

theorem toNat_ofNat_mod_add {n k : Nat} (hfits : k + n ≤ 256) (hn : 0 < n) (v : Nat) :
    (UInt8.ofNat (v % n + k)).toNat = v % n + k := by
  have := Nat.mod_lt v hn
  rw [UInt8.toNat_ofNat', Nat.mod_eq_of_lt (by omega)]

/-- The bytes of a smaller character come first, whatever follows. -/
theorem utf8EncodeChar_append_lt {c d : Char} (h : c < d) (x y : List UInt8) :
    String.utf8EncodeChar c ++ x < String.utf8EncodeChar d ++ y := by
  have hvalid : ∀ e : Char, e.val.toNat < 1114112 := by
    intro e
    have := e.valid
    simp only [UInt32.isValidChar, Nat.isValidChar] at this
    omega
  have hc := hvalid c
  have hd := hvalid d
  have hlt : c.val.toNat < d.val.toNat := h
  -- The digits to base 64, by which both the lead byte and the others are given.
  have hdigits : ∀ n : Nat, n / 4096 = n / 64 / 64 ∧ n / 262144 = n / 64 / 64 / 64 := by
    intro n
    omega
  unfold String.utf8EncodeChar
  generalize c.val.toNat = v at *
  generalize d.val.toNat = w at *
  dsimp only
  rw [(hdigits v).1, (hdigits v).2, (hdigits w).1, (hdigits w).2]
  repeat' split
  -- A smaller character has no more bytes.
  all_goals try (exfalso; omega)
  all_goals simp only [List.cons_append, List.nil_append, List.cons_lt_cons_iff,
    UInt8.lt_iff_toNat_lt, ← UInt8.toNat_inj]
  all_goals try simp (disch := decide) only [toNat_ofNat_mod_add]
  all_goals try simp only [UInt8.toNat_ofNat']
  all_goals omega

theorem flatMap_utf8EncodeChar_lt {cs ds : List Char} (h : cs < ds) :
    cs.flatMap String.utf8EncodeChar < ds.flatMap String.utf8EncodeChar := by
  induction cs generalizing ds with
  | nil =>
      cases ds with
      | nil => exact absurd h (List.not_lt_nil _)
      | cons d ds =>
          rw [List.flatMap_nil, List.flatMap_cons]
          unfold String.utf8EncodeChar
          dsimp only
          repeat' split
          all_goals exact List.nil_lt_cons _ _
  | cons c cs ih =>
      cases ds with
      | nil => exact absurd h (List.not_lt_nil _)
      | cons d ds =>
          rw [List.flatMap_cons, List.flatMap_cons]
          rcases List.cons_lt_cons_iff.mp h with hlt | ⟨rfl, hlt⟩
          · exact utf8EncodeChar_append_lt hlt _ _
          · exact List.append_left_lt (ih hlt)

/-- Texts sort by their bytes as by their characters. -/
theorem bytes_lt_iff {s s' : String} : bytes s < bytes s' ↔ s < s' := by
  have hlt : ∀ {a b : String}, a < b → bytes a < bytes b := by
    intro a b h
    rw [bytes_eq, bytes_eq]
    exact flatMap_utf8EncodeChar_lt (String.lt_iff.mp h)
  constructor
  · intro h
    by_cases hback : s' < s
    · exact absurd h (List.lt_asymm (hlt hback))
    · apply String.not_le.mp
      intro hle
      have heq : s' = s := String.le_antisymm hle (String.not_lt.mp hback)
      rw [heq] at h
      exact List.lt_irrefl _ h
  · exact hlt

theorem bytes_le_iff {s s' : String} : bytes s ≤ bytes s' ↔ ¬ s' < s := by
  rw [← bytes_lt_iff]
  exact List.not_lt.symm

theorem length_bytes_of_ascii {s : String} (h : ∀ c ∈ s.toList, c.toNat < 128) :
    (bytes s).length = s.toList.length := by
  have hsize : ∀ c ∈ s.toList, (String.utf8EncodeChar c).length = 1 := by
    intro c hc
    have hlow : c.toNat ≤ 127 := Nat.le_of_lt_succ (h c hc)
    simp [String.utf8EncodeChar, hlow]
  rw [bytes_eq, List.length_flatMap, List.map_congr_left hsize, List.map_const',
    List.sum_replicate_nat, Nat.mul_one]

end Text

open Docket.Calendar (Instant)

theorem readMoment_toMicrosText (column : Nat) (t : Instant) :
    readMoment column t.toMicrosText =
      if t.HasPlainYear then .ok t.truncate else .error (.unreadable column none) := by
  unfold readMoment
  rw [t.readStrict?_toMicrosText]
  by_cases hplain : t.HasPlainYear
  · rw [if_pos hplain, if_pos hplain]
  · rw [if_neg hplain, if_neg hplain]

namespace Calendar.Instant

variable {t u : Instant}

/-- What is shorter than a microsecond does not put moments in another order. -/
theorem not_before_truncate (h : ¬ u.Before t) : ¬ u.truncate.Before t.truncate := by
  simp only [before_iff, truncate] at h ⊢
  grind

theorem isAscii_of_mem_toMicrosText (ht : t.HasPlainYear) {c : Char}
    (hc : c ∈ t.toMicrosText.toList) : c.toNat < 128 := by
  have hdigit : ∀ {width n : Nat}, c ∈ (padded width n).toList → c.toNat < 128 := by
    intro width n hmem
    have hnine : '9'.toNat = 57 := rfl
    have := (Char.isDigit_iff_toNat.mp (isDigit_of_mem_padded hmem)).2
    omega
  rw [toList_toMicrosText, yearText_of_plainYear ht] at hc
  simp only [List.mem_append, List.mem_cons, List.not_mem_nil, or_false] at hc
  rcases hc with h | rfl | h | rfl | h | rfl | h | rfl | h | rfl | h | rfl | h | rfl
  all_goals first | exact hdigit h | decide

/-- The bytes of the text of a moment are as many as in `2016-12-31T23:59:60.000000Z`. -/
theorem length_bytes_toMicrosText (ht : t.HasPlainYear) :
    (Text.bytes t.toMicrosText).length = 27 := by
  obtain ⟨hyear, hmonth, hday, hhour, hminute, hsecond, hmicros⟩ := fields_lt ht
  rw [Text.length_bytes_of_ascii fun _ => isAscii_of_mem_toMicrosText ht, toList_toMicrosText,
    yearText_of_plainYear ht]
  simp only [List.length_append, List.length_cons, List.length_nil, length_padded, Nat.reduceLT,
    hyear, hmonth, hday, hhour, hminute, hsecond, hmicros]

/-- One moment is not after another exactly if its text is not, byte by byte, where what is shorter
than a microsecond is left out. -/
theorem bytes_toMicrosText_le_iff (ht : t.HasPlainYear) (hu : u.HasPlainYear) :
    Text.bytes t.toMicrosText ≤ Text.bytes u.toMicrosText ↔ ¬ u.truncate.Before t.truncate := by
  rw [Text.bytes_le_iff, toMicrosText_lt_iff hu ht]

/-- Moments to the microsecond are read from a column as they were written, and rows that are
ordered by their texts are ordered by their times. -/
theorem stored_in_order (ht : t.HasPlainYear) (hu : u.HasPlainYear) :
    (∀ column, readMoment column t.toMicrosText = .ok t.truncate ∧
      readMoment? column (some t.toMicrosText) = .ok (some t.truncate)) ∧
    (Text.bytes t.toMicrosText).length = 27 ∧ (Text.bytes u.toMicrosText).length = 27 ∧
    (¬ u.Before t → Text.bytes t.toMicrosText ≤ Text.bytes u.toMicrosText) ∧
    (t.toMicrosText = u.toMicrosText ↔ t.truncate = u.truncate) ∧
    ∀ {Row : Type} (time : Row → Instant) (rows : List Row),
      (∀ r ∈ rows, (time r).HasPlainYear) →
        (rows.Pairwise (fun a b =>
            Text.bytes (time a).toMicrosText ≤ Text.bytes (time b).toMicrosText) ↔
          rows.Pairwise fun a b => ¬ (time b).truncate.Before (time a).truncate) := by
  have hread : ∀ column, readMoment column t.toMicrosText = .ok t.truncate := by
    intro column
    rw [readMoment_toMicrosText, if_pos ht]
  refine ⟨fun column => ⟨hread column, ?_⟩, length_bytes_toMicrosText ht,
    length_bytes_toMicrosText hu, ?_, toMicrosText_inj ht hu, ?_⟩
  · rw [readMoment?, hread column]
    rfl
  · intro h
    exact (bytes_toMicrosText_le_iff ht hu).mpr (not_before_truncate h)
  · intro Row time rows hplain
    exact List.Pairwise.iff_of_mem fun ha hb =>
      bytes_toMicrosText_le_iff (hplain _ ha) (hplain _ hb)

/-- A moment within the leap second at the end of 2016. -/
def leapSecond : Instant :=
  ((Date.ofYmd? 2016 12 31).bind fun date => of? date 86399 1000000999).getD default

/-- The midnight that follows it. -/
def newYear : Instant := ((Date.ofYmd? 2017 1 1).map midnight).getD default

theorem stored_in_order_leapSecond :
    leapSecond.toMicrosText = "2016-12-31T23:59:60.000000Z" ∧
      readMoment 4 leapSecond.toMicrosText = .ok leapSecond.truncate ∧
      leapSecond ≠ leapSecond.truncate ∧
      Text.bytes leapSecond.toMicrosText ≤ Text.bytes newYear.toMicrosText ∧
      leapSecond.toMicrosText ≠ newYear.toMicrosText ∧
      [leapSecond, leapSecond.truncate, newYear].Pairwise fun a b =>
        Text.bytes a.toMicrosText ≤ Text.bytes b.toMicrosText := by
  obtain ⟨hread, -, -, hle, hsame, hrows⟩ :=
    stored_in_order (t := leapSecond) (u := newYear) (by decide) (by decide)
  refine ⟨by decide, (hread 4).1, by decide, hle (by decide), fun h => ?_, ?_⟩
  · exact absurd (hsame.mp h) (by decide)
  · exact (hrows id [leapSecond, leapSecond.truncate, newYear] (by decide)).mpr (by decide)

end Calendar.Instant

end Docket
