import Docket.Config.Json
import Docket.Proofs.Cleaning
import Docket.Proofs.Offering

/-!
Numbers from the settings in arithmetic of 64 bits.  What is checked of the settings bounds them from
below only: the bytes that are set aside for a sample, and the documents that a pull asks for, are
counted right exactly as long as the true numbers fit.
-/

namespace Docket

namespace Text

open Docket.Unicode (isWhitespace isAlphabetic)

theorem utf8ByteSize_ofList_cons (c : Char) (s : List Char) :
    (String.ofList (c :: s)).utf8ByteSize = c.utf8Size + (String.ofList s).utf8ByteSize := by
  simp [String.ofList_cons]

/-- Cleaning drops characters, and writes a blank only where it has dropped white space. -/
theorem utf8ByteSize_cleanOn_le (started pending : Bool) (s : List Char) :
    (String.ofList (cleanOn started pending s)).utf8ByteSize ≤
      pending.toNat + (String.ofList s).utf8ByteSize := by
  induction s generalizing started pending with
  | nil => simp [cleanOn]
  | cons c rest ih =>
      have hpos := c.utf8Size_pos
      have hblank : ' '.utf8Size = 1 := by decide
      rw [cleanOn, utf8ByteSize_ofList_cons]
      split
      · have := ih started started
        have := started.toNat_le
        omega
      · split
        · have := ih started pending
          omega
        · have := ih true false
          simp only [Bool.toNat_false] at this
          cases pending with
          | true =>
              rw [if_pos rfl, utf8ByteSize_ofList_cons, utf8ByteSize_ofList_cons, hblank,
                Bool.toNat_true]
              omega
          | false =>
              rw [if_neg Bool.false_ne_true, utf8ByteSize_ofList_cons]
              omega

theorem utf8ByteSize_take_le (room : Nat) (s : List Char) :
    (String.ofList (s.take room)).utf8ByteSize ≤
      min (String.ofList s).utf8ByteSize (room * 4) := by
  induction s generalizing room with
  | nil => simp
  | cons c rest ih =>
      cases room with
      | zero => simp
      | succ room =>
          have := ih room
          have := c.utf8Size_le_four
          rw [List.take_succ_cons, utf8ByteSize_ofList_cons, utf8ByteSize_ofList_cons]
          omega

/-- A sample has no more bytes than its text, and no more than four for each character that it may
have. -/
theorem utf8ByteSize_cleanSample_le (s : String) (limit : Nat) :
    (cleanSample s limit).utf8ByteSize ≤ min s.utf8ByteSize (limit * 4) := by
  have hclean := utf8ByteSize_cleanOn_le false false s.toList
  rw [String.ofList_toList, Bool.toNat_false, Nat.zero_add] at hclean
  rw [cleanSample, cleanFrom_eq_take]
  have := utf8ByteSize_take_le limit (cleanOn false false s.toList)
  omega

theorem exists_utf8ByteSize (n : Nat) : ∃ s : String, s.utf8ByteSize = n := by
  induction n with
  | zero => exact ⟨"", rfl⟩
  | succ n ih =>
      obtain ⟨s, hs⟩ := ih
      have hletter : 'a'.utf8Size = 1 := by decide
      refine ⟨String.ofList ('a' :: s.toList), ?_⟩
      rw [utf8ByteSize_ofList_cons, String.ofList_toList, hletter, hs, Nat.add_comm]

/-- As much as is meant is set aside for every text exactly if the product fits. -/
theorem sampleCapacity_eq_iff (limit : Nat) :
    (∀ s, sampleCapacity s limit = min s.utf8ByteSize (limit * 4)) ↔ limit * 4 < 2 ^ 64 := by
  have hpow : Nat.pow 2 64 = 2 ^ 64 := rfl
  constructor
  · intro h
    obtain ⟨s, hs⟩ := exists_utf8ByteSize (limit * 4)
    have hlarge := h s
    have hword := Nat.mod_lt (limit * 4) (show 0 < 2 ^ 64 by decide)
    rw [sampleCapacity, hs, hpow] at hlarge
    omega
  · intro hfits s
    rw [sampleCapacity, hpow, Nat.mod_eq_of_lt hfits]

end Text

/-- Checked settings ask for at least one document at a time. -/
theorem Config.pullBatchSize_pos {c : Config} (haccepted : c.validate = .ok ()) :
    1 ≤ c.processing.pullBatchSize := by
  obtain ⟨-, -, haccepted⟩ := exists_of_bind_ok haccepted
  obtain ⟨-, -, haccepted⟩ := exists_of_bind_ok haccepted
  obtain ⟨-, -, haccepted⟩ := exists_of_bind_ok haccepted
  obtain ⟨-, -, haccepted⟩ := exists_of_bind_ok haccepted
  obtain ⟨-, -, haccepted⟩ := exists_of_bind_ok haccepted
  obtain ⟨-, -, haccepted⟩ := exists_of_bind_ok haccepted
  obtain ⟨_, hbatch, -⟩ := exists_of_bind_ok haccepted
  by_cases hpos : 1 ≤ c.processing.pullBatchSize
  · exact hpos
  · simp [hpos] at hbatch

namespace Pool

variable {p : Pool} {workers capacity batch : Nat}

/-- How many documents a pull asks for, as it is counted. -/
theorem pullLimit_cases (hbatch : p.batchSize < 2 ^ 64) (hpos : 1 ≤ p.batchSize) :
    (p.pullLimit = p.batchSize + p.waiting.length ↔ p.batchSize + p.waiting.length < 2 ^ 64) ∧
      (p.pullLimit < p.waiting.length ↔ 2 ^ 64 ≤ p.batchSize + p.waiting.length) := by
  have hpow : Nat.pow 2 64 = 2 ^ 64 := rfl
  rw [pullLimit, hpow]
  constructor <;> constructor <;> intro h <;> omega

end Pool

/-- Checked settings, and a pool that is made with them, whatever it passes over: as much is set
aside for each sample as is meant exactly if four times the number of characters fits into 64 bits,
and then no sample outgrows it; a pull asks for a batch and all that it passes over exactly if there
are fewer than 2⁶⁴ of these, and for less than it passes over exactly if there are not. -/
theorem Config.numbers_fit_iff {c : Config} (haccepted : c.validate = .ok ())
    (hword : c.processing.pullBatchSize < 2 ^ 64) {workers capacity : Nat} {p : Pool}
    (hmade : (Pool.start workers capacity c.processing.pullBatchSize).SameMake p) :
    ((∀ s, Text.sampleCapacity s c.language.maxChars =
        min s.utf8ByteSize (c.language.maxChars * 4)) ↔ c.language.maxChars * 4 < 2 ^ 64) ∧
    (c.language.maxChars * 4 < 2 ^ 64 → ∀ s,
      (Text.cleanSample s c.language.maxChars).utf8ByteSize ≤
        Text.sampleCapacity s c.language.maxChars) ∧
    (p.pullLimit = c.processing.pullBatchSize + p.waiting.length ↔
      c.processing.pullBatchSize + p.waiting.length < 2 ^ 64) ∧
    (p.pullLimit < p.waiting.length ↔
      2 ^ 64 ≤ c.processing.pullBatchSize + p.waiting.length) := by
  have hpos := Config.pullBatchSize_pos haccepted
  have hbatch : p.batchSize = c.processing.pullBatchSize := by
    rw [hmade.batchSize, Pool.start, Nat.max_eq_left hpos]
  have hsample := Text.sampleCapacity_eq_iff c.language.maxChars
  have hpull := Pool.pullLimit_cases (p := p) (hbatch ▸ hword) (hbatch ▸ hpos)
  rw [hbatch] at hpull
  refine ⟨hsample, fun hfits s => ?_, hpull⟩
  rw [hsample.mpr hfits s]
  exact Text.utf8ByteSize_cleanSample_le s c.language.maxChars

/-- Settings with a number of characters and a size of batches that are as large as one likes. -/
def boundless : Config where
  dataDirectory := "/data"
  processing := { pullBatchSize := 18446744073709551615 }
  language := { maxChars := 4611686018427387904 }

/-- Their text. -/
def boundlessText : String :=
  "\x7b\"version\":\"1.0\",\"data_directory\":\"/data\"," ++
    "\"processing\":\x7b\"pull_batch_size\":18446744073709551615\x7d," ++
    "\"language\":\x7b\"max_chars\":4611686018427387904\x7d\x7d"

/-- A pool that passes over a document and has room for another. -/
def passingOver (batch : Nat) : Pool := { Pool.start 1 1 batch with waiting := ["a"] }

theorem reaches_passingOver (batch : Nat) :
    (Pool.start 1 1 batch).Reaches (passingOver batch) := by
  have hrun : (Pool.start 1 1 batch).run?
      [.claim "a", .look, .send, .record, .check 0, .take 0, .present 0, .finish 0 true,
        .release 0, .report 0, .digest] = some (passingOver batch) := rfl
  exact Pool.Reaches.refl.run hrun

/-- With a batch of a hundred the other one is within the limit. -/
theorem Config.numbers_fit_iff_usual :
    (passingOver 100).pullLimit = 101 ∧ ¬ (passingOver 100).pullLimit < 1 ∧
      ∀ s, Text.sampleCapacity s 2000 = min s.utf8ByteSize 8000 := by
  obtain ⟨hsample, -, hlimit, hless⟩ := Config.numbers_fit_iff (c := { dataDirectory := "/data" }) rfl
    (by decide) (reaches_passingOver 100).sameMake
  refine ⟨hlimit.mpr (by decide), fun h => ?_, hsample.mpr (by decide)⟩
  exact absurd (hless.mp h) (by decide)

/-- Settings are accepted with which both numbers overflow: nothing is set aside for a sample of one
character, and a pull asks for no document although one waits and there is room for it. -/
theorem Config.boundless_overflows :
    (Config.read boundlessText).toOption = some boundless ∧ boundless.validate = .ok () ∧
      ¬ boundless.language.maxChars * 4 < 2 ^ 64 ∧
      Text.sampleCapacity "a" boundless.language.maxChars = 0 ∧
      let p := passingOver boundless.processing.pullBatchSize
      (Pool.start 1 1 boundless.processing.pullBatchSize).Reaches p ∧ p.Ready ∧
        p.queueFull = false ∧
        ¬ boundless.processing.pullBatchSize + p.waiting.length < 2 ^ 64 ∧
        (∃ id ∈ Pool.twoWaiting.waitingDocuments, id ∉ p.waiting ∧ id ∉ p.claims) ∧
        (p.pull (fun limit => .ok (Pool.twoWaiting.documentsPending limit)) fun q => q).1.result =
          .ok 0 := by
  refine ⟨by decide +kernel, rfl, by decide, by decide, reaches_passingOver _, ⟨rfl, rfl⟩,
    by decide, by decide, ⟨"b", by decide, by decide, by decide⟩, ?_⟩
  have hlimit : (passingOver boundless.processing.pullBatchSize).pullLimit = 0 := by decide
  simp only [Pool.pull, hlimit, Store.documentsPending, List.take_zero]
  decide

end Docket
