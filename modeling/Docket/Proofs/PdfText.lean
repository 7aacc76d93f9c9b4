import Docket.Extract.Extractor
import Docket.Proofs.Pages

/-!
The text of PDF files.  Text that a file brings along and that can be used is taken as it is;
otherwise the pages are counted and recognized, and there is no text only if they cannot be counted or
none of them has a text.
-/

namespace Docket

namespace PageJob

variable {j : PageJob}

/-- The job for a file, by the settings. -/
def ofSettings (machine : Machine) (tools : ToolSettings) (ocr : OcrSettings)
    (path scratch : String) : PageJob where
  machine := machine
  tools := .ofSettings tools
  recognizer := .ofLanguages tools.tesseract ocr.languages
  path := path
  dpi := ocr.dpi
  scratch := scratch

/-- The call that asks for the number of pages. -/
def describing (j : PageJob) : ToolCall := ⟨j.tools.describe, [j.path]⟩

/-- The call that counts the pages. There is none for a file that has been read. -/
def counting (j : PageJob) : Option Media.PdfReading → List ToolCall
  | some _ => []
  | none => [j.describing]

/-- The number of pages, and the files after it has been found out: of a file that has been read it
is known, of another a program tells it or fails.  One page is assumed if the program does not say. -/
def count? (j : PageJob) (files : FileTree) : Option Media.PdfReading → Option Nat × FileTree
  | some reading => (some reading.pageCount, files)
  | none =>
    match j.machine.reply j.describing files with
    | (.ok description, left) =>
      (some ((PageTools.pageCount? (Text.ofUtf8Lossy description)).getD 1), left)
    | (.error _, left) => (none, left)

/-- The text of a file that has been read, or cannot be read as a PDF file. -/
def text (j : PageJob) (recognizing : Bool) (reading : Option Media.PdfReading) :
    Extraction String :=
  PdfText.ofReading j.tools (if recognizing then some j.recognizer else none) j.machine j.path j.dpi
    j.scratch reading

/-- What comes of the pages from one to the last. -/
def allPages (j : PageJob) (files : FileTree) (count : Nat) : List (Nat × PageOutcome) × FileTree :=
  j.outcomes files (List.range' 1 count)

/-- Pages are recognized if that is asked for and there is no text that can be used. -/
def NeedsPages (recognizing : Bool) (reading : Option Media.PdfReading) : Prop :=
  recognizing = true ∧ ∀ r, reading = some r → PdfText.isUseless (PdfText.embedded r) = true

/-- The pages of a file have been recognized, with this answer. -/
structure Recognized (j : PageJob) (count : Nat) (b : Bench)
    (answer : Except (Interruption ExtractError) String) (after : Bench) : Prop where
  inOrder : (j.allPages b.files count).1.map (·.1) = List.range' 1 count
  /-- Each page is drawn once, and its picture is read if there is one. -/
  calls : after.calls =
    ((j.allPages b.files count).1.flatMap fun o => j.callsFor o.1 o.2).reverse ++ b.calls
  text : (0 < count → ∃ o ∈ (j.allPages b.files count).1, o.2.text?.isSome) →
    answer = .ok (String.join ((texts (j.allPages b.files count).1).map (· ++ "\n")))
  noText : 0 < count → (∀ o ∈ (j.allPages b.files count).1, o.2.text? = none) →
    answer = .error (.error (.noPageRecognized count))
  /-- What comes of a page does not depend on the other pages, unless a program makes it so. -/
  independent : ∀ script : Nat → PageOutcome,
    (∀ files page, (j.tryPage files page).1 = script page) →
    (j.allPages b.files count).1 = (List.range' 1 count).map fun page => (page, script page)
  cleared : j.Tidy → j.RemovalsWork b.files (List.range' 1 count) →
    ∀ o ∈ (j.allPages b.files count).1, o.2.drawn = true → after.files.exists? (j.image o.1) = false

/-- The text of a file that has been read, or cannot be read as a PDF file, with this answer. -/
structure Extracted (j : PageJob) (recognizing : Bool) (reading : Option Media.PdfReading)
    (b : Bench) (answer : Except (Interruption ExtractError) String) (after : Bench) : Prop where
  /-- Text that can be used, or has to be, is the answer without the call of a program. -/
  embedded : ∀ r, reading = some r →
    recognizing = false ∨ PdfText.isUseless (PdfText.embedded r) = false →
    answer = .ok (PdfText.embedded r) ∧ after = b
  refused : reading = none → recognizing = false →
    answer = .error (.error .pdfMalformed) ∧ after = b
  uncounted : NeedsPages recognizing reading → (j.count? b.files reading).1 = none →
    (∃ e, answer = .error (.error e)) ∧ after.calls = j.describing :: b.calls
  recognized : NeedsPages recognizing reading → ∀ count, (j.count? b.files reading).1 = some count →
    j.Recognized count ⟨(j.count? b.files reading).2, j.counting reading ++ b.calls⟩ answer after

/-- There is no text: pages are recognized and none of them has one, or the file cannot be read and
its pages are not recognized or not counted. -/
def Fails (j : PageJob) (recognizing : Bool) (reading : Option Media.PdfReading)
    (files : FileTree) : Prop :=
  (NeedsPages recognizing reading ∧ ∃ count > 0, (j.count? files reading).1 = some count ∧
    ∀ o ∈ (j.allPages (j.count? files reading).2 count).1, o.2.text? = none) ∨
  (reading = none ∧ (recognizing = false ∨ (j.count? files reading).1 = none))

theorem texts_eq_nil {outcomes : List (Nat × PageOutcome)} :
    texts outcomes = [] ↔ ∀ o ∈ outcomes, o.2.text? = none := by
  simp [texts, List.filterMap_eq_nil_iff]

theorem recognized (j : PageJob) (count : Nat) (b : Bench) :
    let run := (PdfText.recognizeAll j.tools j.recognizer j.machine j.path j.dpi count
      j.scratch).run.run b
    j.Recognized count b run.1 run.2 := by
  dsimp only
  rw [recognizeAll_run, ← allPages]
  exact {
    inOrder := outcomes_pages j b.files _
    calls := rfl
    text := by
      intro hsome
      rw [if_neg]
      rintro ⟨hpos, hnone⟩
      obtain ⟨o, ho, htext⟩ := hsome hpos
      rw [texts_eq_nil.mp hnone o ho] at htext
      cases htext
    noText := fun hpos hnone => if_pos ⟨hpos, texts_eq_nil.mpr hnone⟩
    independent := fun script h => outcomes_of_script h b.files _
    cleared := fun htidy hremove => outcomes_cleared htidy List.nodup_range' hremove }

section Text

variable {recognizing : Bool} {reading : Option Media.PdfReading} {b : Bench}

theorem text_eq_embedded {r : Media.PdfReading}
    (h : recognizing = false ∨ PdfText.isUseless (PdfText.embedded r) = false) :
    j.text recognizing (some r) = pure (PdfText.embedded r) := by
  simp only [text, PdfText.ofReading]
  rcases h with rfl | h
  · cases PdfText.isUseless (PdfText.embedded r) with
    | false => rfl
    | true => rfl
  · rw [h]

section Count

variable {left : FileTree}

theorem pageCount_of_error {e : ExtractError}
    (h : j.machine.reply j.describing b.files = (.error e, left)) :
    (j.tools.pageCount j.machine j.path).run.run b =
      (.error (.error e), ⟨left, j.describing :: b.calls⟩) := by
  have hrun := Extraction.runTool_bind_of_error (fun description =>
    (pure ((PageTools.pageCount? (Text.ofUtf8Lossy description)).getD 1) : Extraction Nat)) h
  exact hrun

theorem pageCount_of_ok {description : ByteArray}
    (h : j.machine.reply j.describing b.files = (.ok description, left)) :
    (j.tools.pageCount j.machine j.path).run.run b =
      (.ok ((PageTools.pageCount? (Text.ofUtf8Lossy description)).getD 1),
        ⟨left, j.describing :: b.calls⟩) := by
  have hrun := Extraction.runTool_bind_of_ok (fun description =>
    (pure ((PageTools.pageCount? (Text.ofUtf8Lossy description)).getD 1) : Extraction Nat)) h
  exact hrun

end Count

/-- Without a number of pages there is no text. -/
theorem text_of_uncounted (h : NeedsPages recognizing reading)
    (hcount : (j.count? b.files reading).1 = none) :
    ∃ e, (j.text recognizing reading).run.run b =
      (.error (.error e), ⟨(j.count? b.files reading).2, j.describing :: b.calls⟩) := by
  obtain ⟨rfl, -⟩ := h
  cases reading with
  | some r => cases hcount
  | none =>
      rcases hreply : j.machine.reply j.describing b.files with ⟨e | description, left⟩
      · refine ⟨e, ?_⟩
        simp only [text, PdfText.ofReading, count?, hreply, if_pos]
        exact Extraction.run_bind_of_error (pageCount_of_error hreply)
      · simp [count?, hreply] at hcount

/-- The pages are counted and then recognized. -/
theorem text_of_counted (h : NeedsPages recognizing reading) {count : Nat}
    (hcount : (j.count? b.files reading).1 = some count) :
    (j.text recognizing reading).run.run b =
      (PdfText.recognizeAll j.tools j.recognizer j.machine j.path j.dpi count j.scratch).run.run
        ⟨(j.count? b.files reading).2, j.counting reading ++ b.calls⟩ := by
  obtain ⟨rfl, huseless⟩ := h
  cases reading with
  | some r =>
      obtain rfl : r.pageCount = count := Option.some.inj hcount
      simp only [text, PdfText.ofReading, huseless r rfl, if_pos]
      rfl
  | none =>
      rcases hreply : j.machine.reply j.describing b.files with ⟨e | description, left⟩
      · simp [count?, hreply] at hcount
      · simp only [count?, hreply, Option.some.injEq] at hcount ⊢
        subst hcount
        simp only [text, PdfText.ofReading, if_pos]
        exact Extraction.run_bind_of_ok (pageCount_of_ok hreply)

theorem extracted (j : PageJob) (recognizing : Bool) (reading : Option Media.PdfReading)
    (b : Bench) :
    j.Extracted recognizing reading b ((j.text recognizing reading).run.run b).1
      ((j.text recognizing reading).run.run b).2 where
  embedded := by
    rintro r rfl h
    rw [text_eq_embedded h]
    exact ⟨rfl, rfl⟩
  refused := by
    rintro rfl rfl
    exact ⟨rfl, rfl⟩
  uncounted := by
    intro h hcount
    obtain ⟨e, hrun⟩ := text_of_uncounted h hcount
    rw [hrun]
    exact ⟨⟨e, rfl⟩, rfl⟩
  recognized := by
    intro h count hcount
    rw [text_of_counted h hcount]
    exact j.recognized count _

variable {answer : Except (Interruption ExtractError) String} {after : Bench}

theorem Recognized.fails_iff {count : Nat} (h : j.Recognized count b answer after) :
    (∃ i, answer = .error i) ↔
      0 < count ∧ ∀ o ∈ (j.allPages b.files count).1, o.2.text? = none := by
  constructor
  · rintro ⟨i, hi⟩
    by_contra hsome
    have htext := h.text fun hpos => by
      by_contra hnone
      refine hsome ⟨hpos, fun o ho => ?_⟩
      rw [Option.eq_none_iff_forall_not_mem]
      exact fun text htext => hnone ⟨o, ho, Option.isSome_of_mem htext⟩
    rw [hi] at htext
    cases htext
  · exact fun hnone => ⟨_, h.noText hnone.1 hnone.2⟩

theorem Extracted.fails_iff (h : j.Extracted recognizing reading b answer after) :
    (∃ i, answer = .error i) ↔ j.Fails recognizing reading b.files := by
  by_cases hneeds : NeedsPages recognizing reading
  · cases hcount : (j.count? b.files reading).1 with
    | none =>
        obtain ⟨⟨e, he⟩, -⟩ := h.uncounted hneeds hcount
        have hreading : reading = none := by
          cases reading with
          | none => rfl
          | some r => cases hcount
        exact iff_of_true ⟨_, he⟩ (.inr ⟨hreading, .inr hcount⟩)
    | some count =>
        rw [(h.recognized hneeds count hcount).fails_iff]
        constructor
        · exact fun hnone => .inl ⟨hneeds, count, hnone.1, hcount, hnone.2⟩
        · rintro (⟨-, other, hpos, hother, hnone⟩ | ⟨-, hoff | hnone⟩)
          · obtain rfl : count = other := Option.some.inj (hcount.symm.trans hother)
            exact ⟨hpos, hnone⟩
          · rw [hneeds.1] at hoff
            cases hoff
          · rw [hcount] at hnone
            cases hnone
  · cases reading with
    | none =>
        have hoff : recognizing = false := by
          rw [Bool.eq_false_iff]
          exact fun hon => hneeds ⟨hon, by rintro r ⟨⟩⟩
        exact iff_of_true ⟨_, (h.refused rfl hoff).1⟩ (.inr ⟨rfl, .inl hoff⟩)
    | some r =>
        have husable : recognizing = false ∨ PdfText.isUseless (PdfText.embedded r) = false := by
          rw [Bool.eq_false_iff, Bool.eq_false_iff, ← not_and_or]
          rintro ⟨hon, huseless⟩
          exact hneeds ⟨hon, by rintro _ ⟨⟩; exact huseless⟩
        refine iff_of_false ?_ ?_
        · rintro ⟨i, hi⟩
          rw [(h.embedded r rfl husable).1] at hi
          cases hi
        · rintro (⟨hneeds', -⟩ | ⟨hreading, -⟩)
          · exact hneeds hneeds'
          · cases hreading

end Text

end PageJob

/-- The text of a PDF file is that of the pages that can be read ... -/
theorem Extractor.extractWith_pdf (machine : Machine) (tools : ToolSettings) (ocr : OcrSettings)
    (path scratch : String) {b : Bench} {content : ByteArray}
    (hread : b.files.read path = .ok content) :
    (Extractor.extractWith (Extractor.all machine tools ocr) path "application/pdf"
        scratch).run.run b =
      ((PageJob.ofSettings machine tools ocr path scratch).text ocr.enabled
        (Media.readPdf? content)).run.run b := by
  have hfind : Extractor.find? (Extractor.all machine tools ocr) "application/pdf" =
      some (Extractor.pdf machine (.ofSettings tools)
        (if ocr.enabled then some (Recognizer.ofLanguages tools.tesseract ocr.languages) else none)
        ocr.dpi) := by
    simp [Extractor.find?, Extractor.all, Extractor.pdf]
  have hdocument : (Extraction.readDocument path).run.run b = (.ok content, b) := by
    unfold Extraction.readDocument
    rw [Extraction.run_files_bind, hread]
    rfl
  unfold Extractor.extractWith
  rw [hfind]
  exact Extraction.run_bind_of_ok hdocument

/-- The text of a PDF file that can be read from the disk, whatever becomes of each call of a
program and whatever the file turns out to be: nothing is called for text that can be used; otherwise
every page is tried, and the text is that of the pages that have one. -/
theorem Extractor.pdf_pages_recognized (machine : Machine) (tools : ToolSettings)
    (ocr : OcrSettings) (path scratch : String) {b : Bench} {content : ByteArray}
    (hread : b.files.read path = .ok content) :
    let j := PageJob.ofSettings machine tools ocr path scratch
    (Extractor.extractWith (Extractor.all machine tools ocr) path "application/pdf"
      scratch).run.run b = (j.text ocr.enabled (Media.readPdf? content)).run.run b ∧
    ∀ reading : Option Media.PdfReading,
      j.Extracted ocr.enabled reading b ((j.text ocr.enabled reading).run.run b).1
        ((j.text ocr.enabled reading).run.run b).2 ∧
      ((∃ i, ((j.text ocr.enabled reading).run.run b).1 = .error i) ↔
        j.Fails ocr.enabled reading b.files) := by
  intro j
  refine ⟨extractWith_pdf machine tools ocr path scratch hread, fun reading => ?_⟩
  have hextracted := j.extracted ocr.enabled reading b
  exact ⟨hextracted, hextracted.fails_iff⟩

/-- Programs that count two pages, of which they can draw the first. -/
def halfPrinted : Machine := fun call files =>
  if call = ⟨"pdftoppm", ["-png", "-r", "300", "-f", "1", "-l", "1", "-singlefile", "/in.pdf",
      "/page-1"]⟩ then
    (files.write "/page-1.png" .empty).map fun left => ⟨0, .empty, .empty, left⟩
  else if call.program = "pdfinfo" then .ok ⟨0, "Pages: 2\n".toUTF8, .empty, files⟩
  else if call.program = "tesseract" then .ok ⟨0, "one".toUTF8, .empty, files⟩
  else .error .notFound

/-- To recognize the pages of a file with these programs. -/
def halfPrintedJob : PageJob := .ofSettings halfPrinted default default "/in.pdf" "/"

/-- A file that has no page that can be read without a program. -/
def scanned : Bench := ⟨⟨[(["in.pdf"], .file .empty)]⟩, []⟩

theorem tidy_halfPrintedJob : halfPrintedJob.Tidy := by
  refine PageJob.Tidy.of_writes (by decide) ?_
  intro call files run hrun
  simp only [halfPrintedJob, PageJob.ofSettings, halfPrinted] at hrun
  split at hrun
  · next hcall =>
      cases hwrite : files.write "/page-1.png" .empty with
      | error fault =>
          rw [hwrite] at hrun
          cases hrun
      | ok left =>
          rw [hwrite] at hrun
          cases hrun
          exact .inr ⟨1, .empty, hcall, hwrite⟩
  · split at hrun
    · cases hrun
      exact .inl rfl
    · split at hrun
      · cases hrun
        exact .inl rfl
      · cases hrun

theorem Extractor.pdf_pages_recognized_half_printed :
    scanned.files.read "/in.pdf" = .ok .empty ∧ halfPrintedJob.Tidy ∧
    halfPrintedJob.RemovalsWork scanned.files [1, 2] ∧
    ((Extractor.extractWith (Extractor.all halfPrinted default default) "/in.pdf" "application/pdf"
      "/").run.run scanned).1 = .ok "one\n" ∧
    ((Extractor.extractWith (Extractor.all halfPrinted default default) "/in.pdf" "application/pdf"
      "/").run.run scanned).2.files.exists? "/page-1.png" = false := by
  have hread : scanned.files.read "/in.pdf" = .ok .empty := rfl
  have hreading : Media.readPdf? .empty = none := by decide +kernel
  have hcount : (halfPrintedJob.count? scanned.files none).1 = some 2 := by decide +kernel
  have hleft : (halfPrintedJob.count? scanned.files none).2 = scanned.files := by rfl
  have hpages : (halfPrintedJob.allPages scanned.files 2).1 =
      [(1, .read "one"), (2, .notDrawn)] := by decide +kernel
  have hremovals : halfPrintedJob.RemovalsWork scanned.files [1, 2] := by
    refine ⟨fun _ _ => ?_, fun hdrawn => absurd hdrawn (by decide +kernel), trivial⟩
    have hremovable : ((halfPrintedJob.tryPage scanned.files 1).2.remove
        (halfPrintedJob.image 1)).isOk = true := by decide +kernel
    cases hremove : (halfPrintedJob.tryPage scanned.files 1).2.remove (halfPrintedJob.image 1) with
    | ok left => exact ⟨left, rfl⟩
    | error fault =>
        rw [hremove] at hremovable
        cases hremovable
  obtain ⟨hrun, hall⟩ :=
    Extractor.pdf_pages_recognized halfPrinted default default "/in.pdf" "/" hread
  have hdone := (hall none).1.recognized ⟨rfl, by rintro r ⟨⟩⟩ 2 hcount
  rw [hreading] at hrun
  rw [hrun]
  refine ⟨hread, tidy_halfPrintedJob, hremovals, ?_, ?_⟩
  · refine (hdone.text fun _ => ?_).trans ?_
    · rw [← halfPrintedJob, hleft, hpages]
      exact ⟨_, List.mem_cons_self, rfl⟩
    · rw [← halfPrintedJob, hleft, hpages]
      rfl
  · refine hdone.cleared tidy_halfPrintedJob ?_ (1, .read "one") ?_ rfl
    · rw [← halfPrintedJob, hleft]
      exact hremovals
    · rw [← halfPrintedJob, hleft, hpages]
      exact List.mem_cons_self

end Docket
