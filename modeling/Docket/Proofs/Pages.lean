import Docket.Extract.Pages
import Docket.Proofs.Files
import Docket.Proofs.Paths

/-!
Recognizing the pages of a file.  Every page is drawn and, if that succeeds, its picture is read
and removed; what comes of one page is added to the text or missing from it, and does not keep the
others from being tried.
-/

namespace Docket

/-! ### Extractions as functions of the bench -/

namespace Extraction

variable {α β : Type} {b b' : Bench}

theorem run_bind_of_ok {x : Extraction α} {f : α → Extraction β} {a : α}
    (hx : x.run.run b = (.ok a, b')) : (x >>= f).run.run b = (f a).run.run b' := by
  change (ExceptT.bindCont f (x.run.run b).1).run (x.run.run b).2 = _
  rw [hx]
  rfl

theorem run_bind_of_error {x : Extraction α} {f : α → Extraction β} {i : Interruption ExtractError}
    (hx : x.run.run b = (.error i, b')) : (x >>= f).run.run b = (.error i, b') := by
  change (ExceptT.bindCont f (x.run.run b).1).run (x.run.run b).2 = _
  rw [hx]
  rfl

theorem run_files_bind (f : FileTree → Extraction α) :
    (files >>= f).run.run b = (f b.files).run.run b :=
  run_bind_of_ok rfl

theorem run_modify_bind (g : Bench → Bench) (f : Unit → Extraction α) :
    ((modify g : Extraction Unit) >>= f).run.run b = (f ()).run.run (g b) :=
  run_bind_of_ok rfl

theorem run_attempt {x : Extraction α} {r : Except ExtractError α}
    (hx : x.run.run b = (r.mapError .error, b')) : x.attempt.run.run b = (.ok r, b') := by
  simp only [attempt, ExceptT.run_mk, StateT.run_bind, hx]
  cases r with
  | ok a => rfl
  | error e => rfl

end Extraction

/-- What a program answers to a call, and the files that it leaves. -/
def Machine.reply (machine : Machine) (call : ToolCall) (files : FileTree) :
    Except ExtractError ByteArray × FileTree :=
  match machine call files with
  | .error fault => (.error (.toolMissing call.program fault), files)
  | .ok run =>
    (if run.exitCode = 0 then .ok run.stdout
      else .error (.toolFailed call.program run.exitCode (Text.trim (Text.ofUtf8Lossy run.stderr))),
      run.files)

theorem Extraction.runTool_run (machine : Machine) (call : ToolCall) (b : Bench) :
    (Extraction.runTool machine call.program call.arguments).run.run b =
      ((machine.reply call b.files).1.mapError .error,
        ⟨(machine.reply call b.files).2, call :: b.calls⟩) := by
  unfold Extraction.runTool Machine.reply
  rw [Extraction.run_modify_bind, Extraction.run_files_bind]
  dsimp only
  cases hrun : machine call b.files with
  | error fault => rfl
  | ok run =>
      dsimp only
      rw [Extraction.run_modify_bind]
      split
      · rfl
      · rfl

section Reply

variable {α : Type} {machine : Machine} {call : ToolCall} {b : Bench} {left : FileTree}

theorem Extraction.runTool_bind_of_ok {output : ByteArray} (f : ByteArray → Extraction α)
    (h : machine.reply call b.files = (.ok output, left)) :
    (Extraction.runTool machine call.program call.arguments >>= f).run.run b =
      (f output).run.run ⟨left, call :: b.calls⟩ := by
  apply Extraction.run_bind_of_ok
  rw [Extraction.runTool_run, h]
  rfl

theorem Extraction.runTool_bind_of_error {e : ExtractError} (f : ByteArray → Extraction α)
    (h : machine.reply call b.files = (.error e, left)) :
    (Extraction.runTool machine call.program call.arguments >>= f).run.run b =
      (.error (.error e), ⟨left, call :: b.calls⟩) := by
  apply Extraction.run_bind_of_error
  rw [Extraction.runTool_run, h]
  rfl

end Reply

/-! ### What comes of a page -/

/-- What recognizing the pages of a file depends on. -/
structure PageJob where
  machine : Machine
  tools : PageTools
  recognizer : Recognizer
  /-- The file. -/
  path : String
  dpi : Nat
  /-- The directory for pictures of pages. -/
  scratch : String

/-- What comes of a page: no picture, a picture that cannot be read, or a text. -/
inductive PageOutcome where
  | notDrawn
  | notRead
  | read (text : String)
deriving DecidableEq

/-- Whether there is a picture of the page. -/
def PageOutcome.drawn : PageOutcome → Bool
  | .notDrawn => false
  | .notRead | .read _ => true

def PageOutcome.text? : PageOutcome → Option String
  | .notDrawn | .notRead => none
  | .read text => some text

/-- The tree without a file, if it can be removed. -/
def FileTree.without (t : FileTree) (path : String) : FileTree := (t.remove path).toOption.getD t

namespace PageJob

variable (j : PageJob) (files : FileTree) (page : Nat)

/-- The path of the picture of a page, without its extension. -/
def stem : String := Text.joinPath j.scratch ("page-" ++ toString page)

def image : String := j.stem page ++ ".png"

/-- The call that draws a page. -/
def drawing : ToolCall := ⟨j.tools.draw, ["-png", "-r", toString j.dpi, "-f", toString page, "-l",
  toString page, "-singlefile", j.path, j.stem page]⟩

/-- The call that reads the picture of a page. -/
def reading : ToolCall :=
  ⟨j.recognizer.program, [j.image page, "stdout", "-l", j.recognizer.languages]⟩

/-- Draw a page and read its picture, if there is one then. The files are those before the picture
is removed. -/
def tryPage : PageOutcome × FileTree :=
  match j.machine.reply (j.drawing page) files with
  | (.error _, left) => (.notDrawn, left)
  | (.ok _, left) =>
    if left.exists? (j.image page) then
      match j.machine.reply (j.reading page) left with
      | (.error _, left) => (.notRead, left)
      | (.ok text, left) => (.read (Text.ofUtf8Lossy text), left)
    else (.notDrawn, left)

/-- The files that a page leaves. Where there was a picture to be read it is removed. -/
def leave : FileTree :=
  if (j.tryPage files page).1.drawn then (j.tryPage files page).2.without (j.image page)
  else (j.tryPage files page).2

/-- The calls that are made for a page: one that draws it, and one that reads the picture if there
is one. -/
def callsFor (o : PageOutcome) : List ToolCall :=
  if o.drawn then [j.drawing page, j.reading page] else [j.drawing page]

section Page

variable {j files page} {b : Bench} {left : FileTree}

theorem tryPage_of_error {e : ExtractError}
    (hdraw : j.machine.reply (j.drawing page) files = (.error e, left)) :
    j.tryPage files page = (.notDrawn, left) := by
  simp only [tryPage, hdraw]

theorem tryPage_of_missing {output : ByteArray}
    (hdraw : j.machine.reply (j.drawing page) files = (.ok output, left))
    (hthere : left.exists? (j.image page) = false) :
    j.tryPage files page = (.notDrawn, left) := by
  simp [tryPage, hdraw, hthere]

theorem tryPage_of_drawn {output : ByteArray}
    (hdraw : j.machine.reply (j.drawing page) files = (.ok output, left))
    (hthere : left.exists? (j.image page) = true) :
    (j.tryPage files page).1.drawn = true ∧
      (j.tryPage files page).1.text? =
        (j.machine.reply (j.reading page) left).1.toOption.map Text.ofUtf8Lossy ∧
      (j.tryPage files page).2 = (j.machine.reply (j.reading page) left).2 := by
  rcases hread : j.machine.reply (j.reading page) left with ⟨e | text, left'⟩
  · simp [tryPage, hdraw, hthere, hread, PageOutcome.drawn, PageOutcome.text?, Except.toOption]
  · simp [tryPage, hdraw, hthere, hread, PageOutcome.drawn, PageOutcome.text?, Except.toOption]

theorem drawPage_of_error {e : ExtractError}
    (h : j.machine.reply (j.drawing page) b.files = (.error e, left)) :
    (j.tools.drawPage j.machine j.path j.dpi page j.scratch).run.run b =
      (.error (.error e), ⟨left, j.drawing page :: b.calls⟩) := by
  have hrun := Extraction.runTool_bind_of_error (fun _ => PageTools.drawn (j.stem page)) h
  exact hrun

theorem drawPage_of_ok {output : ByteArray}
    (h : j.machine.reply (j.drawing page) b.files = (.ok output, left)) :
    (j.tools.drawPage j.machine j.path j.dpi page j.scratch).run.run b =
      (if left.exists? (j.image page) then .ok (j.image page)
        else .error (.error (.pageNotDrawn (j.image page))),
        ⟨left, j.drawing page :: b.calls⟩) := by
  refine (Extraction.runTool_bind_of_ok _ h).trans ?_
  unfold PageTools.drawn
  dsimp only
  rw [Extraction.run_files_bind]
  change (if left.exists? (j.image page) = true then _ else _ : Extraction String).run.run _ = _
  split
  · rfl
  · rfl

theorem recognize_run (hthere : b.files.exists? (j.image page) = true) :
    ∃ r : Except ExtractError String,
      (j.recognizer.recognize j.machine (j.image page)).run.run b = (r.mapError .error,
        ⟨(j.machine.reply (j.reading page) b.files).2, j.reading page :: b.calls⟩) ∧
      r.toOption = (j.machine.reply (j.reading page) b.files).1.toOption.map Text.ofUtf8Lossy := by
  let decoded : ByteArray → Extraction String := fun text => return Text.ofUtf8Lossy text
  unfold Recognizer.recognize
  rw [Extraction.run_files_bind, hthere]
  rcases hreply : j.machine.reply (j.reading page) b.files with ⟨e | text, left⟩
  · have hrun := Extraction.runTool_bind_of_error decoded hreply
    exact ⟨.error e, hrun, rfl⟩
  · have hrun := Extraction.runTool_bind_of_ok decoded hreply
    exact ⟨.ok (Text.ofUtf8Lossy text), hrun, rfl⟩

/-- One page is drawn and read, and answers with its text if there is one. -/
theorem recognizePage_run :
    ∃ r : Except ExtractError String,
      (PdfText.recognizePage j.tools j.recognizer j.machine j.path j.dpi page j.scratch).run.run b =
        (r.mapError .error, ⟨j.leave b.files page,
          (j.callsFor page (j.tryPage b.files page).1).reverse ++ b.calls⟩) ∧
      r.toOption = (j.tryPage b.files page).1.text? := by
  unfold PdfText.recognizePage
  rcases hdraw : j.machine.reply (j.drawing page) b.files with ⟨e | output, left⟩
  · have htry := tryPage_of_error hdraw
    refine ⟨.error e, ?_, by rw [htry]; rfl⟩
    rw [Extraction.run_bind_of_error (drawPage_of_error hdraw)]
    simp [leave, callsFor, htry, PageOutcome.drawn, Except.mapError]
  have hdrawn := drawPage_of_ok hdraw
  cases hthere : left.exists? (j.image page) with
  | false =>
      have htry := tryPage_of_missing hdraw hthere
      rw [hthere] at hdrawn
      refine ⟨.error (.pageNotDrawn (j.image page)), ?_, by rw [htry]; rfl⟩
      rw [Extraction.run_bind_of_error hdrawn]
      simp [leave, callsFor, htry, PageOutcome.drawn, Except.mapError]
  | true =>
      obtain ⟨hpage, htext, hleft⟩ := tryPage_of_drawn hdraw hthere
      rw [hthere] at hdrawn
      obtain ⟨r, hread, hr⟩ := @recognize_run j page ⟨left, j.drawing page :: b.calls⟩ hthere
      refine ⟨r, ?_, hr.trans htext.symm⟩
      rw [Extraction.run_bind_of_ok hdrawn,
        Extraction.run_bind_of_ok (Extraction.run_attempt hread),
        Extraction.run_modify_bind]
      simp only [leave, callsFor, if_pos hpage, hleft]
      cases r with
      | ok text => rfl
      | error e => rfl

end Page

/-! ### What comes of all pages -/

/-- What comes of pages one after the other, and the files that are left. -/
def outcomes (j : PageJob) (files : FileTree) : List Nat → List (Nat × PageOutcome) × FileTree
  | [] => ([], files)
  | page :: rest =>
    let others := j.outcomes (j.leave files page) rest
    ((page, (j.tryPage files page).1) :: others.1, others.2)

@[simp]
theorem outcomes_nil (j : PageJob) (files : FileTree) : j.outcomes files [] = ([], files) := rfl

theorem outcomes_cons (j : PageJob) (files : FileTree) (page : Nat) (rest : List Nat) :
    j.outcomes files (page :: rest) =
      ((page, (j.tryPage files page).1) :: (j.outcomes (j.leave files page) rest).1,
        (j.outcomes (j.leave files page) rest).2) := rfl

/-- The texts of the pages that have one. -/
def texts (outcomes : List (Nat × PageOutcome)) : List String := outcomes.filterMap (·.2.text?)

theorem recognizeFrom_run (j : PageJob) (first count : Nat) (b : Bench) :
    (PdfText.recognizeFrom j.tools j.recognizer j.machine j.path j.dpi j.scratch first
        count).run.run b =
      (.ok (texts (j.outcomes b.files (List.range' first count)).1),
        ⟨(j.outcomes b.files (List.range' first count)).2,
          ((j.outcomes b.files (List.range' first count)).1.flatMap fun o =>
            j.callsFor o.1 o.2).reverse ++ b.calls⟩) := by
  -- Whatever came of the first page, the others start from the files that it has left.
  induction count generalizing first b with
  | zero => rfl
  | succ count ih =>
      obtain ⟨r, hpage, hr⟩ := @recognizePage_run j first b
      rw [PdfText.recognizeFrom, Extraction.run_bind_of_ok (Extraction.run_attempt hpage),
        Extraction.run_bind_of_ok (ih _ _), List.range'_succ, outcomes]
      cases r with
      | ok text =>
          simp only [texts, List.filterMap_cons, ← hr, Except.toOption, List.flatMap_cons,
            List.reverse_append, List.append_assoc]
          rfl
      | error e =>
          simp only [texts, List.filterMap_cons, ← hr, Except.toOption, List.flatMap_cons,
            List.reverse_append, List.append_assoc]
          rfl

/-- All pages: the answer is the texts that there are, each with a line feed behind it, unless there
are pages and none of them has a text. -/
theorem recognizeAll_run (j : PageJob) (count : Nat) (b : Bench) :
    (PdfText.recognizeAll j.tools j.recognizer j.machine j.path j.dpi count j.scratch).run.run b =
      (if 0 < count ∧ texts (j.outcomes b.files (List.range' 1 count)).1 = [] then
          .error (.error (.noPageRecognized count))
        else .ok (String.join
          ((texts (j.outcomes b.files (List.range' 1 count)).1).map (· ++ "\n"))),
        ⟨(j.outcomes b.files (List.range' 1 count)).2,
          ((j.outcomes b.files (List.range' 1 count)).1.flatMap fun o =>
            j.callsFor o.1 o.2).reverse ++ b.calls⟩) := by
  rw [PdfText.recognizeAll, Extraction.run_bind_of_ok (recognizeFrom_run j 1 count b)]
  simp only [List.isEmpty_iff]
  split
  · rfl
  · rfl

/-! ### Pictures that are left -/

/-- No program makes the picture of a page but the one that is called to draw the page. -/
def Tidy (j : PageJob) : Prop :=
  ∀ call files run page, j.machine call files = .ok run →
    run.files.exists? (j.image page) = true →
    files.exists? (j.image page) = true ∨ call = j.drawing page

/-- Where a picture is still there after it has been read, it can be removed. -/
def RemovalsWork (j : PageJob) : FileTree → List Nat → Prop
  | _, [] => True
  | files, page :: rest =>
    ((j.tryPage files page).1.drawn = true →
      (j.tryPage files page).2.exists? (j.image page) = true →
      ∃ left, (j.tryPage files page).2.remove (j.image page) = .ok left) ∧
    j.RemovalsWork (j.leave files page) rest

end PageJob

namespace FileTree

variable {t u : FileTree} {path : String}

/-- A file that was removed, if it was there, is not there. -/
theorem exists?_without_self (h : t.exists? path = true → ∃ u, t.remove path = .ok u) :
    (t.without path).exists? path = false := by
  cases hremove : t.remove path with
  | ok u =>
      have hwithout : t.without path = u := by rw [without, hremove]; rfl
      exact hwithout ▸ exists?_remove_self hremove
  | error fault =>
      have hwithout : t.without path = t := by rw [without, hremove]; rfl
      rw [hwithout, Bool.eq_false_iff]
      intro hthere
      obtain ⟨u, hu⟩ := h hthere
      rw [hremove] at hu
      cases hu

theorem exists?_of_without {other : String} (h : (t.without path).exists? other = true) :
    t.exists? other = true := by
  cases hremove : t.remove path with
  | ok u =>
      rw [without, hremove] at h
      exact exists?_of_remove hremove h
  | error fault =>
      rw [without, hremove] at h
      exact h

end FileTree

namespace PageJob

variable {j : PageJob} {files : FileTree} {page other : Nat}

theorem page_eq_of_numeral (h : toString page = toString other) : page = other := by
  have hread : ∀ n : Nat, Nat.ofDigitChars 10 (toString n).toList 0 = n := fun n => by
    simp [toString, Nat.repr, Nat.ofDigitChars_toDigits]
  rw [← hread page, h, hread other]

theorem drawing_injective (h : j.drawing page = j.drawing other) : page = other := by
  simp only [drawing, ToolCall.mk.injEq, List.cons.injEq, true_and] at h
  exact page_eq_of_numeral h.1

theorem reading_ne_drawing : j.reading page ≠ j.drawing other := by
  simp [reading, drawing]

/-- The name of the picture of a page. -/
def pictureName (page : Nat) : String := "page-" ++ toString page ++ ".png"

theorem pictureName_injective (h : pictureName page = pictureName other) : page = other := by
  have hlist := congrArg String.toList h
  simp only [pictureName, String.toList_append, List.append_cancel_right_eq,
    List.append_cancel_left_eq, String.toList_inj] at hlist
  exact page_eq_of_numeral hlist

theorem isName_pictureName (page : Nat) : Text.IsName (pictureName page) where
  noSlash := by
    have hdigit : '/' ∉ Nat.toDigits 10 page := fun h =>
      absurd (Nat.isDigit_of_mem_toDigits (by decide) (by decide) h) (by decide)
    simp [pictureName, hdigit]
  notIdle := by simp [pictureName, Text.isIdlePiece]
  notUp := by
    intro h
    have hlist := congrArg String.toList h
    simp [pictureName] at hlist

theorem image_eq (j : PageJob) (page : Nat) :
    j.image page = Text.joinPath j.scratch (pictureName page) := by
  have hstem : Text.isAbsolute ("page-" ++ toString page) = false := by simp [Text.isAbsolute]
  have hname : Text.isAbsolute (pictureName page) = false := by simp [Text.isAbsolute, pictureName]
  simp only [image, stem, Text.joinPath, hstem, hname, Bool.false_or]
  split
  · rfl
  · split
    · simp [pictureName, String.append_assoc]
    · simp [pictureName, String.append_assoc]

/-- The pictures of two pages do not lie at one place. -/
theorem page_eq_of_locate (hscratch : j.scratch ≠ "") {place : Place}
    (hpage : files.locate (j.image page) = .ok place)
    (hother : files.locate (j.image other) = .ok place) : page = other := by
  have hlast : ∀ n, files.locate (j.image n) = .ok place →
      ∃ here, files.walk [] ((Text.pathComponents j.scratch.toList).map String.ofList) = .ok here ∧
        place = here ++ [pictureName n] := by
    intro n hn
    obtain ⟨-, -, hwalk⟩ := FileTree.locate_eq_ok.mp hn
    rw [image_eq, Text.pathComponents_joinPath hscratch (isName_pictureName n), List.map_append,
      List.map_singleton, String.ofList_toList] at hwalk
    obtain ⟨here, hhere, hname⟩ := FileTree.exists_walk_append hwalk
    exact ⟨here, hhere, FileTree.walk_names (by simp [(isName_pictureName n).notUp]) hname⟩
  obtain ⟨here, hhere, hplace⟩ := hlast page hpage
  obtain ⟨there, hthere, hplace'⟩ := hlast other hother
  obtain rfl : here = there := Except.ok.inj (hhere.symm.trans hthere)
  exact pictureName_injective (by simpa using hplace.symm.trans hplace')

/-- Programs are tidy that write nothing but the pictures they are to draw. -/
theorem Tidy.of_writes (hscratch : j.scratch ≠ "")
    (h : ∀ call files run, j.machine call files = .ok run → run.files = files ∨
      ∃ page content, call = j.drawing page ∧ files.write (j.image page) content = .ok run.files) :
    j.Tidy := by
  intro call files run page hrun hthere
  obtain hkept | ⟨drawn, content, hcall, hwrite⟩ := h call files run hrun
  · exact .inl (hkept ▸ hthere)
  · refine (FileTree.exists?_of_write hwrite hthere).imp_right ?_
    rintro ⟨place, hdrawn, hpage⟩
    rw [hcall, page_eq_of_locate hscratch hdrawn hpage]

/-- A call leaves only pictures that were there, except the one that it is to draw. -/
theorem Tidy.reply (h : j.Tidy) {call : ToolCall}
    (hthere : (j.machine.reply call files).2.exists? (j.image page) = true) :
    files.exists? (j.image page) = true ∨ call = j.drawing page := by
  unfold Machine.reply at hthere
  cases hrun : j.machine call files with
  | error fault =>
      rw [hrun] at hthere
      exact .inl hthere
  | ok run =>
      rw [hrun] at hthere
      exact h call files run page hrun hthere

theorem Tidy.tryPage (h : j.Tidy)
    (hthere : (j.tryPage files page).2.exists? (j.image other) = true) :
    files.exists? (j.image other) = true ∨ page = other := by
  have hdrawn : (j.machine.reply (j.drawing page) files).2.exists? (j.image other) = true →
      files.exists? (j.image other) = true ∨ page = other := fun hleft =>
    (h.reply hleft).imp_right drawing_injective
  rcases hdraw : j.machine.reply (j.drawing page) files with ⟨e | output, left⟩
  · rw [hdraw] at hdrawn
    rw [tryPage_of_error hdraw] at hthere
    exact hdrawn hthere
  · rw [hdraw] at hdrawn
    apply hdrawn
    by_cases hpicture : left.exists? (j.image page) = true
    · rw [(tryPage_of_drawn hdraw hpicture).2.2] at hthere
      exact (h.reply hthere).resolve_right reading_ne_drawing
    · rw [tryPage_of_missing hdraw (Bool.eq_false_iff.mpr hpicture)] at hthere
      exact hthere

/-- What is not there before a page is tried, and is not its picture, is not there afterwards. -/
theorem Tidy.leave (h : j.Tidy) (habsent : files.exists? (j.image other) = false)
    (hne : page ≠ other) : (j.leave files page).exists? (j.image other) = false := by
  have htried : (j.tryPage files page).2.exists? (j.image other) = false := by
    rw [Bool.eq_false_iff] at habsent ⊢
    exact fun hthere => (h.tryPage hthere).elim habsent hne
  unfold PageJob.leave
  split
  · rw [Bool.eq_false_iff] at htried ⊢
    exact fun hthere => htried (FileTree.exists?_of_without hthere)
  · exact htried

/-- A picture that was read is not there afterwards. -/
theorem leave_self (hdrawn : (j.tryPage files page).1.drawn = true)
    (hremove : (j.tryPage files page).2.exists? (j.image page) = true →
      ∃ left, (j.tryPage files page).2.remove (j.image page) = .ok left) :
    (j.leave files page).exists? (j.image page) = false := by
  rw [PageJob.leave, if_pos hdrawn]
  exact FileTree.exists?_without_self hremove

variable {pages : List Nat}

theorem Tidy.outcomes (h : j.Tidy) (habsent : files.exists? (j.image other) = false)
    (hnew : other ∉ pages) :
    (j.outcomes files pages).2.exists? (j.image other) = false := by
  induction pages generalizing files with
  | nil => exact habsent
  | cons page rest ih =>
      obtain ⟨hne, hrest⟩ := not_or.mp (mt List.mem_cons.mpr hnew)
      exact ih (h.leave habsent (Ne.symm hne)) hrest

/-- After all pages no picture is there that was read. -/
theorem outcomes_cleared (h : j.Tidy) (hnodup : pages.Nodup)
    (hremove : j.RemovalsWork files pages) :
    ∀ o ∈ (j.outcomes files pages).1, o.2.drawn = true →
      (j.outcomes files pages).2.exists? (j.image o.1) = false := by
  induction pages generalizing files with
  | nil => simp
  | cons page rest ih =>
      obtain ⟨hnew, hnodup⟩ := List.nodup_cons.mp hnodup
      obtain ⟨hfirst, hothers⟩ := hremove
      rw [outcomes_cons]
      intro o ho hdrawn
      rcases List.mem_cons.mp ho with rfl | ho
      · dsimp only at hdrawn ⊢
        exact h.outcomes (leave_self hdrawn (hfirst hdrawn)) hnew
      · exact ih hnodup hothers o ho hdrawn

/-- Every page is tried, in order. -/
theorem outcomes_pages (j : PageJob) (files : FileTree) (pages : List Nat) :
    (j.outcomes files pages).1.map (·.1) = pages := by
  induction pages generalizing files with
  | nil => rfl
  | cons page rest ih => rw [outcomes_cons, List.map_cons, ih]

/-- Where the programs answer for each page by itself, so does the outcome. -/
theorem outcomes_of_script {script : Nat → PageOutcome}
    (h : ∀ files page, (j.tryPage files page).1 = script page) (files : FileTree)
    (pages : List Nat) :
    (j.outcomes files pages).1 = pages.map fun page => (page, script page) := by
  induction pages generalizing files with
  | nil => rfl
  | cons page rest ih => rw [outcomes_cons, List.map_cons, h, ih]

end PageJob

end Docket
