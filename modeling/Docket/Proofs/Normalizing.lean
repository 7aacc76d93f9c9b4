import Docket.Proofs.Findings
import Docket.Proofs.Reaching
import Mathlib.Data.List.DropRight

/-!
Text as it is stored.  Control characters are dropped first, which can lay white space bare at the
ends, and the ends are trimmed behind that.  What comes out is told by its form alone: of all parts
of what may be stored, it is the only one in that form which leaves out nothing but white space at
the ends.  A text in that form is stored as it is, so that the step of the text can be made again
and again.
-/

namespace Docket

namespace Text

open Docket.Unicode (isWhitespace isControl)

variable {s t : List Char}

/-! ### Trimming -/

/-- A part without gaps that leaves out nothing but white space at the ends. -/
def IsCore (core whole : List Char) : Prop :=
  ∃ front back, whole = front ++ core ++ back ∧ (∀ c ∈ front, isWhitespace c = true) ∧
    ∀ c ∈ back, isWhitespace c = true

/-- No white space at either end. -/
structure IsTrimmed (s : List Char) : Prop where
  first : ∀ c, s.head? = some c → isWhitespace c = false
  last : ∀ c, s.getLast? = some c → isWhitespace c = false

theorem IsCore.refl (s : List Char) : IsCore s s := ⟨[], [], by simp, by simp, by simp⟩

theorem dropTrailing_eq_rdropWhile (s : List Char) :
    dropTrailing s = s.rdropWhile isWhitespace := rfl

theorem isCore_trimChars (s : List Char) : IsCore (trimChars s) s := by
  refine ⟨s.takeWhile isWhitespace, (dropLeading s).rtakeWhile isWhitespace, ?_,
    fun c => List.mem_takeWhile_imp, fun c => List.mem_rtakeWhile_imp⟩
  rw [List.append_assoc, trimChars, dropTrailing_eq_rdropWhile, List.rdropWhile_append_rtakeWhile,
    dropLeading, List.takeWhile_append_dropWhile]

theorem isTrimmed_trimChars (s : List Char) : IsTrimmed (trimChars s) where
  first c h := by
    -- What is dropped behind leaves the first character where it is.
    obtain ⟨back, hback⟩ : trimChars s <+: dropLeading s := List.rdropWhile_prefix _ _
    have hleading : (s.dropWhile isWhitespace).head? = some c := by
      change (dropLeading s).head? = some c
      rw [← hback, List.head?_append, h, Option.some_or]
    have hfirst := List.head?_dropWhile_not isWhitespace s
    rwa [hleading] at hfirst
  last c h := by
    obtain ⟨hne, rfl⟩ := List.mem_getLast?_eq_getLast h
    exact Bool.eq_false_of_not_eq_true (List.rdropWhile_last_not isWhitespace (dropLeading s) hne)

theorem dropLeading_append (h : ∀ c ∈ s, isWhitespace c = true) (t : List Char) :
    dropLeading (s ++ t) = dropLeading t :=
  List.dropWhile_append_of_pos h

theorem dropLeading_of_first (h : ∀ c, s.head? = some c → isWhitespace c = false) :
    dropLeading s = s := by
  cases s with
  | nil => rfl
  | cons c rest => exact List.dropWhile_cons_of_neg (by simp [h c rfl])

theorem dropTrailing_append (s : List Char) (h : ∀ c ∈ t, isWhitespace c = true) :
    dropTrailing (s ++ t) = dropTrailing s := by
  unfold dropTrailing
  rw [List.reverse_append, dropLeading_append fun c hc => h c (List.mem_reverse.mp hc)]

theorem dropTrailing_of_last (h : ∀ c, s.getLast? = some c → isWhitespace c = false) :
    dropTrailing s = s := by
  unfold dropTrailing
  rw [dropLeading_of_first fun c hc => h c (by rwa [List.head?_reverse] at hc), List.reverse_reverse]

/-- The only trimmed core of a list of characters is what trimming leaves. -/
theorem IsCore.trimChars_eq (hcore : IsCore s t) (htrimmed : IsTrimmed s) : trimChars t = s := by
  obtain ⟨front, back, rfl, hfront, hback⟩ := hcore
  unfold trimChars
  rw [List.append_assoc, dropLeading_append hfront]
  cases s with
  | nil =>
      have hnone : dropLeading back = [] := List.dropWhile_eq_nil_iff.mpr hback
      rw [List.nil_append, hnone]
      rfl
  | cons c rest =>
      rw [dropLeading_of_first (s := c :: rest ++ back) htrimmed.first,
        dropTrailing_append _ hback, dropTrailing_of_last htrimmed.last]

/-! ### The form of what is stored -/

/-- Text in the form in which it is stored: without control characters other than line feeds and
tabs, and without white space at either end. -/
structure IsNormal (text : String) : Prop where
  storable : ∀ c ∈ text.toList, isControl c = true → c = '\n' ∨ c = '\t'
  trimmed : IsTrimmed text.toList

theorem isStorable_iff {c : Char} :
    isStorable c = true ↔ (isControl c = true → c = '\n' ∨ c = '\t') := by
  cases h : isControl c <;> simp [isStorable, h]

theorem toList_normalize (text : String) :
    (normalize text).toList = trimChars (text.toList.filter isStorable) :=
  String.toList_ofList

/-- Each text has one normal form: the core of its storable characters that is normal. -/
theorem normalize_eq_iff {text content : String} : normalize text = content ↔
    IsNormal content ∧ IsCore content.toList (text.toList.filter isStorable) := by
  constructor
  · rintro rfl
    have hcore : IsCore (normalize text).toList (text.toList.filter isStorable) := by
      rw [toList_normalize]
      exact isCore_trimChars _
    refine ⟨⟨fun c hc => ?_, ?_⟩, hcore⟩
    · obtain ⟨front, back, hwhole, -, -⟩ := hcore
      have hkept : c ∈ text.toList.filter isStorable := by
        rw [hwhole]
        exact List.mem_append_left _ (List.mem_append_right _ hc)
      exact isStorable_iff.mp (List.mem_filter.mp hkept).2
    · rw [toList_normalize]
      exact isTrimmed_trimChars _
  · rintro ⟨hnormal, hcore⟩
    rw [normalize, hcore.trimChars_eq hnormal.trimmed, String.ofList_toList]

example : normalize "  a\x00b\r\n\tc\x07  " = "ab\n\tc" := by decide

/-- Just normal text is stored as it is. -/
theorem normalize_eq_self_iff {text : String} : normalize text = text ↔ IsNormal text := by
  refine ⟨fun h => (normalize_eq_iff.mp h).1, fun hnormal => ?_⟩
  have hall : text.toList.filter isStorable = text.toList :=
    List.filter_eq_self.mpr fun c hc => isStorable_iff.mpr (hnormal.storable c hc)
  exact normalize_eq_iff.mpr ⟨hnormal, by rw [hall]; exact .refl _⟩

theorem isNormal_normalize (text : String) : IsNormal (normalize text) := (normalize_eq_iff.mp rfl).1

theorem normalize_normalize (text : String) : normalize (normalize text) = normalize text :=
  normalize_eq_self_iff.mpr (isNormal_normalize text)

end Text

/-! ### The step of the text, made again and again -/

/-- The content in the row of a document. -/
def Store.contentOf? (s : Store) (id : String) : Option String :=
  (s.documentRow? id).map (·.content)

theorem Store.contentOf?_setContent {s : Store} {id content : String} {now : Calendar.Instant}
    (hdoc : s.hasDocument id = true) :
    (s.setContent id content now).2.contentOf? id = some content := by
  have hrow : (s.setContent id content now).2.documentRow? id =
      (s.documentRow? id).map fun r =>
        if r.id = id then { r with content, updatedAt := now.toMicrosText } else r :=
    documentRow?_changeDocument fun _ => rfl
  obtain ⟨r, hr⟩ := exists_documentRow? hdoc
  rw [contentOf?, hrow, hr, Option.map_some, if_pos (id_of_documentRow? hr)]
  rfl

namespace Surroundings

/-- The call that stores a content is carried out: the process goes on, the store does not refuse,
and there still is such a document. -/
structure TakesContent (s : Surroundings) (id content : String) (past : List Moment)
    (st : Store) : Prop where
  goes : s.stops past = false
  heeds : s.refuses past (.setContent id content) = none
  there : (s.others past st).hasDocument id = true

/-- Others leave the content of a document as it is. -/
def SparesContent (s : Surroundings) (id : String) : Prop :=
  ∀ past st, (s.others past st).contentOf? id = st.contentOf? id

end Surroundings

namespace Act

variable {s : Surroundings} {id content : String} {w : World}

theorem tell_setContent_of_takes (h : s.TakesContent id content w.moments w.store) :
    ∃ w', tell (.setContent id content) s w = (.ok (), w') ∧
      w'.store.contentOf? id = some content := by
  have hperform : (StoreCall.setContent id content).perform (s.clock w.moments)
      (s.others w.moments w.store) = .ok ((s.others w.moments w.store).setContent id content
        (s.clock w.moments)).2 := orNoDocument_changeDocument _ h.there
  refine ⟨w.next s (.call (.setContent id content)), ?_, ?_⟩
  · rw [tell_of_go _ h.goes, Surroundings.verdict, h.heeds, hperform]
  · rw [World.next_store, Surroundings.after_of_heeded h.heeds hperform]
    exact Store.contentOf?_setContent h.there

theorem tell_setContent_of_not_takes (h : ¬ s.TakesContent id content w.moments w.store) :
    ∃ i w', tell (.setContent id content) s w = (.error i, w') ∧
      (w'.store = w.store ∨ w'.store = s.others w.moments w.store) := by
  rcases htell : tell (.setContent id content) s w with ⟨i | u, w'⟩
  · refine ⟨i, w', rfl, ?_⟩
    rcases tell_eq_error htell with rfl | ⟨-, hstore⟩
    · exact .inl rfl
    · exact .inr hstore
  · obtain ⟨-, hheeds, hperform⟩ := tell_eq_ok htell
    have hgoes : s.stops w.moments = false := by
      cases hstop : s.stops w.moments with
      | false => rfl
      | true =>
          rw [tell_of_stop _ hstop] at htell
          cases htell
    exact absurd ⟨hgoes, hheeds, (orNoDocument_ok hperform).1⟩ h

end Act

namespace Handler

variable {s : Surroundings} {scratch text id : String} {desk : Desk} {w w' : World}
  {answers : List (Except (Interruption PipelineError) Unit)}

/-- A text is found, or what is stored of it. -/
def Finds (text scratch : String) (s : Surroundings) (desk : Desk) : Prop :=
  (findText scratch s desk).1 = .ok text ∨
    (findText scratch s desk).1 = .ok (Text.normalize text)

/-- Whichever of the two is found, the step stores the same, or nothing at all. -/
theorem parseContent_of_finds (h : Finds text scratch s desk) :
    s.TakesContent desk.copy.id (Text.normalize text) desk.world.moments desk.world.store ∧
      (∃ ended, parseContent scratch s desk = (.ok (), ended) ∧
        ended.copy = { desk.copy with content := Text.normalize text } ∧
        ended.world.store.contentOf? desk.copy.id = some (Text.normalize text)) ∨
    ¬ s.TakesContent desk.copy.id (Text.normalize text) desk.world.moments desk.world.store ∧
      ∃ i ended, parseContent scratch s desk = (.error i, ended) ∧
        (ended.world.store = desk.world.store ∨
          ended.world.store = s.others desk.world.moments desk.world.store) := by
  -- Both have the same normal form, so that the call is the same.
  obtain ⟨found, hfound, hsame⟩ : ∃ found, (findText scratch s desk).1 = .ok found ∧
      Text.normalize found = Text.normalize text := by
    rcases h with h | h
    · exact ⟨text, h, rfl⟩
    · exact ⟨Text.normalize text, h, Text.normalize_normalize text⟩
  obtain ⟨extracted, hstore, hmoments, hrun⟩ := parseContent_of_text hfound
  rw [hsame] at hrun
  rw [← hstore, ← hmoments]
  by_cases htakes : s.TakesContent desk.copy.id (Text.normalize text) extracted.world.moments
      extracted.world.store
  · obtain ⟨w', htell, hcontent⟩ := Act.tell_setContent_of_takes htakes
    let kept : Document := { desk.copy with content := Text.normalize text }
    refine .inl ⟨htakes, ⟨w', kept⟩, ?_, rfl, hcontent⟩
    rw [hrun, Act.bind_of_ok (Act.onWorld_eq htell)]
    rfl
  · obtain ⟨i, w', htell, hleft⟩ := Act.tell_setContent_of_not_takes htakes
    refine .inr ⟨htakes, i, { extracted with world := w' }, ?_, hleft⟩
    rw [hrun, Act.bind_of_error (Act.onWorld_eq htell)]

/-- The step of the text is made a number of times, one after another. Each time it is made from some
copy of the document and finds the same text or what was stored of it. In between anything may happen
that leaves the content of the document. -/
inductive Repeats (id text : String) :
    World → List (Except (Interruption PipelineError) Unit) → World → Prop
  | none (w : World) : Repeats id text w [] w
  | once {w w' : World} {answers : List (Except (Interruption PipelineError) Unit)}
      (s : Surroundings) (scratch : String) (desk : Desk) (hid : desk.copy.id = id)
      (hbetween : desk.world.store.contentOf? id = w.store.contentOf? id)
      (hspares : s.SparesContent id) (hfinds : Finds text scratch s desk)
      (hlater : Repeats id text (parseContent scratch s desk).2.world answers w') :
      Repeats id text w ((parseContent scratch s desk).1 :: answers) w'

/-- One time stores what is stored of the text, or leaves the content. -/
theorem contentOf?_parseContent (hspares : s.SparesContent desk.copy.id)
    (hfinds : Finds text scratch s desk) :
    (parseContent scratch s desk).2.world.store.contentOf? desk.copy.id =
      if (parseContent scratch s desk).1.isOk then some (Text.normalize text)
      else desk.world.store.contentOf? desk.copy.id := by
  rcases parseContent_of_finds hfinds with
    ⟨-, ended, hrun, -, hcontent⟩ | ⟨-, i, ended, hrun, hleft⟩
  · rw [hrun]
    exact hcontent
  · have hkept : ended.world.store.contentOf? desk.copy.id =
        desk.world.store.contentOf? desk.copy.id := by
      rcases hleft with hleft | hleft
      · rw [hleft]
      · rw [hleft, hspares]
    rw [hrun]
    exact hkept

/-- However often the step is made, what is stored of the text is stored once it has succeeded. -/
theorem Repeats.contentOf? (h : Repeats id text w answers w') :
    w'.store.contentOf? id =
      if answers.any Except.isOk then some (Text.normalize text) else w.store.contentOf? id := by
  induction h with
  | none w => rfl
  | once s scratch desk hid hbetween hspares hfinds hlater ih =>
      subst hid
      rw [ih, contentOf?_parseContent hspares hfinds, hbetween, List.any_cons]
      cases (parseContent scratch s desk).1.isOk with
      | true => simp
      | false => simp

/-- What is stored of a text is its only normal form, and would be stored as it is. Whenever the step
of the text finds the one or the other, it succeeds exactly if the store takes the content, and then
it stores the same, however often it is made. -/
theorem parseContent_stores_normalForm (text : String) :
    Text.IsNormal (Text.normalize text) ∧
    Text.IsCore (Text.normalize text).toList (text.toList.filter Text.isStorable) ∧
    (∀ content : String, Text.IsNormal content →
      Text.IsCore content.toList (text.toList.filter Text.isStorable) →
        content = Text.normalize text) ∧
    Text.normalize (Text.normalize text) = Text.normalize text ∧
    (∀ (s : Surroundings) (scratch : String) (desk : Desk), Finds text scratch s desk →
      let run := parseContent scratch s desk
      (run.1 = .ok () ↔ s.TakesContent desk.copy.id (Text.normalize text) desk.world.moments
        desk.world.store) ∧
      (run.1 = .ok () → run.2.copy = { desk.copy with content := Text.normalize text } ∧
        run.2.world.store.contentOf? desk.copy.id = some (Text.normalize text))) ∧
    ∀ (id : String) (w w' : World) (answers : List (Except (Interruption PipelineError) Unit)),
      Repeats id text w answers w' → w'.store.contentOf? id =
        if answers.any Except.isOk then some (Text.normalize text)
        else w.store.contentOf? id := by
  obtain ⟨hnormal, hcore⟩ := Text.normalize_eq_iff.mp (rfl : Text.normalize text = _)
  refine ⟨hnormal, hcore, fun content hcontent hwhole => ?_, Text.normalize_normalize text, ?_,
    fun id w w' answers => Repeats.contentOf?⟩
  · exact (Text.normalize_eq_iff.mpr ⟨hcontent, hwhole⟩).symm
  · intro s scratch desk hfinds
    rcases parseContent_of_finds hfinds with
      ⟨htakes, ended, hrun, hcopy, hcontent⟩ | ⟨hrefused, i, ended, hrun, -⟩
    · rw [hrun]
      exact ⟨iff_of_true rfl htakes, fun _ => ⟨hcopy, hcontent⟩⟩
    · rw [hrun]
      exact ⟨iff_of_false (by simp) hrefused, by simp⟩

end Handler

/-! A text that is read, read again while the store refuses it, and then read from what was stored
of it. -/

/-- Surroundings in which every file holds the same text; the store may refuse every call. -/
def Surroundings.holding (locked : Bool) (text : String) : Surroundings :=
  { Surroundings.bare with
    extractors := [⟨"fixed", fun _ => true, fun _ _ _ => return text⟩]
    refuses := fun _ _ => if locked then some (.corrupt "locked") else none }

/-- A world with a document that was not read so far. -/
def World.unread : World where
  store := { documents := [.ofDocument .fresh] }
  files := .empty

namespace Text

open Docket.Unicode (isWhitespace)

/-- A text whose white space at the ends stands among control characters. -/
def hiddenBlanks : String := "\x00 \u0085\u00a0b\x07\r\n\tc \x1f\u2003\x00"

theorem isNormal_plain : IsNormal "b\n\tc" where
  storable c hc := by
    have hall : "b\n\tc".toList.all isStorable = true := by decide
    exact isStorable_iff.mp (List.all_eq_true.mp hall c hc)
  trimmed := by
    refine ⟨fun c h => ?_, fun c h => ?_⟩
    · obtain rfl : 'b' = c := Option.some.inj h
      decide
    · obtain rfl : 'c' = c := Option.some.inj h
      decide

theorem isCore_hiddenBlanks : IsCore "b\n\tc".toList (hiddenBlanks.toList.filter isStorable) := by
  have hfront : [' ', '\u00a0'].all isWhitespace = true := by decide
  have hback : [' ', '\u2003'].all isWhitespace = true := by decide
  have hparts : hiddenBlanks.toList.filter isStorable =
      [' ', '\u00a0'] ++ "b\n\tc".toList ++ [' ', '\u2003'] := by decide
  exact ⟨_, _, hparts, List.all_eq_true.mp hfront, List.all_eq_true.mp hback⟩

end Text

namespace Handler

open Text (hiddenBlanks)

theorem findText_holding (locked : Bool) (text scratch : String) (w : World) :
    (findText scratch (.holding locked text) ⟨w, .fresh⟩).1 = .ok text :=
  findText_eq_ok.mpr ⟨_, _, Storage.documentPath_waiting _ rfl, rfl⟩

theorem parseContent_stores_normalForm_hiddenBlanks :
    let read := parseContent "/scratch" (.holding false hiddenBlanks) ⟨.unread, .fresh⟩
    let refused := parseContent "/scratch" (.holding true hiddenBlanks) ⟨read.2.world, .fresh⟩
    let again := parseContent "/scratch" (.holding false "b\n\tc") ⟨refused.2.world, .fresh⟩
    Text.normalize hiddenBlanks = "b\n\tc" ∧ Text.normalize "b\n\tc" = "b\n\tc" ∧
      read.1 = .ok () ∧ read.2.copy.content = "b\n\tc" ∧ refused.1 ≠ .ok () ∧
      again.2.world.store.contentOf? "d" = some "b\n\tc" := by
  intro read refused again
  obtain ⟨-, -, hunique, hsame, hruns, hrepeats⟩ := parseContent_stores_normalForm hiddenBlanks
  have hcontent := hunique _ Text.isNormal_plain Text.isCore_hiddenBlanks
  have hread : Finds hiddenBlanks "/scratch" (.holding false hiddenBlanks) ⟨.unread, .fresh⟩ :=
    .inl (findText_holding _ _ _ _)
  have hrefused : Finds hiddenBlanks "/scratch" (.holding true hiddenBlanks)
      ⟨read.2.world, .fresh⟩ := .inl (findText_holding _ _ _ _)
  have hagain : Finds hiddenBlanks "/scratch" (.holding false "b\n\tc")
      ⟨refused.2.world, .fresh⟩ := by
    rw [hcontent]
    exact .inr (findText_holding _ _ _ _)
  obtain ⟨htaken, hstored⟩ := hruns _ _ _ hread
  have hok : read.1 = .ok () := htaken.mpr ⟨rfl, rfl, rfl⟩
  have hfailed : refused.1 ≠ .ok () := by
    intro hdone
    have hheeds := ((hruns _ _ _ hrefused).1.mp hdone).heeds
    cases hheeds
  have hspares : ∀ locked text, (Surroundings.holding locked text).SparesContent "d" :=
    fun _ _ _ _ => rfl
  have hchain : Repeats "d" hiddenBlanks .unread [read.1, refused.1, again.1] again.2.world :=
    .once (.holding false hiddenBlanks) "/scratch" ⟨.unread, .fresh⟩ rfl rfl (hspares _ _) hread <|
    .once (.holding true hiddenBlanks) "/scratch" ⟨read.2.world, .fresh⟩ rfl rfl (hspares _ _)
      hrefused <|
    .once (.holding false "b\n\tc") "/scratch" ⟨refused.2.world, .fresh⟩ rfl rfl (hspares _ _)
      hagain <|
    .none again.2.world
  have hone : read.1.isOk = true := by
    rw [hok]
    rfl
  refine ⟨hcontent.symm, ?_, hok, ?_, hfailed, ?_⟩
  · rw [hcontent]
    exact hsame
  · rw [(hstored hok).1, hcontent]
  · rw [hrepeats _ _ _ _ hchain, List.any_cons, hone, Bool.true_or, if_pos rfl, hcontent]

end Handler

end Docket
