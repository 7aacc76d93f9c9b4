import Docket.Proofs.Edits
import Docket.Proofs.Nameless
import Docket.Proofs.Publishing

/-!
What the steps make of their copy, told by what they find.  The hash, the picture and the text
come from the files and the tools; everything else a step makes of the copy and of the store.
-/

namespace Docket

open Docket.Calendar (Instant)

/-- A document that was changed last at some time. -/
def Document.updated (now : Instant) (d : Document) : Document := { d with updatedAt := now }

/-- The language of a document, if it is asked for and can be told. -/
def Surroundings.language? (s : Surroundings) (d : Document) : Option String :=
  let sample := Text.cleanSample d.content s.language.maxChars
  if s.language.enabled && !sample.isEmpty then s.identify sample else none

/-- A document with the language that can be told of it, or with the one that it had. -/
def Surroundings.spoken (s : Surroundings) (d : Document) : Document :=
  { d with lang := (s.language? d).getD d.lang }

theorem Surroundings.spoken_spoken (s : Surroundings) (d : Document) :
    s.spoken (s.spoken d) = s.spoken d := by
  have hsame : s.language? (s.spoken d) = s.language? d := rfl
  unfold spoken
  rw [show s.language? { d with lang := (s.language? d).getD d.lang } = s.language? d from hsame]
  cases s.language? d <;> rfl

namespace Handler

/-- The hash of the file where the document is expected. -/
def findHash : Act Desk String := do
  let s ← Act.surroundings
  let d ← Act.copy
  let path ← Act.ofExcept .storage (s.storage.documentPath d)
  Act.ofExcept .storage ((← Act.state).world.files.hashFile path)

/-- The text of the file where the document is expected. -/
def findText (scratch : String) : Act Desk String := do
  let s ← Act.surroundings
  let d ← Act.copy
  let path ← Act.ofExcept .storage (s.storage.documentPath d)
  Act.onWorld (Act.extract (Extractor.extractWith s.extractors path d.mimetype scratch))

/-- What a step finds in the files and with the tools.  What the other steps make of the copy and
of the store they make of these alone. -/
def find (scratch : String) : Step → Act Desk String
  | .hash => findHash
  | .thumbnail => do
    thumbnail scratch
    return ""
  | .parseContent => findText scratch
  | .detectLanguage | .rules | .ftsIndex => return ""

end Handler

/-! When a document was changed last. -/

theorem Document.updated_addEntry (now : Instant) (d : Document) (e : Entry) :
    (d.addEntry e).updated now = (d.updated now).addEntry e := by
  unfold addEntry
  have hthere : (d.updated now).hasEntry e = d.hasEntry e := rfl
  rw [hthere]
  split <;> rfl

theorem Action.apply_updated (now : Instant) (a : Action) (d : Document) :
    a.apply (d.updated now) = (a.apply d).map (Document.updated now) := by
  unfold Action.apply
  cases a.kind with
  | setName | appendName | setDescription | appendDescription => rfl
  | setDate => cases readDate a.value defaultDateFormat <;> rfl
  | addEntry =>
      cases a.requireKeyValue with
      | error e => rfl
      | ok ids => exact congrArg Except.ok (Document.updated_addEntry now d _).symm
  | removeEntry => cases a.requireKeyValue <;> rfl

/-- No condition looks at when a document was changed last, and no action changes it. -/
theorem Registry.builtin_respects_updated (now : Instant) :
    builtin.Respects (Document.updated now) where
  check c d := by
    change c.check (d.updated now) = c.check d
    unfold Condition.check
    cases c.kind with
    | text field relation => cases field <;> rfl
    | _ => rfl
  apply := Action.apply_updated now

theorem Document.autoMatch_updated (now : Instant) (d : Document) (values : List AutoMatchValue) :
    ((d.updated now).autoMatch values).1 = (d.autoMatch values).1.updated now := by
  suffices ∀ (d' : Document) (added added' : Nat) (cache : FilterCache),
      (autoMatch.go (Text.lowercase d.content) (d'.updated now) added cache values).1 =
        (autoMatch.go (Text.lowercase d.content) d' added' cache values).1.updated now from
    this d 0 0 []
  induction values with
  | nil => exact fun _ _ _ _ => rfl
  | cons v rest ih =>
      intro d' added added' cache
      have hthere : (d'.updated now).hasEntry v.entry = d'.hasEntry v.entry := rfl
      have hcontent : (d'.updated now).content = d'.content := rfl
      unfold autoMatch.go
      rw [hthere, hcontent]
      dsimp only
      split
      · rw [← updated_addEntry]
        exact ih _ _ _ _
      · exact ih _ _ _ _

theorem Document.ruled_updated {r : Registry} {now : Instant}
    (hr : r.Respects (Document.updated now)) (d : Document) (entries : List Entry)
    (values : List AutoMatchValue) (rules : List Rule) :
    (d.updated now).ruled r entries values rules = (d.ruled r entries values rules).updated now := by
  unfold ruled
  rw [← hr.applyRules, ← autoMatch_updated]
  rfl

/-! Work that answers or fails. -/

/-- Work that neither panics nor stops. -/
def Act.Answers {σ α : Type} (s : Surroundings) (x : Act σ α) : Prop :=
  ∀ w i, (x s w).1 = .error i → ∃ e, i = .error e

namespace Act.Answers

variable {σ ρ α β : Type} {s : Surroundings} {x : Act σ α}

theorem pure (a : α) : Answers s (Pure.pure a : Act σ α) := by
  rintro w i ⟨⟩

theorem bind {f : α → Act σ β} (hx : Answers s x) (hf : ∀ a, Answers s (f a)) :
    Answers s (x >>= f) := by
  intro w i h
  rcases heq : x s w with ⟨j | a, w'⟩
  · rw [bind_of_error heq] at h
    cases h
    exact hx w i (by rw [heq])
  · rw [bind_of_ok heq] at h
    exact hf a w' i h

theorem ofExcept {ε : Type} (wrap : ε → PipelineError) (r : Except ε α) :
    Answers s (Act.ofExcept wrap r : Act σ α) := by
  cases r with
  | ok a => exact pure a
  | error e =>
      rintro w i ⟨⟩
      exact ⟨_, rfl⟩

theorem surroundings : Answers s (Act.surroundings : Act σ Surroundings) := by
  rintro w i ⟨⟩

theorem change (f : σ → σ) : Answers s (Act.change f) := by
  rintro w i ⟨⟩

theorem copy : Answers s Act.copy := by
  rintro desk i ⟨⟩

theorem call (hquiet : s.Quiet) (c : StoreCall)
    (run : Instant → Store → Except StoreError (α × Store)) : Answers s (Act.call c run) := by
  intro w i h
  simp only [Act.call, hquiet.goes, hquiet.heeds, Bool.false_eq_true, ↓reduceIte] at h
  cases hrun : run (s.clock w.moments) (s.others w.moments w.store) with
  | ok r =>
      rw [hrun] at h
      cases h
  | error e =>
      rw [hrun] at h
      cases h
      exact ⟨_, rfl⟩

theorem onWorld {x : Act World α} (hx : Answers s x) : Answers s (Act.onWorld x) :=
  fun desk i h => hx desk.world i h

/-- What was to be answered, an attempt answers. -/
theorem attempt (hx : Answers s x) (w : σ) :
    ∃ r, x.attempt s w = (.ok r, (x s w).2) ∧ (x s w).1 = r.mapError Interruption.error := by
  rcases attempt_cases x s w with hr | ⟨i, -, hi⟩
  · exact hr
  · obtain ⟨e, rfl⟩ := hx w i hi
    exact ⟨.error e, attempt_of_fail (Prod.ext hi rfl), hi⟩

end Act.Answers

theorem Act.ofExcept_eq_ok {σ α ε : Type} {s : Surroundings} {wrap : ε → PipelineError}
    {r : Except ε α} {a : α} {w w' : σ} :
    Act.ofExcept wrap r s w = (.ok a, w') ↔ r = .ok a ∧ w = w' := by
  constructor
  · intro h
    cases r with
    | error e => cases h
    | ok b =>
        cases h
        exact ⟨rfl, rfl⟩
  · rintro ⟨rfl, rfl⟩
    rfl

namespace Handler

open Act (Answers)

variable {s : Surroundings} {desk desk' : Desk} {scratch found : String}

/-! The steps one by one. -/

theorem findHash_eq_ok : (findHash s desk).1 = .ok found ↔
    ∃ path, s.storage.documentPath desk.copy = .ok path ∧
      desk.world.files.hashFile path = .ok found := by
  constructor
  · intro h
    have hfind : findHash s desk = (.ok found, (findHash s desk).2) := Prod.ext h rfl
    unfold findHash at hfind
    obtain ⟨_, _, hs, hfind⟩ := Act.exists_of_bind_ok hfind
    cases hs
    obtain ⟨_, _, hd, hfind⟩ := Act.exists_of_bind_ok hfind
    cases hd
    obtain ⟨path, _, hpath, hfind⟩ := Act.exists_of_bind_ok hfind
    obtain ⟨hfile, rfl⟩ := Act.ofExcept_eq_ok.mp hpath
    obtain ⟨_, _, hw, hread⟩ := Act.exists_of_bind_ok hfind
    cases hw
    exact ⟨path, hfile, (Act.ofExcept_eq_ok.mp hread).1⟩
  · rintro ⟨path, hpath, hread⟩
    have hsurroundings : Act.surroundings s desk = (.ok s, desk) := rfl
    have hcopy : Act.copy s desk = (.ok desk.copy, desk) := rfl
    have hstate : Act.state s desk = (.ok desk, desk) := rfl
    unfold findHash
    rw [Act.bind_of_ok hsurroundings, Act.bind_of_ok hcopy,
      Act.bind_of_ok (Act.ofExcept_eq_ok.mpr ⟨hpath, rfl⟩), Act.bind_of_ok hstate,
      Act.ofExcept_eq_ok.mpr ⟨hread, rfl⟩]

/-- A document that has the hash of its content is left as it is. -/
theorem hash_of_found (h : (findHash s desk).1 = .ok desk.copy.hash) :
    hash s desk = (.ok (), desk) := by
  obtain ⟨path, hpath, hread⟩ := findHash_eq_ok.mp h
  have hsurroundings : Act.surroundings s desk = (.ok s, desk) := rfl
  have hcopy : Act.copy s desk = (.ok desk.copy, desk) := rfl
  have hstate : Act.state s desk = (.ok desk, desk) := rfl
  unfold hash
  rw [Act.bind_of_ok hsurroundings, Act.bind_of_ok hcopy,
    Act.bind_of_ok (Act.ofExcept_eq_ok.mpr ⟨hpath, rfl⟩), Act.bind_of_ok hstate,
    Act.bind_of_ok (Act.ofExcept_eq_ok.mpr ⟨hread, rfl⟩), if_pos rfl]
  rfl

/-- After its step a document has the hash that was found. -/
theorem hash_ok (h : hash s desk = (.ok (), desk')) :
    (findHash s desk).1 = .ok desk'.copy.hash := by
  unfold hash at h
  obtain ⟨_, _, hs, h⟩ := Act.exists_of_bind_ok h
  cases hs
  obtain ⟨_, _, hd, h⟩ := Act.exists_of_bind_ok h
  cases hd
  obtain ⟨path, _, hpath, h⟩ := Act.exists_of_bind_ok h
  obtain ⟨hfile, rfl⟩ := Act.ofExcept_eq_ok.mp hpath
  obtain ⟨_, _, hw, h⟩ := Act.exists_of_bind_ok h
  cases hw
  obtain ⟨found, _, hread, h⟩ := Act.exists_of_bind_ok h
  obtain ⟨hdigest, rfl⟩ := Act.ofExcept_eq_ok.mp hread
  refine findHash_eq_ok.mpr ⟨path, hfile, hdigest.trans (congrArg Except.ok ?_)⟩
  split at h
  · next hsame =>
      cases h
      exact hsame
  · obtain ⟨target, _, -, h⟩ := Act.exists_of_bind_ok h
    obtain ⟨_, _, hw, h⟩ := Act.exists_of_bind_ok h
    cases hw
    obtain ⟨r, _, -, h⟩ := Act.exists_of_bind_ok h
    cases r with
    | ok u =>
        cases h
        rfl
    | error e =>
        obtain ⟨_, _, -, h⟩ := Act.exists_of_bind_ok h
        cases h

theorem findText_eq_ok : (findText scratch s desk).1 = .ok found ↔
    ∃ path extracted, s.storage.documentPath desk.copy = .ok path ∧
      Act.onWorld (Act.extract (Extractor.extractWith s.extractors path desk.copy.mimetype
        scratch)) s desk = (.ok found, extracted) := by
  constructor
  · intro h
    have hfind : findText scratch s desk = (.ok found, (findText scratch s desk).2) :=
      Prod.ext h rfl
    unfold findText at hfind
    obtain ⟨_, _, hs, hfind⟩ := Act.exists_of_bind_ok hfind
    cases hs
    obtain ⟨_, _, hd, hfind⟩ := Act.exists_of_bind_ok hfind
    cases hd
    obtain ⟨path, _, hpath, hread⟩ := Act.exists_of_bind_ok hfind
    obtain ⟨hfile, rfl⟩ := Act.ofExcept_eq_ok.mp hpath
    exact ⟨path, _, hfile, hread⟩
  · rintro ⟨path, extracted, hpath, hread⟩
    have hsurroundings : Act.surroundings s desk = (.ok s, desk) := rfl
    have hcopy : Act.copy s desk = (.ok desk.copy, desk) := rfl
    unfold findText
    rw [Act.bind_of_ok hsurroundings, Act.bind_of_ok hcopy,
      Act.bind_of_ok (Act.ofExcept_eq_ok.mpr ⟨hpath, rfl⟩), hread]

/-- What is left to do once a text was found. -/
theorem parseContent_of_text (h : (findText scratch s desk).1 = .ok found) :
    ∃ extracted : Desk, extracted.world.store = desk.world.store ∧
      extracted.world.moments = desk.world.moments ∧
      parseContent scratch s desk =
        (Act.onWorld (.tell (.setContent desk.copy.id (Text.normalize found))) >>= fun _ =>
          Act.setCopy { desk.copy with content := Text.normalize found }) s extracted := by
  obtain ⟨path, extracted, hpath, hread⟩ := findText_eq_ok.mp h
  have hsurroundings : Act.surroundings s desk = (.ok s, desk) := rfl
  have hcopy : Act.copy s desk = (.ok desk.copy, desk) := rfl
  have hleft : extracted = (Act.onWorld (Act.extract (Extractor.extractWith s.extractors path
      desk.copy.mimetype scratch)) s desk).2 := by rw [hread]
  refine ⟨extracted, ?_, ?_, ?_⟩
  · rw [hleft]
    rfl
  · rw [hleft]
    rfl
  · unfold parseContent
    rw [Act.bind_of_ok hsurroundings, Act.bind_of_ok hcopy,
      Act.bind_of_ok (Act.ofExcept_eq_ok.mpr ⟨hpath, rfl⟩), Act.bind_of_ok hread]

/-- The text that is found becomes the content of the copy. -/
theorem parseContent_of_found (hquiet : s.Quiet)
    (hdoc : desk.world.store.hasDocument desk.copy.id = true)
    (h : (findText scratch s desk).1 = .ok found) :
    (parseContent scratch s desk).1 = .ok () ∧ (parseContent scratch s desk).2.copy =
      { desk.copy with content := Text.normalize found } := by
  obtain ⟨extracted, hstore, -, hrun⟩ := parseContent_of_text h
  have hperform : (StoreCall.setContent desk.copy.id (Text.normalize found)).perform
      (s.clock extracted.world.moments) extracted.world.store =
        .ok (extracted.world.store.setContent desk.copy.id (Text.normalize found)
          (s.clock extracted.world.moments)).2 :=
    orNoDocument_changeDocument _ (by rw [hstore]; exact hdoc)
  rw [hrun, Act.bind_of_ok (hquiet.tell_of_ok hperform)]
  exact ⟨rfl, rfl⟩

/-- Where the step of the text succeeds, a text was found. -/
theorem findText_of_parseContent (h : (parseContent scratch s desk).1 = .ok ()) :
    ∃ found, (findText scratch s desk).1 = .ok found := by
  have hrun : parseContent scratch s desk = (.ok (), (parseContent scratch s desk).2) :=
    Prod.ext h rfl
  unfold parseContent at hrun
  obtain ⟨_, _, hs, hrun⟩ := Act.exists_of_bind_ok hrun
  cases hs
  obtain ⟨_, _, hd, hrun⟩ := Act.exists_of_bind_ok hrun
  cases hd
  obtain ⟨path, _, hpath, hrun⟩ := Act.exists_of_bind_ok hrun
  obtain ⟨hfile, rfl⟩ := Act.ofExcept_eq_ok.mp hpath
  obtain ⟨found, extracted, hread, -⟩ := Act.exists_of_bind_ok hrun
  exact ⟨found, findText_eq_ok.mpr ⟨path, extracted, hfile, hread⟩⟩

/-- After the step of the language the copy has the language that can be told of it. -/
theorem detectLanguage_of_quiet (hquiet : s.Quiet)
    (hdoc : desk.world.store.hasDocument desk.copy.id = true) :
    (detectLanguage s desk).1 = .ok () ∧
      (detectLanguage s desk).2.copy = s.spoken desk.copy := by
  have hsurroundings : Act.surroundings s desk = (.ok s, desk) := rfl
  have hcopy : Act.copy s desk = (.ok desk.copy, desk) := rfl
  unfold detectLanguage Surroundings.spoken Surroundings.language?
  rw [Act.bind_of_ok hsurroundings, Act.bind_of_ok hcopy]
  cases henabled : s.language.enabled with
  | false => exact ⟨rfl, rfl⟩
  | true =>
      let sample := Text.cleanSample desk.copy.content s.language.maxChars
      cases hempty : sample.isEmpty with
      | true =>
          simp only [sample] at hempty
          simp only [Bool.not_true, Bool.false_eq_true, ↓reduceIte, hempty, Bool.and_false]
          exact ⟨rfl, rfl⟩
      | false =>
          simp only [sample] at hempty
          simp only [Bool.not_true, Bool.false_eq_true, ↓reduceIte, hempty, Bool.not_false,
            Bool.and_self]
          let asked : Desk := { desk with world :=
            { desk.world with samples := sample :: desk.world.samples } }
          have hask : Act.onWorld (identify sample) s desk = (.ok (s.identify sample), asked) := rfl
          rw [Act.bind_of_ok hask]
          cases s.identify sample with
          | none => exact ⟨rfl, rfl⟩
          | some lang =>
              let named : Document := { desk.copy with lang := lang }
              let told : Desk := { asked with copy := named }
              have hset : Act.setCopy named s asked = (.ok (), told) := rfl
              obtain ⟨hok, -⟩ := store_of_quiet hquiet told (d := named) hdoc
              dsimp only
              rw [Act.bind_of_ok hset, hok]
              exact ⟨rfl, rfl⟩

theorem rules_answers (hquiet : s.Quiet) : Answers s rules :=
  .bind .surroundings fun _ => .bind .copy fun _ => .bind (.onWorld (.call hquiet _ _)) fun _ =>
    .bind (.onWorld (.call hquiet _ _)) fun _ => .bind (.onWorld (.call hquiet _ _)) fun _ =>
      .bind (.onWorld (.call hquiet _ _)) fun _ => .change _

theorem ftsIndex_answers (hquiet : s.Quiet) : Answers s ftsIndex := by
  have hoffer : Answers s (Act.copy >>= fun d => Act.onWorld (offer d)) :=
    .bind .copy fun d => .onWorld (.bind .surroundings fun _ => .bind (.change _) fun _ =>
      .ofExcept _ _)
  have htagged : Answers s (do
      let d ← Act.copy
      if d.tags.isNone then
        let tags ← Act.onWorld (.ask (.documentTags d.id) fun st => .ok (st.documentTags d.id))
        Act.setCopy { d with tags := some tags }
      Act.onWorld (offer (← Act.copy))) := by
    refine .bind .copy fun d => ?_
    dsimp only
    split
    · exact .bind (.onWorld (.call hquiet _ _)) fun _ => .bind (.change _) fun _ => hoffer
    · exact hoffer
  refine .bind .copy fun d => ?_
  dsimp only
  split
  · exact .bind (.onWorld (.call hquiet _ _)) fun _ => .bind (.change _) fun _ => htagged
  · exact htagged

end Handler

end Docket
