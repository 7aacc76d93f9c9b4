import Docket.Proofs.EntryBatch
import Docket.Proofs.Findings
import Docket.Proofs.Readable

/-!
A pass that is made again because the end of a step could not be noted.  The step runs a second
time, on the document as it has left it.
-/

namespace Docket

open Docket.Calendar (Instant)

/-- The row of a document differs at most in when it was changed last, and the document has the
same entries. -/
structure Store.SameRecord (id : String) (st st' : Store) : Prop where
  row : ∃ changed, st'.documentRow? id =
    (st.documentRow? id).map fun r => { r with updatedAt := changed }
  entries : ∀ r, r ∈ st'.entryRows id ↔ r ∈ st.entryRows id

/-- The row of a document that was created and changed last at some times. -/
def Document.rowAt (d : Document) (created changed : String) : DocumentRow :=
  { DocumentRow.ofDocument d with createdAt := created, updatedAt := changed }

/-- The row of a document is written from a copy, but for the times of its creation and of its last
change. -/
def Store.Wrote (created : String) (d : Document) (st : Store) : Prop :=
  ∃ changed, st.documentRow? d.id = some (d.rowAt created changed)

theorem Store.Wrote.hasDocument {created : String} {d : Document} {st : Store}
    (h : st.Wrote created d) : st.hasDocument d.id = true := by
  obtain ⟨changed, hrow⟩ := h
  exact hasDocument_of_documentRow? hrow

theorem Store.SameVocabulary.symm {st st' : Store} (h : st.SameVocabulary st') :
    st'.SameVocabulary st := by
  obtain ⟨_, _, _, rfl⟩ := h
  exact ⟨st.documents, st.jobs, st.entries, rfl⟩

theorem Store.SameVocabulary.refl (st : Store) : st.SameVocabulary st := ⟨_, _, _, rfl⟩

theorem Store.SameVocabulary.trans {st st' st'' : Store} (h : st.SameVocabulary st')
    (h' : st'.SameVocabulary st'') : st.SameVocabulary st'' := by
  obtain ⟨_, _, _, rfl⟩ := h
  obtain ⟨documents, jobs, entries, rfl⟩ := h'
  exact ⟨documents, jobs, entries, rfl⟩

/-! Edits of a copy and of the store. -/

namespace Edit

variable {r : Registry} {d d' : Document} {st st' : Store} {t : Step} {created : String}

theorem sameOrigin (hr : r.ActsBuiltin) (h : Edit r d st t d' st') : d.SameOrigin d' := by
  cases h with
  | none => exact .refl d
  | rehashed | content | lang => exact ⟨rfl, rfl, rfl, rfl, rfl⟩
  | rules _ _ _ hupdated _ =>
      rw [hupdated]
      exact Document.sameOrigin_ruled hr

theorem vocabulary (h : Edit r d st t d' st') : st.SameVocabulary st' := by
  cases h with
  | none => exact .refl st
  | rehashed | content | lang => exact ⟨_, _, _, rfl⟩
  | rules _ _ _ _ hstored =>
      obtain ⟨-, rfl⟩ := Store.updateWithEntries_true hstored
      exact ⟨_, _, _, rfl⟩

/-- Only the rules change entries and the date. -/
theorem spares (ht : t ≠ .rules) (h : Edit r d st t d' st') :
    st'.entries = st.entries ∧ d'.metadata = d.metadata ∧ d'.date = d.date := by
  cases h with
  | none | rehashed | content | lang => exact ⟨rfl, rfl, rfl⟩
  | rules => exact absurd rfl ht

end Edit

theorem Store.Wrote.updateDocument {created : String} {d d' : Document} {st : Store}
    (h : st.Wrote created d) (hsame : d.SameOrigin d') (now : Instant) :
    (st.updateDocument d' now).2.Wrote created d' := by
  obtain ⟨changed, hrow⟩ := h
  refine ⟨now.toMicrosText, ?_⟩
  unfold Store.updateDocument
  rw [documentRow?_changeDocument (f := (·.withFieldsOf d' now)) fun _ => rfl, hsame.id, hrow,
    Option.map_some]
  refine congrArg some ((if_pos rfl).trans ?_)
  simp only [DocumentRow.withFieldsOf, Document.rowAt, DocumentRow.ofDocument, hsame.id,
    hsame.userId]

/-- What an edit makes of the copy it makes of the row. -/
theorem Edit.wrote {r : Registry} {d d' : Document} {st st' : Store} {t : Step} {created : String}
    (hr : r.ActsBuiltin) (hedit : Edit r d st t d' st') (h : st.Wrote created d) :
    st'.Wrote created d' := by
  have hsame := hedit.sameOrigin hr
  cases hedit with
  | none => exact h
  | rehashed | lang => exact h.updateDocument hsame _
  | content text now =>
      obtain ⟨changed, hrow⟩ := h
      let f (r : DocumentRow) : DocumentRow :=
        { r with content := text, updatedAt := now.toMicrosText }
      have hchanged : (st.changeDocument d.id f).2.documentRow? d.id =
          (st.documentRow? d.id).map fun r => if r.id = d.id then f r else r :=
        Store.documentRow?_changeDocument fun _ => rfl
      rw [hrow, Option.map_some] at hchanged
      exact ⟨now.toMicrosText, hchanged.trans (congrArg some (if_pos rfl))⟩
  | rules now _ _ _ hstored =>
      obtain ⟨-, rfl⟩ := Store.updateWithEntries_true hstored
      exact h.updateDocument hsame now

/-! What the rules make of a copy. -/

namespace Store

/-- What the step of the rules makes of a copy, where the rules and the values can be read and the
outcome can be stored. -/
def ruling? (st : Store) (r : Registry) (d : Document) : Option Document := do
  let rules ← (st.activeRules d.userId).toOption
  let values ← (st.autoMatchValues d.userId).toOption
  let updated := d.ruled r (st.documentEntries d.id) values rules
  if (updated.entries.map Entry.ids).all st.knowsPair then some updated else none

theorem toOption_eq_some {ε α : Type} {x : Except ε α} {a : α} :
    x.toOption = some a ↔ x = .ok a := by
  cases x <;> simp [Except.toOption]

theorem ruling?_eq_some {st : Store} {r : Registry} {d updated : Document} :
    st.ruling? r d = some updated ↔ ∃ rules values, st.activeRules d.userId = .ok rules ∧
      st.autoMatchValues d.userId = .ok values ∧
      d.ruled r (st.documentEntries d.id) values rules = updated ∧
      (updated.entries.map Entry.ids).all st.knowsPair = true := by
  unfold ruling?
  constructor
  · intro h
    obtain ⟨rules, hrules, h⟩ := Option.bind_eq_some_iff.mp h
    obtain ⟨values, hvalues, h⟩ := Option.bind_eq_some_iff.mp h
    rw [toOption_eq_some] at hrules hvalues
    dsimp only at h
    split at h
    · next hknown =>
        cases h
        exact ⟨rules, values, hrules, hvalues, rfl, hknown⟩
    · cases h
  · rintro ⟨rules, values, hrules, hvalues, rfl, hknown⟩
    rw [hrules, hvalues]
    exact if_pos hknown

/-- The ruling does not depend on jobs, on other documents, and on when the document was changed
last. -/
theorem ruling?_congr {st st' : Store} {r : Registry} {d : Document} {now : Instant}
    (hr : r.Respects (Document.updated now)) (hsame : st.SameVocabulary st')
    (hrows : st'.entryRows d.id = st.entryRows d.id) :
    st'.ruling? r (d.updated now) = (st.ruling? r d).map (Document.updated now) := by
  have hentries : st'.documentEntries d.id = st.documentEntries d.id := by
    unfold entryRows at hrows
    unfold documentEntries
    rw [hrows]
    obtain ⟨_, _, _, rfl⟩ := hsame
    rfl
  have hrules : st'.activeRules d.userId = st.activeRules d.userId := by
    obtain ⟨_, _, _, rfl⟩ := hsame
    rfl
  have hvalues : st'.autoMatchValues d.userId = st.autoMatchValues d.userId := by
    obtain ⟨_, _, _, rfl⟩ := hsame
    rfl
  have hknows : st'.knowsPair = st.knowsPair := by
    obtain ⟨_, _, _, rfl⟩ := hsame
    rfl
  have hid : (d.updated now).id = d.id := rfl
  have huser : (d.updated now).userId = d.userId := rfl
  unfold ruling?
  rw [hid, huser, hentries, hrules, hvalues, hknows]
  cases (st.activeRules d.userId).toOption with
  | none => rfl
  | some rules =>
      cases (st.autoMatchValues d.userId).toOption with
      | none => rfl
      | some values =>
          have hruled := d.ruled_updated hr (st.documentEntries d.id) values rules
          have hids : ∀ d' : Document, (d'.updated now).entries = d'.entries := fun _ => rfl
          simp only [Option.bind_eq_bind, Option.bind_some, hruled, hids]
          split <;> rfl

/-- A document that is there is stored with entries whose keys and values are known. -/
theorem perform_updateWithEntries {st : Store} {d : Document} (hdoc : st.hasDocument d.id = true)
    (hknown : (d.entries.map Entry.ids).all st.knowsPair = true) (now : Instant) :
    (StoreCall.updateWithEntries d).perform now st =
      .ok ((st.updateDocument d now).2.withEntries d.id (d.entries.map Entry.ids)) := by
  have hupdate : st.updateDocument d now = (true, (st.updateDocument d now).2) :=
    Prod.ext hdoc rfl
  have hthere : (st.updateDocument d now).2.hasDocument d.id = true := hdoc ▸
    hasDocument_changeDocument (f := (·.withFieldsOf d now)) (fun _ => rfl) d.id
  have hreplace := (replaceEntries_eq hthere (d.entries.map Entry.ids)).trans (if_pos hknown)
  have hstored : st.updateWithEntries d (d.entries.map Entry.ids) now =
      .ok (true, (st.updateDocument d now).2.withEntries d.id (d.entries.map Entry.ids)) := by
    rw [updateWithEntries, hupdate]
    simp only
    rw [hreplace]
    rfl
  change st.updateWithEntries d (d.entries.map Entry.ids) now >>= orNoDocument d.id = _
  rw [hstored]
  rfl

end Store

/-- The step of the rules edits as the ruling says, or not at all. -/
theorem Edit.ruling {r : Registry} {d d' : Document} {st st' : Store}
    (h : Edit r d st .rules d' st') : d' = d ∧ st' = st ∨ st.ruling? r d = some d' := by
  cases h with
  | none => exact .inl ⟨rfl, rfl⟩
  | @rules rules values _ _ _ hrules hvalues hupdated hstored =>
      obtain ⟨hknown, -⟩ := Store.updateWithEntries_true hstored
      refine .inr (Store.ruling?_eq_some.mpr ⟨rules, values, hrules, hvalues, hupdated.symm, ?_⟩)
      rw [List.all_eq_true]
      exact fun pair hpair => Bool.and_eq_true_iff.mpr (hknown pair hpair)

namespace Handler

open Act (Keeps)

variable {s : Surroundings} {desk : Desk} {updated : Document}

/-- Where there is a ruling, the step of the rules stores it. -/
theorem rules_of_ruling (hquiet : s.Quiet)
    (hdoc : desk.world.store.hasDocument desk.copy.id = true) (hr : s.registry.ActsBuiltin)
    (h : desk.world.store.ruling? s.registry desk.copy = some updated) :
    ∃ desk' now, rules s desk = (.ok (), desk') ∧ desk'.copy = updated ∧
      desk'.world.store = (desk.world.store.updateDocument updated now).2.withEntries updated.id
        (updated.entries.map Entry.ids) := by
  obtain ⟨rules, values, hrules, hvalues, hupdated, hknown⟩ := Store.ruling?_eq_some.mp h
  have hid : updated.id = desk.copy.id := by
    rw [← hupdated]
    exact (Document.sameOrigin_ruled hr).id
  rw [← hid] at hdoc
  have hstores := Store.perform_updateWithEntries hdoc hknown
  obtain ⟨desk', now, hrun, hcopy, hstored⟩ := rules_of_quiet hquiet desk hrules hvalues hupdated
    fun now => ⟨_, hstores now⟩
  rw [hstores] at hstored
  exact ⟨desk', now, hrun, hcopy, (Except.ok.inj hstored).symm⟩

/-- Where there is none, the step of the rules changes nothing. -/
theorem rules_of_no_ruling (hquiet : s.Quiet)
    (h : desk.world.store.ruling? s.registry desk.copy = none) :
    (rules s desk).2.copy = desk.copy ∧ (rules s desk).2.world.store = desk.world.store := by
  have hedited := rules_edits hquiet desk ⟨rfl, rfl, rfl⟩
  refine hedited.edit.ruling.resolve_right fun hsome => ?_
  rw [h] at hsome
  cases hsome

/-- The last step leaves the store as it is. -/
theorem ftsIndex_store (hquiet : s.Quiet) (desk : Desk) :
    (ftsIndex s desk).2.world.store = desk.world.store := by
  let J (desk' : Desk) : Prop := desk'.world.store = desk.world.store
  have hask : ∀ {α : Type} {c : StoreCall} (run : Store → Except StoreError α),
      (∀ now st, c.perform now st = .ok st) → Keeps s J (Act.onWorld (.ask c run)) := by
    intro α c run hasks desk' h'
    rw [hquiet.ask_eq _ hasks]
    exact ⟨(hquiet.next_store_of_ask _ hasks).trans h', fun _ _ => trivial⟩
  have hoffer : Keeps s J (Act.copy >>= fun d => Act.onWorld (offer d)) := by
    intro desk' h'
    rw [offer_copy_snd]
    exact ⟨h', fun _ _ => trivial⟩
  have hcopy : Keeps s J Act.copy := .bind .state fun _ _ => .pure trivial
  have htagged : Keeps s J (do
      let d ← Act.copy
      if d.tags.isNone then
        let tags ← Act.onWorld (.ask (.documentTags d.id) fun st => .ok (st.documentTags d.id))
        Act.setCopy { d with tags := some tags }
      Act.onWorld (offer (← Act.copy))) := by
    refine .bind hcopy fun d _ => ?_
    dsimp only
    split
    · exact .bind (hask _ fun _ _ => rfl) fun _ _ => .bind (.change fun _ h => h) fun _ _ => hoffer
    · exact hoffer
  have hkeeps : Keeps s J ftsIndex := by
    refine .bind hcopy fun d _ => ?_
    dsimp only
    split
    · exact .bind (hask _ fun _ _ => rfl) fun _ _ => .bind (.change fun _ h => h) fun _ _ => htagged
    · exact htagged
  exact (hkeeps desk rfl).1

end Handler

/-! Two desks with one document. -/

/-- Two desks with copies of one document that may differ in when it was changed last.  The row of
each is written from its copy, and the document has the same entries at both. -/
structure Desk.Twins (created : String) (desk desk' : Desk) : Prop where
  copy : ∃ now, desk'.copy = desk.copy.updated now
  wrote : desk.world.store.Wrote created desk.copy
  wrote' : desk'.world.store.Wrote created desk'.copy
  entries : desk'.world.store.entryRows desk.copy.id = desk.world.store.entryRows desk.copy.id
  vocabulary : desk.world.store.SameVocabulary desk'.world.store

/-- Stores that differ in jobs at most. -/
def Store.SameButJobs (st st' : Store) : Prop := ∃ jobs, st' = { st with jobs := jobs }

theorem Store.SameButJobs.refl (st : Store) : st.SameButJobs st := ⟨st.jobs, rfl⟩

theorem Store.SameButJobs.trans {st st' st'' : Store} (h : st.SameButJobs st')
    (h' : st'.SameButJobs st'') : st.SameButJobs st'' := by
  obtain ⟨_, rfl⟩ := h
  obtain ⟨jobs, rfl⟩ := h'
  exact ⟨jobs, rfl⟩

/-- Jobs are no part of the record of a document. -/
theorem Store.SameButJobs.sameRecord_iff {st st' st₁ st₁' : Store} {id : String}
    (h : st.SameButJobs st₁) (h' : st'.SameButJobs st₁') :
    st₁.SameRecord id st₁' ↔ st.SameRecord id st' := by
  obtain ⟨_, rfl⟩ := h
  obtain ⟨_, rfl⟩ := h'
  exact ⟨fun hsame => ⟨hsame.row, hsame.entries⟩, fun hsame => ⟨hsame.row, hsame.entries⟩⟩

/-- A desk that differs from another in the jobs, or in what is no matter of its document. -/
structure Desk.Beside (desk desk' : Desk) : Prop where
  copy : desk'.copy = desk.copy
  store : desk.world.store.SameButJobs desk'.world.store

theorem Desk.beside_aside (desk : Desk) : Pass.Aside desk.Beside :=
  fun _ jobs _ _ h => ⟨h.copy, h.store.trans ⟨jobs, rfl⟩⟩

namespace Desk.Twins

variable {created : String} {r : Registry} {t : Step} {a b a' b' : Desk}

theorem sameRecord (h : Twins created a b) :
    a.world.store.SameRecord a.copy.id b.world.store := by
  obtain ⟨now, hcopy⟩ := h.copy
  obtain ⟨changed, hrow⟩ := h.wrote
  obtain ⟨changed', hrow'⟩ := h.wrote'
  have hid : b.copy.id = a.copy.id := by
    rw [hcopy]
    rfl
  rw [hid] at hrow'
  refine ⟨⟨changed', ?_⟩, fun _ => by rw [h.entries]⟩
  rw [hrow, hrow', hcopy]
  rfl

theorem beside (h : Twins created a b) (ha : a.Beside a') (hb : b.Beside b') :
    Twins created a' b' := by
  obtain ⟨ha, jobs, hstore⟩ := ha
  obtain ⟨hb, jobs', hstore'⟩ := hb
  refine ⟨?_, ?_, ?_, ?_, ?_⟩
  · rw [ha, hb]
    exact h.copy
  · rw [ha, hstore]
    exact h.wrote
  · rw [hb, hstore']
    exact h.wrote'
  · rw [ha, hstore, hstore']
    exact h.entries
  · rw [hstore, hstore']
    obtain ⟨documents, _, entries, hsame⟩ := h.vocabulary
    rw [hsame]
    exact ⟨documents, jobs', entries, rfl⟩

/-- Edits that leave the copies alike leave twins, if they leave the entries alike. -/
theorem edited (hr : r.ActsBuiltin) (h : Twins created a b)
    (ha : Edit r a.copy a.world.store t a'.copy a'.world.store)
    (hb : Edit r b.copy b.world.store t b'.copy b'.world.store)
    (hcopy : ∃ now, b'.copy = a'.copy.updated now)
    (hentries : b'.world.store.entryRows a'.copy.id = a'.world.store.entryRows a'.copy.id) :
    Twins created a' b' :=
  ⟨hcopy, ha.wrote hr h.wrote, hb.wrote hr h.wrote', hentries,
    ha.vocabulary.symm.trans (h.vocabulary.trans hb.vocabulary)⟩

/-- Only the rules change entries. -/
theorem edited_of_ne (hr : r.ActsBuiltin) (ht : t ≠ .rules) (h : Twins created a b)
    (ha : Edit r a.copy a.world.store t a'.copy a'.world.store)
    (hb : Edit r b.copy b.world.store t b'.copy b'.world.store)
    (hcopy : ∃ now, b'.copy = a'.copy.updated now) : Twins created a' b' := by
  refine h.edited hr ha hb hcopy ?_
  have hentries := h.entries
  unfold Store.entryRows at hentries ⊢
  rw [(ha.spares ht).1, (hb.spares ht).1, (ha.sameOrigin hr).id]
  exact hentries

end Desk.Twins

/-! The steps on twins. -/

/-- What a step between the hash and the rules makes of a copy, told what was found. -/
def Surroundings.worked (s : Surroundings) (t : Step) (found : String) (d : Document) : Document :=
  match t with
  | .parseContent => { d with content := Text.normalize found }
  | .detectLanguage => s.spoken d
  | _ => d

theorem Surroundings.worked_updated (s : Surroundings) (t : Step) (found : String) (now : Instant)
    (d : Document) : s.worked t found (d.updated now) = (s.worked t found d).updated now := by
  cases t <;> rfl

theorem Surroundings.worked_worked (s : Surroundings) (t : Step) (found : String) (d : Document) :
    s.worked t found (s.worked t found d) = s.worked t found d := by
  cases t with
  | detectLanguage => exact s.spoken_spoken d
  | _ => rfl

theorem Edit.thumbnail {r : Registry} {d d' : Document} {st st' : Store}
    (h : Edit r d st .thumbnail d' st') : d' = d ∧ st' = st := by
  cases h
  exact ⟨rfl, rfl⟩

namespace Handler

open Pass (obstacle)

variable {s : Surroundings} {t : Step} {began began' ended : Desk} {scratch created : String}
  {r : Except PipelineError Unit}

theorem thumbnail_eq_of_find
    (h : (find scratch .thumbnail s began').1 = (find scratch .thumbnail s began).1) :
    (thumbnail scratch s began').1 = (thumbnail scratch s began).1 := by
  have hfind : ∀ desk, (find scratch .thumbnail s desk).1 =
      (thumbnail scratch s desk).1.map fun _ => "" := by
    intro desk
    have hfind : find scratch .thumbnail s desk =
        (thumbnail scratch >>= fun _ => (pure "" : Act Desk String)) s desk := rfl
    rw [hfind]
    rcases hrun : thumbnail scratch s desk with ⟨i | u, desk'⟩
    · rw [Act.bind_of_error hrun]
      rfl
    · rw [Act.bind_of_ok hrun]
      rfl
  rw [hfind, hfind] at h
  generalize (thumbnail scratch s began').1 = left at h
  generalize (thumbnail scratch s began).1 = right at h
  cases left <;> cases right <;> cases h <;> rfl

/-- Where a step between the hash and the rules finds the same as in a run from which the pass goes
on, the pass goes on again, and the step makes the same of its copy. -/
theorem ofStep_worked (hquiet : s.Quiet)
    (hdoc : began.world.store.hasDocument began.copy.id = true)
    (hdoc' : began'.world.store.hasDocument began'.copy.id = true)
    (ht : t ≠ .hash ∧ t ≠ .rules ∧ t ≠ .ftsIndex)
    (hfind : (find scratch t s began').1 = (find scratch t s began).1)
    (hended : ofStep scratch t s began = (r.mapError .error, ended))
    (hgoes : obstacle t r = none) :
    ∃ found r' ended', ended.copy = s.worked t found began.copy ∧
      ofStep scratch t s began' = (r'.mapError .error, ended') ∧ obstacle t r' = none ∧
      ended'.copy = s.worked t found began'.copy := by
  obtain ⟨hhash, hrules, hlast⟩ := ht
  have hmandatory : ∀ {r : Except PipelineError Unit}, obstacle .parseContent r = none →
      r = .ok () := by
    rintro (e | u) h
    · cases h
    · rfl
  cases t with
  | hash => exact absurd rfl hhash
  | rules => exact absurd rfl hrules
  | ftsIndex => exact absurd rfl hlast
  | thumbnail =>
      have hcopy := (ofStep_edits hquiet hdoc scratch hlast).edit.thumbnail.1
      have hcopy' := (ofStep_edits hquiet hdoc' scratch hlast).edit.thumbnail.1
      rw [hended] at hcopy
      have hsame := (thumbnail_eq_of_find hfind).trans (congrArg Prod.fst hended)
      exact ⟨"", r, (thumbnail scratch s began').2, hcopy, Prod.ext hsame rfl, hgoes, hcopy'⟩
  | parseContent =>
      obtain rfl := hmandatory hgoes
      obtain ⟨found, hfound⟩ := findText_of_parseContent (congrArg Prod.fst hended)
      have hcopy := (parseContent_of_found hquiet hdoc hfound).2
      obtain ⟨hok, hcopy'⟩ := parseContent_of_found hquiet hdoc' (hfind.trans hfound)
      have hrun : parseContent scratch s began = (.ok (), ended) := hended
      rw [hrun] at hcopy
      exact ⟨found, .ok (), _, hcopy, Prod.ext hok rfl, rfl, hcopy'⟩
  | detectLanguage =>
      have hcopy := (detectLanguage_of_quiet hquiet hdoc).2
      obtain ⟨hok, hcopy'⟩ := detectLanguage_of_quiet hquiet hdoc'
      have hrun : detectLanguage s began = (r.mapError .error, ended) := hended
      rw [hrun] at hcopy
      exact ⟨"", .ok (), _, hcopy, Prod.ext hok rfl, rfl, hcopy'⟩

/-- The rules make of twins what they make of one document. -/
theorem rules_twins (hquiet : s.Quiet) (hr : s.registry.ActsBuiltin)
    (hrespects : ∀ now, s.registry.Respects (Document.updated now))
    (htwins : began.Twins created began') :
    (rules s began).2.Twins created (rules s began').2 := by
  have hself : ∀ desk : Desk, desk.Still desk := fun _ => ⟨rfl, rfl, rfl⟩
  have hedit := (rules_edits hquiet began (hself _)).edit
  have hedit' := (rules_edits hquiet began' (hself _)).edit
  obtain ⟨now, hcopy⟩ := htwins.copy
  have hruling := Store.ruling?_congr (hrespects now) htwins.vocabulary htwins.entries
  rw [← hcopy] at hruling
  cases hupdated : began.world.store.ruling? s.registry began.copy with
  | none =>
      rw [hupdated] at hruling
      obtain ⟨hsame, hstore⟩ := rules_of_no_ruling hquiet hupdated
      obtain ⟨hsame', hstore'⟩ := rules_of_no_ruling hquiet hruling
      refine htwins.edited hr hedit hedit' ⟨now, ?_⟩ ?_
      · rw [hsame, hsame', hcopy]
      · rw [hsame, hstore, hstore']
        exact htwins.entries
  | some updated =>
      rw [hupdated] at hruling
      obtain ⟨desk, at₁, hrun, hsame, hstore⟩ :=
        rules_of_ruling hquiet htwins.wrote.hasDocument hr hupdated
      obtain ⟨desk', at₂, hrun', hsame', hstore'⟩ :=
        rules_of_ruling hquiet htwins.wrote'.hasDocument hr hruling
      rw [hrun] at hedit ⊢
      rw [hrun'] at hedit' ⊢
      refine htwins.edited hr hedit hedit' ⟨now, ?_⟩ ?_
      · rw [hsame, hsame']
      · have hrows := Store.entryRows_withEntries (began.world.store.updateDocument updated at₁).2
          updated.id (updated.entries.map Entry.ids)
        have hrows' := Store.entryRows_withEntries
          (began'.world.store.updateDocument (updated.updated now) at₂).2
          updated.id (updated.entries.map Entry.ids)
        rw [hstore, hstore', hsame]
        exact hrows'.trans hrows.symm

/-- A step between the hash and the last leaves twins where it found twins. -/
theorem ofStep_twins (hquiet : s.Quiet) (hr : s.registry.ActsBuiltin)
    (hrespects : ∀ now, s.registry.Respects (Document.updated now))
    (htwins : began.Twins created began') (hhash : t ≠ .hash) (hlast : t ≠ .ftsIndex)
    (hfind : (find scratch t s began').1 = (find scratch t s began).1)
    (hended : ofStep scratch t s began = (r.mapError .error, ended))
    (hgoes : obstacle t r = none) :
    ∃ r' ended', ofStep scratch t s began' = (r'.mapError .error, ended') ∧
      obstacle t r' = none ∧ ended.Twins created ended' := by
  have hdoc := htwins.wrote.hasDocument
  have hdoc' := htwins.wrote'.hasDocument
  by_cases hrules : t = .rules
  · subst hrules
    have hleft : rules s began = (r.mapError .error, ended) := hended
    obtain ⟨r', -, hresult⟩ := (rules_answers hquiet).attempt began'
    have hstep := rules_twins hquiet hr hrespects htwins
    rw [hleft] at hstep
    exact ⟨r', (rules s began').2, Prod.ext hresult rfl, rfl, hstep⟩
  · obtain ⟨now, hcopy⟩ := htwins.copy
    obtain ⟨found, r', ended', hworked, hrun, hgoes', hworked'⟩ :=
      ofStep_worked hquiet hdoc hdoc' ⟨hhash, hrules, hlast⟩ hfind hended hgoes
    have hedit := (ofStep_edits hquiet hdoc scratch hlast).edit
    have hedit' := (ofStep_edits hquiet hdoc' scratch hlast).edit
    rw [hended] at hedit
    rw [hrun] at hedit'
    refine ⟨r', ended', hrun, hgoes', htwins.edited_of_ne hr hrules hedit hedit' ⟨now, ?_⟩⟩
    rw [hworked, hworked', hcopy, Surroundings.worked_updated]

/-- A step other than the rules and the last changes nothing where it is run again on what it has
made, if it finds the same. -/
theorem ofStep_again (hquiet : s.Quiet) (hr : s.registry.ActsBuiltin)
    (hdoc : began.world.store.hasDocument began.copy.id = true)
    (htwins : ended.Twins created began') (hrules : t ≠ .rules) (hlast : t ≠ .ftsIndex)
    (hfind : (find scratch t s began').1 = (find scratch t s began).1)
    (hended : ofStep scratch t s began = (r.mapError .error, ended))
    (hgoes : obstacle t r = none) :
    ∃ r' ended', ofStep scratch t s began' = (r'.mapError .error, ended') ∧
      obstacle t r' = none ∧ ended.Twins created ended' := by
  obtain ⟨now, hcopy⟩ := htwins.copy
  by_cases hhash : t = .hash
  · subst hhash
    obtain rfl : r = .ok () := by
      rcases r with e | u
      · cases hgoes
      · rfl
    have hfound : (findHash s began).1 = .ok ended.copy.hash := hash_ok hended
    have hsame : (findHash s began').1 = .ok began'.copy.hash := by
      rw [hcopy]
      exact hfind.trans hfound
    exact ⟨.ok (), began', hash_of_found hsame, rfl, htwins⟩
  · have hdoc' := htwins.wrote'.hasDocument
    obtain ⟨found, r', ended', hworked, hrun, hgoes', hworked'⟩ :=
      ofStep_worked hquiet hdoc hdoc' ⟨hhash, hrules, hlast⟩ hfind hended hgoes
    have hedit := (ofStep_edits hquiet hdoc' scratch hlast).edit
    rw [hrun] at hedit
    refine ⟨r', ended', hrun, hgoes', htwins.edited_of_ne hr hrules (.none t) hedit ⟨now, ?_⟩⟩
    rw [hworked', hcopy, Surroundings.worked_updated, hworked, Surroundings.worked_worked]

end Handler

/-! The same steps from twins. -/

theorem Act.attempt_eq_ok {σ α : Type} {s : Surroundings} {x : Act σ α} {w w' : σ}
    {r : Except PipelineError α} :
    x.attempt s w = (.ok r, w') ↔ x s w = (r.mapError .error, w') := by
  constructor
  · intro h
    rcases attempt_cases x s w with ⟨r', hr, hresult⟩ | ⟨i, hi, -⟩
    · rw [hr] at h
      cases h
      exact Prod.ext hresult rfl
    · rw [hi] at h
      cases h
  · intro h
    cases r with
    | ok a => exact attempt_of_ok h
    | error e => exact attempt_of_fail h

namespace Pass

variable {s : Surroundings} {id scratch created : String} {t : Step} {steps : List Step}
  {handler : Handler} {desk desk' last : Desk}

theorem begin_beside (hquiet : s.Quiet) (id : String) (t : Step) (desk : Desk) :
    ∃ began, begin id t s desk = (.ok (), began) ∧ desk.Beside began := by
  obtain ⟨began, hbegin⟩ := begin_of_quiet hquiet id t desk
  have hkeeps : Act.Keeps s desk.Beside (begin id t) :=
    begin_keeps_aside hquiet desk.beside_aside
  have hbeside := (hkeeps desk ⟨rfl, .refl _⟩).1
  rw [hbegin] at hbeside
  exact ⟨began, hbegin, hbeside⟩

/-- Where the pass goes on from a step, its end was noted and changed nothing but jobs. -/
theorem runStep_of_goes (hquiet : s.Quiet) {began ended : Desk} {r : Except PipelineError Unit}
    (hbegin : begin id t s desk = (.ok (), began))
    (hended : handler s began = (r.mapError .error, ended)) (hgoes : obstacle t r = none) :
    ∃ desk', runStep handler id t s desk = (.ok none, desk') ∧ ended.Beside desk' := by
  have hfinal : t.mandatory = false ∨ note r = none := by
    unfold obstacle at hgoes
    cases hmandatory : t.mandatory with
    | false => exact .inl rfl
    | true =>
        rw [hmandatory] at hgoes
        exact .inr hgoes
  have hfinish : Act.onWorld (finish id t (note r)) s ended =
      (.ok (), ended.next s (.call (.finishJob id t (note r)))) := hquiet.tell_of_ok rfl
  obtain ⟨desk', hconclude⟩ : ∃ desk', conclude id t (note r) s ended = (.ok none, desk') := by
    rw [conclude_of_cleared hfinal hfinish]
    exact ⟨_, Act.bind_of_ok (hquiet.tell_of_ok rfl)⟩
  have hkeeps : Act.Keeps s ended.Beside (conclude id t (note r)) :=
    conclude_keeps_aside hquiet ended.beside_aside (note r)
  have hbeside := (hkeeps ended ⟨rfl, .refl _⟩).1
  rw [hconclude] at hbeside
  refine ⟨desk', ?_, hbeside⟩
  unfold runStep
  rw [Act.bind_of_ok hbegin, Act.bind_of_ok (Act.attempt_eq_ok.mpr hended)]
  exact hconclude

/-- What a step has done from which the pass goes on. -/
theorem exists_of_runStep (hquiet : s.Quiet)
    (h : runStep handler id t s desk = (.ok none, desk')) :
    ∃ began r ended, begin id t s desk = (.ok (), began) ∧ desk.Beside began ∧
      handler s began = (r.mapError .error, ended) ∧ obstacle t r = none ∧ ended.Beside desk' := by
  obtain ⟨_, began, hbegin, hrest⟩ := Act.exists_of_bind_ok h
  obtain ⟨r, ended, hattempt, hconclude⟩ := Act.exists_of_bind_ok hrest
  have hended := Act.attempt_eq_ok.mp hattempt
  obtain ⟨began', hbegin', hbeside⟩ := begin_beside hquiet id t desk
  rw [hbegin] at hbegin'
  cases hbegin'
  have hgoes : obstacle t r = none := by
    unfold obstacle
    rcases conclude_ok hconclude with ⟨-, hfinal | hnote, -⟩ | ⟨reason, hsome, -⟩
    · rw [hfinal]
      rfl
    · rw [hnote, ite_self]
    · cases hsome
  obtain ⟨desk₁, hstep, hlast⟩ := runStep_of_goes hquiet hbegin hended hgoes
  rw [h] at hstep
  cases hstep
  exact ⟨began, r, ended, hbegin, hbeside, hended, hgoes, hlast⟩

theorem eq_ftsIndex_of_behind (h : Step.rules.position < t.position) : t = .ftsIndex := by
  cases t with
  | ftsIndex => rfl
  | _ => exact absurd h (by decide)

/-- Runs of the last step change nothing but jobs. -/
theorem runSteps_published (hquiet : s.Quiet) (scratch id : String)
    (hsteps : ∀ t ∈ steps, t = .ftsIndex) (desk : Desk) :
    ∃ last, runSteps (Handler.ofStep scratch) id steps s desk = (.ok none, last) ∧
      desk.world.store.SameButJobs last.world.store := by
  induction steps generalizing desk with
  | nil => exact ⟨desk, rfl, .refl _⟩
  | cons u rest ih =>
      obtain rfl := hsteps u List.mem_cons_self
      obtain ⟨began, hbegin, hbegun⟩ := begin_beside hquiet id .ftsIndex desk
      obtain ⟨r, -, hresult⟩ := (Handler.ftsIndex_answers hquiet).attempt began
      have hended : Handler.ofStep scratch .ftsIndex s began =
          (r.mapError .error, (Handler.ftsIndex s began).2) := Prod.ext hresult rfl
      obtain ⟨desk₁, hstep, hbeside⟩ := runStep_of_goes hquiet hbegin hended rfl
      obtain ⟨last, hrun, hstore⟩ := ih (fun t ht => hsteps t (List.mem_cons_of_mem _ ht)) desk₁
      have hkept := hbeside.store
      rw [Handler.ftsIndex_store hquiet] at hkept
      exact ⟨last, (runSteps_of_none hstep).trans hrun, hbegun.store.trans (hkept.trans hstore)⟩

/-- The steps behind the hash leave the same record of the document where they begin with twins and
find the same. -/
theorem runSteps_twins (hquiet : s.Quiet) (hr : s.registry.ActsBuiltin)
    (hrespects : ∀ now, s.registry.Respects (Document.updated now))
    (hincreasing : steps.Pairwise fun t u => t.position < u.position) (hhash : .hash ∉ steps)
    (htwins : desk.Twins created desk')
    (hrun : runSteps (Handler.ofStep scratch) id steps s desk = (.ok none, last))
    (hfinds : ∀ t began began', Begins (Handler.ofStep scratch) id s steps desk t began →
      Begins (Handler.ofStep scratch) id s steps desk' t began' →
      (Handler.find scratch t s began').1 = (Handler.find scratch t s began).1) :
    ∃ last', runSteps (Handler.ofStep scratch) id steps s desk' = (.ok none, last') ∧
      last.world.store.SameRecord desk.copy.id last'.world.store := by
  induction steps generalizing desk desk' with
  | nil =>
      cases hrun
      exact ⟨desk', rfl, htwins.sameRecord⟩
  | cons u rest ih =>
      obtain ⟨hfirst, hrest⟩ := List.pairwise_cons.mp hincreasing
      by_cases hu : u = .ftsIndex
      · -- Nothing is behind the last step.
        subst hu
        have hall : ∀ v ∈ .ftsIndex :: rest, v = .ftsIndex :=
          List.forall_mem_cons.mpr ⟨rfl, fun v hv =>
            eq_ftsIndex_of_behind (Nat.lt_trans (by decide) (hfirst v hv))⟩
        obtain ⟨last₁, hrun₁, hstore⟩ := runSteps_published hquiet scratch id hall desk
        obtain ⟨last', hrun', hstore'⟩ := runSteps_published hquiet scratch id hall desk'
        rw [hrun] at hrun₁
        cases hrun₁
        exact ⟨last', hrun', (hstore.sameRecord_iff hstore').mpr htwins.sameRecord⟩
      · obtain ⟨answer, desk₁, hstep, hlater⟩ := Act.exists_of_bind_ok hrun
        cases answer with
        | some reason => cases hlater
        | none =>
            obtain ⟨began, r, ended, hbegin, hbegun, hended, hgoes, hbeside⟩ :=
              exists_of_runStep hquiet hstep
            obtain ⟨began', hbegin', hbegun'⟩ := begin_beside hquiet id u desk'
            have hu₀ : u ≠ .hash := fun heq => hhash (heq ▸ List.mem_cons_self)
            obtain ⟨r', ended', hended', hgoes', htwins'⟩ := Handler.ofStep_twins hquiet hr
              hrespects (htwins.beside hbegun hbegun') hu₀ hu
              (hfinds u began began' (.here hbegin) (.here hbegin')) hended hgoes
            obtain ⟨desk₁', hstep', hbeside'⟩ := runStep_of_goes hquiet hbegin' hended' hgoes'
            obtain ⟨last', hrun', hsame⟩ := ih hrest
              (fun hmem => hhash (List.mem_cons_of_mem u hmem)) (htwins'.beside hbeside hbeside')
              hlater fun t began began' hbegins hbegins' =>
                hfinds t began began' (.later hstep hbegins) (.later hstep' hbegins')
            have hid : desk₁.copy.id = desk.copy.id := by
              have hedit := (Handler.ofStep_edits hquiet
                (htwins.beside hbegun hbegun').wrote.hasDocument scratch hu).edit
              rw [hended] at hedit
              rw [hbeside.copy, (hedit.sameOrigin hr).id, hbegun.copy]
            rw [hid] at hsame
            exact ⟨last', (runSteps_of_none hstep').trans hrun', hsame⟩

end Pass

end Docket
