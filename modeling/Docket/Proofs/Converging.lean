import Docket.Proofs.Leftovers

/-!
A pass that is made again because the end of one of its steps could not be noted.  It leaves the
document as the undisturbed pass does, unless the step was that of the rules and these make
something else of what they have made.
-/

namespace Docket

open Docket.Calendar (Instant)

/-! What is read back. -/

/-- What is read of a row that was written from a document. -/
theorem Document.read_rowAt {c d : Document} {created changed : String}
    (h : (c.rowAt created changed).read = .ok d) :
    d = { c with date := c.date.truncate, metadata := none, tags := none,
                 createdAt := d.createdAt, updatedAt := d.updatedAt } ∧
      readMoment 12 created = .ok d.createdAt := by
  have hname : d.status.name = c.status.name := (Pass.status_of_read h).2
  obtain ⟨date, hdate, h⟩ := exists_of_bind_ok h
  obtain ⟨status, -, h⟩ := exists_of_bind_ok h
  obtain ⟨createdAt, hcreated, h⟩ := exists_of_bind_ok h
  obtain ⟨updatedAt, -, h⟩ := exists_of_bind_ok h
  cases h
  obtain rfl : c.date.truncate = date := by
    have hread := (readMoment_toMicrosText 9 c.date).symm.trans hdate
    split at hread
    · exact Except.ok.inj hread
    · cases hread
  obtain rfl : c.status = status := by
    have hnamed := congrArg DocumentStatus.ofName? hname
    rw [DocumentStatus.ofName?_name, DocumentStatus.ofName?_name] at hnamed
    exact (Option.some.inj hnamed).symm
  exact ⟨rfl, hcreated⟩

/-- A document that is read back from the row that was written from a copy has written it as well. -/
theorem Store.Wrote.reread {st : Store} {created : String} {c d : Document}
    (h : st.Wrote created c) (hget : st.getDocument c.id = .ok d) :
    d.id = c.id ∧ st.Wrote created d := by
  obtain ⟨changed, hrow⟩ := h
  have hread : (c.rowAt created changed).read = .ok d := (getDocument_of_row hrow).symm.trans hget
  obtain ⟨hd, -⟩ := Document.read_rowAt hread
  have hid : d.id = c.id := by
    rw [hd]
  have hsame : d.rowAt created changed = c.rowAt created changed := by
    rw [hd]
    simp only [Document.rowAt, DocumentRow.ofDocument, c.date.toMicrosText_truncate]
  exact ⟨hid, changed, by rw [hid, hsame, hrow]⟩

/-- A desk before the rules, whose copy has come from a document that was read, and from whose copy
the row is written. -/
structure Desk.Follows (created : String) (origin : Document) (desk : Desk) : Prop where
  same : origin.SameOrigin desk.copy
  metadata : desk.copy.metadata = none
  date : desk.copy.date = origin.date
  wrote : desk.world.store.Wrote created desk.copy

namespace Desk.Follows

variable {created : String} {origin d : Document} {desk desk' : Desk}

theorem aside : Pass.Aside (Desk.Follows created origin) :=
  fun _ _ _ _ h => ⟨h.same, h.metadata, h.date, h.wrote⟩

theorem edited {r : Registry} {t : Step} (hr : r.ActsBuiltin) (ht : t ≠ .rules)
    (h : desk.Follows created origin)
    (hedit : Edit r desk.copy desk.world.store t desk'.copy desk'.world.store) :
    desk'.Follows created origin := by
  obtain ⟨-, hmetadata, hdate⟩ := hedit.spares ht
  exact ⟨h.same.trans (hedit.sameOrigin hr), hmetadata.trans h.metadata, hdate.trans h.date,
    hedit.wrote hr h.wrote⟩

/-- The document is read back as the copy is, but for when it was changed last. -/
theorem reread {changed : String} (h : desk.Follows created origin)
    (horigin : (origin.rowAt created changed).read = .ok origin)
    (hget : desk.world.store.getDocument desk.copy.id = .ok d) :
    ∃ now, d = desk.copy.updated now := by
  obtain ⟨changed', hrow⟩ := h.wrote
  have hread : (desk.copy.rowAt created changed').read = .ok d :=
    (Store.getDocument_of_row hrow).symm.trans hget
  obtain ⟨hd, hcreated⟩ := Document.read_rowAt hread
  obtain ⟨hfirst, hcreated'⟩ := Document.read_rowAt horigin
  have hdate : desk.copy.date.truncate = desk.copy.date := by
    rw [h.date]
    exact (congrArg Document.date hfirst).symm
  have htags : desk.copy.tags = none := h.same.tags.trans (congrArg Document.tags hfirst)
  have hcreatedAt : d.createdAt = desk.copy.createdAt :=
    (Except.ok.inj (hcreated.symm.trans hcreated')).trans h.same.createdAt.symm
  refine ⟨d.updatedAt, hd.trans ?_⟩
  simp only [Document.updated, Document.mk.injEq, true_and, and_true]
  exact ⟨hdate, h.metadata.symm, htags.symm, hcreatedAt⟩

end Desk.Follows

/-! The rules on what they have made. -/

/-- The rules, applied to a document that is stored, would change neither its fields nor its entries,
or they cannot be applied to it. -/
def Store.RulesSettled (st : Store) (r : Registry) (d : Document) : Prop :=
  ∀ again, st.ruling? r d = some again →
    DocumentRow.ofDocument again = DocumentRow.ofDocument d ∧
      ∀ ids, ids ∈ again.entries.map Entry.ids ↔ ⟨d.id, ids.1, ids.2⟩ ∈ st.entryRows d.id

/-- The entries of a document are told apart by their ids. -/
theorem Store.mem_entryRows_iff {st st' : Store} {id : String} :
    (∀ row, row ∈ st'.entryRows id ↔ row ∈ st.entryRows id) ↔
      ∀ ids : Int × Int, ⟨id, ids.1, ids.2⟩ ∈ st'.entryRows id ↔
        ⟨id, ids.1, ids.2⟩ ∈ st.entryRows id := by
  refine ⟨fun h ids => h _, fun h row => ?_⟩
  by_cases hid : row.documentId = id
  · subst hid
    exact h (row.keyId, row.valueId)
  · have hother : ∀ st : Store, row ∉ st.entryRows id := by
      intro st hmem
      exact hid (by simpa using (List.mem_filter.mp hmem).2)
    exact iff_of_false (hother st') (hother st)

theorem Document.rowAt_eq_iff {d d' : Document} {created changed changed' : String}
    (hsame : d.SameOrigin d') :
    d'.rowAt created changed' = { d.rowAt created changed with updatedAt := changed' } ↔
      DocumentRow.ofDocument d' = DocumentRow.ofDocument d := by
  simp only [rowAt, DocumentRow.ofDocument, hsame.createdAt, hsame.updatedAt,
    DocumentRow.mk.injEq, and_true]

/-- The step of the rules leaves the record of the document exactly if the document is settled. -/
theorem Handler.rules_sameRecord_iff {s : Surroundings} {desk : Desk} {created : String}
    (hquiet : s.Quiet) (hr : s.registry.ActsBuiltin)
    (hwrote : desk.world.store.Wrote created desk.copy) :
    desk.world.store.SameRecord desk.copy.id (rules s desk).2.world.store ↔
      desk.world.store.RulesSettled s.registry desk.copy := by
  have hedit := (rules_edits hquiet desk ⟨rfl, rfl, rfl⟩).edit
  obtain ⟨changed, hrow⟩ := hwrote
  cases hagain : desk.world.store.ruling? s.registry desk.copy with
  | none =>
      rw [(rules_of_no_ruling hquiet hagain).2]
      refine ⟨fun _ again hsome => ?_, fun _ => ⟨⟨changed, ?_⟩, fun _ => Iff.rfl⟩⟩
      · rw [hagain] at hsome
        cases hsome
      · rw [hrow]
        rfl
  | some again =>
      obtain ⟨desk', now, hrun, hcopy, hstore⟩ :=
        rules_of_ruling hquiet (Store.hasDocument_of_documentRow? hrow) hr hagain
      rw [hrun] at hedit ⊢
      have hsame := hedit.sameOrigin hr
      obtain ⟨changed', hrow'⟩ := hedit.wrote hr ⟨changed, hrow⟩
      rw [hsame.id] at hrow'
      rw [hcopy] at hsame hrow'
      have hentries : desk'.world.store.entryRows desk.copy.id =
          (again.entries.map Entry.ids).eraseDups.map fun ids => ⟨desk.copy.id, ids.1, ids.2⟩ := by
        rw [hstore, hsame.id]
        exact Store.entryRows_withEntries _ _ _
      have hmem : ∀ ids : Int × Int, ⟨desk.copy.id, ids.1, ids.2⟩ ∈
          desk'.world.store.entryRows desk.copy.id ↔ ids ∈ again.entries.map Entry.ids := by
        intro ids
        rw [hentries]
        simp [Prod.ext_iff]
      constructor
      · rintro ⟨⟨changed'', hrows⟩, hsameEntries⟩ again' hagain'
        rw [hagain] at hagain'
        cases hagain'
        rw [hrow, hrow'] at hrows
        have hfields := Option.some.inj hrows
        obtain rfl : changed' = changed'' := congrArg DocumentRow.updatedAt hfields
        refine ⟨(Document.rowAt_eq_iff hsame).mp hfields, fun ids => ?_⟩
        rw [← hmem, hsameEntries]
      · intro hsettled
        obtain ⟨hfields, hids⟩ := hsettled again hagain
        refine ⟨⟨changed', ?_⟩, Store.mem_entryRows_iff.mpr fun ids => ?_⟩
        · rw [hrow, hrow']
          exact congrArg some ((Document.rowAt_eq_iff hsame).mpr hfields)
        · rw [← hids]
          exact hmem ids

/-- The step of the rules leaves the files. -/
theorem Handler.rules_files {s : Surroundings} {desk desk' : Desk}
    (hrun : Handler.rules s desk = (.ok (), desk')) : desk'.world.files = desk.world.files := by
  have hsurroundings : Act.surroundings s desk = (.ok s, desk) := rfl
  have hcopy : Act.copy s desk = (.ok desk.copy, desk) := rfl
  unfold Handler.rules at hrun
  rw [Act.bind_of_ok hsurroundings, Act.bind_of_ok hcopy] at hrun
  obtain ⟨rules, desk₁, hask₁, hrun⟩ := Act.exists_of_bind_ok hrun
  obtain ⟨entries, desk₂, hask₂, hrun⟩ := Act.exists_of_bind_ok hrun
  obtain ⟨values, desk₃, hask₃, hrun⟩ := Act.exists_of_bind_ok hrun
  obtain ⟨_, desk₄, htell, hrun⟩ := Act.exists_of_bind_ok hrun
  obtain ⟨w₁, hasked₁, rfl⟩ := Act.onWorld_ok hask₁
  obtain ⟨w₂, hasked₂, rfl⟩ := Act.onWorld_ok hask₂
  obtain ⟨w₃, hasked₃, rfl⟩ := Act.onWorld_ok hask₃
  obtain ⟨w₄, htold, rfl⟩ := Act.onWorld_ok htell
  obtain ⟨-, rfl, -⟩ := Act.ask_eq_ok (fun _ _ => rfl) hasked₁
  obtain ⟨-, rfl, -⟩ := Act.ask_eq_ok (fun _ _ => rfl) hasked₂
  obtain ⟨-, rfl, -⟩ := Act.ask_eq_ok (fun _ _ => rfl) hasked₃
  obtain ⟨rfl, -, -⟩ := Act.tell_eq_ok htold
  cases hrun
  rfl

theorem Store.SameRecord.refl_of_row {st : Store} {id : String} {row : DocumentRow}
    (hrow : st.documentRow? id = some row) : st.SameRecord id st :=
  ⟨⟨row.updatedAt, by rw [hrow]; rfl⟩, fun _ => Iff.rfl⟩

namespace Pass

variable {s : Surroundings} {id created changed : String} {t : Step} {later : List Step}
  {origin d : Document} {began ended after last desk' : Desk} {r : Except PipelineError Unit}

section

variable (hquiet : s.Quiet) (hr : s.registry.ActsBuiltin)
  (hincreasing : (t :: later).Pairwise fun t u => t.position < u.position)
  (hafter : ended.Beside after)
  (hrun : runSteps (Handler.ofStep s.scratch) id later s after = (.ok none, last))
  (hd : ended.world.store.getDocument id = .ok d)
  (hstore : ended.world.store.SameButJobs desk'.world.store)

include hquiet hincreasing hafter hrun hd hstore

/-- The last step leaves the record when it is run again. -/
theorem runSteps_again_last (ht : t = .ftsIndex) :
    ∃ last', runSteps (Handler.ofStep s.scratch) id (t :: later) s desk' = (.ok none, last') ∧
      last.world.store.SameRecord id last'.world.store := by
  subst ht
  have hbehind : ∀ u ∈ later, u = .ftsIndex := fun u hu =>
    eq_ftsIndex_of_behind (Nat.lt_trans (by decide) ((List.pairwise_cons.mp hincreasing).1 u hu))
  obtain ⟨last₁, hrun₁, hlast⟩ := runSteps_published hquiet s.scratch id hbehind after
  obtain ⟨last', hrun', hlast'⟩ := runSteps_published hquiet s.scratch id
    (List.forall_mem_cons.mpr ⟨rfl, hbehind⟩) desk'
  rw [hrun] at hrun₁
  cases hrun₁
  obtain ⟨row, hrow, -⟩ := row_of_getDocument hd
  refine ⟨last', hrun', ?_⟩
  rw [(hafter.store.trans hlast).sameRecord_iff (hstore.trans hlast')]
  exact .refl_of_row hrow

include hr

/-- The rules leave the record when they are run again exactly if the document is settled. -/
theorem runSteps_again_rules (ht : t = .rules) (hid : ended.copy.id = id)
    (hwrote : ended.world.store.Wrote created ended.copy) (hcopy : desk'.copy = d) :
    ∃ last', runSteps (Handler.ofStep s.scratch) id (t :: later) s desk' = (.ok none, last') ∧
      (last.world.store.SameRecord id last'.world.store ↔
        ended.world.store.RulesSettled s.registry d) := by
  subst ht hid
  have hbehind : ∀ u ∈ later, u = .ftsIndex := fun u hu =>
    eq_ftsIndex_of_behind ((List.pairwise_cons.mp hincreasing).1 u hu)
  obtain ⟨began', hbegin, hbegun⟩ := begin_beside hquiet ended.copy.id .rules desk'
  obtain ⟨r', -, hresult⟩ := (Handler.rules_answers hquiet).attempt began'
  have hended' : Handler.ofStep s.scratch .rules s began' =
      (r'.mapError .error, (Handler.rules s began').2) := Prod.ext hresult rfl
  obtain ⟨after', hstep, hafter'⟩ := runStep_of_goes hquiet hbegin hended' rfl
  obtain ⟨last₁, hrun₁, hlast⟩ := runSteps_published hquiet s.scratch ended.copy.id hbehind after
  obtain ⟨last', hrun', hlast'⟩ :=
    runSteps_published hquiet s.scratch ended.copy.id hbehind after'
  rw [hrun] at hrun₁
  cases hrun₁
  have hcopy' : began'.copy = d := hbegun.copy.trans hcopy
  obtain ⟨hid, hreread⟩ := hwrote.reread hd
  obtain ⟨jobs, hbegan⟩ := hstore.trans hbegun.store
  have hwrote' : began'.world.store.Wrote created began'.copy := by
    rw [hcopy', hbegan]
    exact hreread
  have hiff := Handler.rules_sameRecord_iff hquiet hr hwrote'
  rw [hcopy', hid] at hiff
  have hsettled : began'.world.store.RulesSettled s.registry d ↔
      ended.world.store.RulesSettled s.registry d := by
    rw [hbegan]
    exact Iff.rfl
  refine ⟨last', (runSteps_of_none hstep).trans hrun', ?_⟩
  rw [← hsettled, ← hiff, (hafter.store.trans hlast).sameRecord_iff (hafter'.store.trans hlast')]
  exact (Store.SameButJobs.sameRecord_iff ⟨jobs, hbegan⟩ (.refl _)).symm

/-- A step before the rules leaves the same record when it is run again, and so do the steps behind
it, if they find the same. -/
theorem runSteps_again_before (hrespects : ∀ now, s.registry.Respects (Document.updated now))
    (hrules : t ≠ .rules) (hlast : t ≠ .ftsIndex) (hid : began.copy.id = id)
    (horigin : (origin.rowAt created changed).read = .ok origin)
    (hfollows : began.Follows created origin)
    (hended : Handler.ofStep s.scratch t s began = (r.mapError .error, ended))
    (hgoes : obstacle t r = none) (hcopy : desk'.copy = d)
    (hfind : ∀ began', begin id t s desk' = (.ok (), began') →
      (Handler.find s.scratch t s began').1 = (Handler.find s.scratch t s began).1)
    (hfinds : ∀ u desk desk₁, Begins (Handler.ofStep s.scratch) id s later after u desk →
      Begins (Handler.ofStep s.scratch) id s (t :: later) desk' u desk₁ →
      (Handler.find s.scratch u s desk₁).1 = (Handler.find s.scratch u s desk).1) :
    ∃ last', runSteps (Handler.ofStep s.scratch) id (t :: later) s desk' = (.ok none, last') ∧
      last.world.store.SameRecord id last'.world.store := by
  subst hid
  obtain ⟨hbehind, hlater⟩ := List.pairwise_cons.mp hincreasing
  have hhash : .hash ∉ later := fun hmem => Nat.not_lt_zero _ (hbehind _ hmem)
  have hdoc := hfollows.wrote.hasDocument
  have hedit := (Handler.ofStep_edits hquiet hdoc s.scratch hlast).edit
  rw [hended] at hedit
  have hid := (hedit.sameOrigin hr).id
  have hfollowed := hfollows.edited hr hrules hedit
  rw [← hid] at hd
  obtain ⟨now, hreread⟩ := hfollowed.reread horigin hd
  obtain ⟨began', hbegin, hbegun⟩ := begin_beside hquiet began.copy.id t desk'
  have htwins : ended.Twins created began' := by
    have hcopy' : began'.copy = ended.copy.updated now :=
      hbegun.copy.trans (hcopy.trans hreread)
    obtain ⟨jobs, hstored⟩ := hstore.trans hbegun.store
    refine ⟨⟨now, hcopy'⟩, hfollowed.wrote, ?_, ?_, ?_⟩
    · rw [hcopy', hstored]
      exact hfollowed.wrote
    · rw [hstored]
      rfl
    · rw [hstored]
      exact ⟨_, jobs, _, rfl⟩
  obtain ⟨r', ended', hended', hgoes', htwins'⟩ := Handler.ofStep_again hquiet hr hdoc htwins
    hrules hlast (hfind began' hbegin) hended hgoes
  obtain ⟨after', hstep, hafter'⟩ := runStep_of_goes hquiet hbegin hended' hgoes'
  obtain ⟨last', hrun', hsame⟩ := runSteps_twins hquiet hr hrespects hlater hhash
    (htwins'.beside hafter hafter') hrun fun u desk desk₁ hbegins hbegins' =>
      hfinds u desk desk₁ hbegins (.later hstep hbegins')
  rw [hafter.copy, hid] at hsame
  exact ⟨last', (runSteps_of_none hstep).trans hrun', hsame⟩

end

/-- What the handlers keep, the steps keep. -/
theorem runSteps_keeps_aside (hquiet : s.Quiet) {J : Desk → Prop} (hJ : Aside J)
    {handlers : Step → Handler} {steps : List Step}
    (hhandlers : ∀ u ∈ steps, Act.Keeps s J (handlers u)) :
    Act.Keeps s J (runSteps handlers id steps) := by
  induction steps with
  | nil => exact .pure trivial
  | cons u rest ih =>
      refine .bind (runStep_keeps_aside hquiet hJ (hhandlers u List.mem_cons_self)) fun r _ => ?_
      cases r with
      | some reason => exact .pure trivial
      | none => exact ih fun v hv => hhandlers v (List.mem_cons_of_mem u hv)

/-- Up to the rules the copy follows the document that was read. -/
theorem follows_of_split (hquiet : s.Quiet) (hr : s.registry.ActsBuiltin) {earlier : List Step}
    {desk before : Desk} (ht : t ≠ .ftsIndex)
    (hincreasing : (earlier ++ t :: later).Pairwise fun t u => t.position < u.position)
    (hdesk : desk.Follows created origin)
    (hearlier : runSteps (Handler.ofStep s.scratch) id earlier s desk = (.ok none, before))
    (hbegin : begin id t s before = (.ok (), began)) : began.Follows created origin := by
  have hbefore : ∀ u ∈ earlier, u ≠ .rules ∧ u ≠ .ftsIndex := by
    intro u hu
    have hlt := (List.pairwise_append.mp hincreasing).2.2 u hu t List.mem_cons_self
    have hnot : ¬ Step.rules.position < t.position := fun h => ht (eq_ftsIndex_of_behind h)
    constructor
    · rintro rfl
      exact hnot hlt
    · rintro rfl
      exact hnot (Nat.lt_trans (by decide) hlt)
  have hkeeps : Act.Keeps s (Desk.Follows created origin)
      (runSteps (Handler.ofStep s.scratch) id earlier) := by
    refine runSteps_keeps_aside hquiet Desk.Follows.aside fun u hu => ?_
    intro desk hdesk
    obtain ⟨hrules, hlast⟩ := hbefore u hu
    have hedited := Handler.ofStep_edits hquiet hdesk.wrote.hasDocument s.scratch hlast
    exact ⟨hdesk.edited hr hrules hedited.edit, fun _ _ => trivial⟩
  have hkept := (hkeeps desk hdesk).1
  rw [hearlier] at hkept
  have hbegun : Act.Keeps s (Desk.Follows created origin) (begin id t) :=
    begin_keeps_aside hquiet Desk.Follows.aside
  have hfollows := (hbegun before hkept).1
  rwa [hbegin] at hfollows

/-- A pass opens without a change of the store. -/
theorem opened_store (hquiet : s.Quiet) {w w₁ w₂ w₃ : World} {steps : List Step}
    (hget : Act.ask (.getDocument id) (·.getDocument id) s w = (.ok d, w₁))
    (hpending : pending id s w₁ = (.ok steps, w₂)) (hopen : openScratch s w₂ = (.ok (), w₃)) :
    w.store.getDocument id = .ok d ∧
      (∃ jobs, w.store.pendingJobs id = .ok jobs ∧ jobs.map (·.step) = steps) ∧
      w₃.store = w.store := by
  obtain ⟨hread, hstore₁, -⟩ := ask_ok hquiet (fun _ _ => rfl) hget
  obtain ⟨-, hstore₂, -⟩ := ask_ok hquiet (fun _ _ => rfl) hpending
  obtain ⟨jobs, hjobs, rfl⟩ := pending_ok hpending
  have hopened := (openScratch_shown s w₂).1
  rw [hopen] at hopened
  rw [hquiet.alone, hstore₁] at hjobs
  exact ⟨hread, ⟨jobs, hjobs, rfl⟩, hopened.trans (hstore₂.trans hstore₁)⟩

/-- Where a pass opens there is the directory for files that are made on the way. -/
theorem opened_files {w w₁ w₂ w₃ : World} {steps : List Step}
    (hget : Act.ask (.getDocument id) (·.getDocument id) s w = (.ok d, w₁))
    (hpending : pending id s w₁ = (.ok steps, w₂)) (hopen : openScratch s w₂ = (.ok (), w₃)) :
    w.files.makeDirectories s.scratch = .ok w₃.files := by
  obtain ⟨-, hnext, -⟩ := Act.ask_eq_ok (fun _ _ => rfl) hget
  obtain ⟨-, hnext', -⟩ := Act.ask_eq_ok (fun _ _ => rfl) hpending
  have hfiles₂ : w₂.files = w.files := by
    rw [hnext', hnext]
    rfl
  rw [← hfiles₂]
  cases hfiles : w₂.files.makeDirectories s.scratch with
  | error fault =>
      obtain ⟨_, _, hs, hopen⟩ := Act.exists_of_bind_ok hopen
      cases hs
      obtain ⟨_, _, hw, hopen⟩ := Act.exists_of_bind_ok hopen
      cases hw
      rw [hfiles] at hopen
      cases hopen
  | ok files =>
      rw [openScratch_of_ok hfiles] at hopen
      cases hopen
      rfl

/-- Another pass finds what a pass finds in the files and with the tools, wherever a step begins in
both, and can make the directory for files that are made on the way. -/
structure SameFindings (id : String) (s : Surroundings) (w w' : World) : Prop where
  opens : ∃ files, w'.files.makeDirectories s.scratch = .ok files
  finds : ∀ t began began', BeginsIn Handler.ofStep id s w t began →
    BeginsIn Handler.ofStep id s w' t began' →
    (Handler.find s.scratch t s began').1 = (Handler.find s.scratch t s began).1

/-- The way of an undisturbed pass around one of its steps: the steps before it are run from the
desk that the pass opens, then it, then the steps behind it. -/
structure Course (s : Surroundings) (id : String) (w w₃ : World) (origin : Document)
    (earlier : List Step) (t : Step) (later : List Step) (before began ended after last : Desk)
    (r : Except PipelineError Unit) : Prop where
  opens : ∃ w₁ w₂, Act.ask (.getDocument id) (·.getDocument id) s w = (.ok origin, w₁) ∧
    pending id s w₁ = (.ok (earlier ++ t :: later), w₂) ∧ openScratch s w₂ = (.ok (), w₃)
  earlier : runSteps (Handler.ofStep s.scratch) id earlier s ⟨w₃, origin⟩ = (.ok none, before)
  begins : begin id t s before = (.ok (), began)
  ends : Handler.ofStep s.scratch t s began = (r.mapError .error, ended)
  goes : obstacle t r = none
  notes : runStep (Handler.ofStep s.scratch t) id t s before = (.ok none, after)
  beside : ended.Beside after
  later : runSteps (Handler.ofStep s.scratch) id later s after = (.ok none, last)

/-- A pass that is completed takes such a way around each step that begins in it. -/
theorem exists_course (hquiet : s.Quiet) {w : World}
    (hdone : (process id s w).1 = .ok .completed)
    (hbegins : BeginsIn Handler.ofStep id s w t began)
    (hended : Handler.ofStep s.scratch t s began = (r.mapError .error, ended)) :
    ∃ w₃ origin earlier later before after last,
      Course s id w w₃ origin earlier t later before began ended after last r := by
  obtain ⟨origin, w₁, steps, w₂, w₃, last, _, hget, hpending, hopen, hrun, -, -, -⟩ :=
    process_completed hdone
  obtain ⟨earlier, later, before, rfl, hearlier, hbegin⟩ :=
    ((beginsIn_iff_of_opened hget hpending hopen).mp hbegins).split
  obtain ⟨answer, after, hstep, hlater⟩ :=
    Act.exists_of_bind_ok ((runSteps_append _ hearlier).symm.trans hrun)
  cases answer with
  | some reason => cases hlater
  | none =>
      obtain ⟨began₁, r₁, ended₁, hbegin₁, -, hended₁, hgoes, hbeside⟩ :=
        exists_of_runStep hquiet hstep
      rw [hbegin] at hbegin₁
      cases hbegin₁
      have hattempt := Act.attempt_eq_ok.mpr hended
      rw [Act.attempt_eq_ok.mpr hended₁] at hattempt
      cases hattempt
      exact ⟨w₃, origin, earlier, later, before, after, last, ⟨w₁, w₂, hget, hpending, hopen⟩,
        hearlier, hbegin, hended, hgoes, hstep, hbeside, hlater⟩

/-- What begins behind steps from all of which a pass goes on begins in the run of all. -/
theorem begins_append {handlers : Step → Handler} {earlier rest : List Step}
    {desk before began : Desk}
    (hearlier : runSteps handlers id earlier s desk = (.ok none, before))
    (hbegins : Begins handlers id s rest before t began) :
    Begins handlers id s (earlier ++ rest) desk t began := by
  induction earlier generalizing desk with
  | nil =>
      cases hearlier
      exact hbegins
  | cons u others ih =>
      obtain ⟨answer, desk₁, hstep, hrest⟩ := Act.exists_of_bind_ok hearlier
      cases answer with
      | some reason => cases hrest
      | none => exact .later hstep (ih hrest)

namespace Course

variable {w w₃ : World} {earlier : List Step} {before : Desk}
  (h : Course s id w w₃ origin earlier t later before began ended after last r)

include h

theorem begins_later {u : Step} {desk : Desk}
    (hbegins : Begins (Handler.ofStep s.scratch) id s later after u desk) :
    BeginsIn Handler.ofStep id s w u desk := by
  obtain ⟨w₁, w₂, hget, hpending, hopen⟩ := h.opens
  exact ⟨origin, w₁, _, w₂, w₃, hget, hpending, hopen,
    begins_append h.earlier (.later h.notes hbegins)⟩

theorem beginsIn : BeginsIn Handler.ofStep id s w t began := by
  obtain ⟨w₁, w₂, hget, hpending, hopen⟩ := h.opens
  exact ⟨origin, w₁, _, w₂, w₃, hget, hpending, hopen,
    begins_append h.earlier (.here h.begins)⟩

theorem run : runSteps (Handler.ofStep s.scratch) id (earlier ++ t :: later) s ⟨w₃, origin⟩ =
    (.ok none, last) :=
  (runSteps_append _ h.earlier).trans ((runSteps_of_none h.notes).trans h.later)

theorem opened (hquiet : s.Quiet) : w.store.getDocument id = .ok origin ∧
    (∃ jobs, w.store.pendingJobs id = .ok jobs ∧ jobs.map (·.step) = earlier ++ t :: later) ∧
    w₃.store = w.store := by
  obtain ⟨w₁, w₂, hget, hpending, hopen⟩ := h.opens
  exact opened_store hquiet hget hpending hopen

theorem increasing (hquiet : s.Quiet) (hkeyed : w.store.Keyed) :
    (earlier ++ t :: later).Pairwise fun t u => t.position < u.position := by
  obtain ⟨-, ⟨jobs, hjobs, hsplit⟩, -⟩ := h.opened hquiet
  rw [← hsplit]
  exact Store.pendingSteps_increasing hkeyed hjobs

theorem standing_opened (hquiet : s.Quiet) :
    Desk.Has (Document.Is id origin.status) (Standing id (startedSteps id w₃.moments)
      (w.store.jobsFor id) origin.status) ⟨w₃, origin⟩ := by
  obtain ⟨hread, -, hstore⟩ := h.opened hquiet
  obtain ⟨hid, hstatus⟩ := status_of_getDocument hread
  refine ⟨⟨hid, rfl⟩, rfl, ?_, ?_⟩
  · rw [hstore]
  · rw [hstore]
    exact hstatus

/-- The rows of the document where the step has ended. -/
theorem standing_ended (hquiet : s.Quiet) (hregistry : s.registry.KeepsIdentity) :
    ∃ started now, Standing id started (JobRow.changeAt id t (.started now)
      ((w.store.jobsFor id).filter fun row => earlier.all (!row.isFor id ·))) origin.status
      ended.world.moments ended.world.store := by
  have hminds : ∀ t, (Handler.ofStep s.scratch t).Minds s (Document.Is id origin.status) :=
    fun t => Handler.ofStep_minds (hregistry.lasting id origin.status) _ t
  have hcalm := hquiet.calm id
  have hbefore := runSteps_standing hcalm hminds (h.standing_opened hquiet) h.earlier
  obtain ⟨now, hended⟩ := ended_standing hcalm (hminds t) hbefore h.begins
  rw [h.ends] at hended
  exact ⟨_, now, hended.2⟩

/-- In the end the document is called ready. -/
theorem process_store (hquiet : s.Quiet) (hregistry : s.registry.KeepsIdentity)
    (hkeyed : w.store.Keyed) :
    last.world.store.statusOf? id = some origin.status.name ∧
      ∃ now, (process id s w).2.store = (last.world.store.setStatus id .ready now).2 := by
  obtain ⟨w₁, w₂, hget, hpending, hopen⟩ := h.opens
  obtain ⟨-, ⟨jobs, hjobs, hsplit⟩, -⟩ := h.opened hquiet
  obtain ⟨⟨hid, -⟩, hstands⟩ := h.standing_opened hquiet
  refine (process_of_steps hquiet hregistry hid hget hpending hopen hstands h.run ?_).2
  rw [← hsplit, Store.filter_not_pendingSteps hkeyed hjobs]
  intro row hrow
  simpa using (List.mem_filter.mp hrow).2

/-- The step begins with a copy that follows the document as it was read, if it is not the last. -/
theorem follows (hquiet : s.Quiet) (hr : s.registry.ActsBuiltin) (hkeyed : w.store.Keyed)
    {c : Document} (hc : c.id = id) (hwrote : w.store.Wrote created c) (ht : t ≠ .ftsIndex) :
    (∃ changed, (origin.rowAt created changed).read = .ok origin) ∧
      began.Follows created origin := by
  obtain ⟨hread, -, hstore⟩ := h.opened hquiet
  subst hc
  obtain ⟨hid, changed, hrow⟩ := hwrote.reread hread
  rw [hid] at hrow
  have horigin : (origin.rowAt created changed).read = .ok origin :=
    (Store.getDocument_of_row hrow).symm.trans hread
  have hmetadata : origin.metadata = none :=
    congrArg Document.metadata (Document.read_rowAt horigin).1
  refine ⟨⟨changed, horigin⟩, ?_⟩
  have hopened : Desk.Follows created origin ⟨w₃, origin⟩ := by
    refine ⟨.refl origin, hmetadata, rfl, changed, ?_⟩
    rw [hid, hstore]
    exact hrow
  exact follows_of_split hquiet hr ht (h.increasing hquiet hkeyed) hopened h.earlier h.begins

/-- The step and those behind it, run again on what the step has left. -/
theorem runSteps_again (hquiet : s.Quiet) (hr : s.registry.ActsBuiltin)
    (hrespects : ∀ now, s.registry.Respects (Document.updated now)) (hkeyed : w.store.Keyed)
    {c : Document} (hc : c.id = id) (hwrote : w.store.Wrote created c)
    (hd : ended.world.store.getDocument id = .ok d) (hcopy : desk'.copy = d)
    (hstore : ended.world.store.SameButJobs desk'.world.store)
    (hfinds : ∀ u desk desk₁, BeginsIn Handler.ofStep id s w u desk →
      Begins (Handler.ofStep s.scratch) id s (t :: later) desk' u desk₁ →
      (Handler.find s.scratch u s desk₁).1 = (Handler.find s.scratch u s desk).1) :
    ∃ last', runSteps (Handler.ofStep s.scratch) id (t :: later) s desk' = (.ok none, last') ∧
      (last.world.store.SameRecord id last'.world.store ↔
        (t = .rules → ended.world.store.RulesSettled s.registry d)) := by
  have hincreasing := (List.pairwise_append.mp (h.increasing hquiet hkeyed)).2.1
  by_cases hlast : t = .ftsIndex
  · obtain ⟨last', hrun, hsame⟩ :=
      runSteps_again_last hquiet hincreasing h.beside h.later hd hstore hlast
    exact ⟨last', hrun, iff_of_true hsame fun heq => by rw [hlast] at heq; cases heq⟩
  obtain ⟨⟨changed, horigin⟩, hfollows⟩ := h.follows hquiet hr hkeyed hc hwrote hlast
  have hid : began.copy.id = id :=
    hfollows.same.id.trans (status_of_getDocument (h.opened hquiet).1).1
  by_cases hrules : t = .rules
  · have hedit := (Handler.ofStep_edits hquiet hfollows.wrote.hasDocument s.scratch hlast).edit
    rw [h.ends] at hedit
    obtain ⟨last', hrun, hiff⟩ := runSteps_again_rules hquiet hr hincreasing h.beside h.later hd
      hstore hrules ((hedit.sameOrigin hr).id.trans hid) (hedit.wrote hr hfollows.wrote) hcopy
    exact ⟨last', hrun, hiff.trans ⟨fun hsettled _ => hsettled, fun hsettled => hsettled hrules⟩⟩
  · obtain ⟨last', hrun, hsame⟩ := runSteps_again_before hquiet hr hincreasing h.beside h.later hd
      hstore hrespects hrules hlast hid horigin hfollows h.ends h.goes hcopy
      (fun began' hbegin => hfinds t began began' h.beginsIn (.here hbegin))
      fun u desk desk₁ hbegins => hfinds u desk desk₁ (h.begins_later hbegins)
    exact ⟨last', hrun, iff_of_true hsame fun heq => absurd heq hrules⟩

/-- A pass that is made again on what the step has left, where the document can be read back. -/
theorem process_again (hquiet : s.Quiet) (hr : s.registry.ActsBuiltin)
    (hrespects : ∀ now, s.registry.Respects (Document.updated now)) (hkeyed : w.store.Keyed)
    {c : Document} (hc : c.id = id) (hwrote : w.store.Wrote created c) (how : Mishap)
    (hidle : how = .stop → ∀ row ∈ w.store.jobsFor id, row.status ≠ JobStatus.running.name)
    (hd : ended.world.store.getDocument id = .ok d) {w' : World}
    (hleft : w'.store = how.leave id t ended.world.store) (hsame : SameFindings id s w w') :
    (process id s w').1 = .ok .completed ∧
      ((process id s w).2.store.SameRecord id (process id s w').2.store ↔
        (t = .rules → ended.world.store.RulesSettled s.registry d)) := by
  have hregistry := hr.keepsIdentity
  obtain ⟨-, ⟨jobs, hjobs, hsplit⟩, -⟩ := h.opened hquiet
  obtain ⟨started, now, hended⟩ := h.standing_ended hquiet hregistry
  -- What waits now is the step and those behind it.
  have hrows : w'.store.jobsFor id = w.store.leftRows id t earlier := by
    rw [hleft]
    refine how.jobsFor_leave (fun hstop row hrow => ?_) hended.rows
    exact hidle hstop row (List.mem_filter.mp hrow).1
  obtain ⟨jobs', hjobs', hsteps⟩ := Store.pendingJobs_leftRows hkeyed hjobs hsplit hrows
  have hdone := Store.not_pending_leftRows hkeyed hjobs hsplit hrows
  -- The second pass opens with the document as it was left.
  have hleave : ended.world.store.SameButJobs w'.store := by
    rw [hleft]
    exact how.leave_jobs id t ended.world.store
  have hd' : (s.others w'.moments w'.store).getDocument id = .ok d := by
    obtain ⟨_, hstore⟩ := hleave
    rw [hquiet.alone, hstore]
    exact hd
  obtain ⟨w₁, w₂, w₃', hget, hpending, hopen, hstands⟩ :=
    opened_of_calm (hquiet.calm id) hd' hjobs' hsame.opens
  rw [hsteps] at hpending
  obtain ⟨-, -, hopened⟩ := opened_store hquiet hget hpending hopen
  have hcopy : (⟨w₃', d⟩ : Desk).copy = d := rfl
  obtain ⟨last', hrun, hiff⟩ := h.runSteps_again hquiet hr hrespects hkeyed hc hwrote hd hcopy
    (by rw [hopened]; exact hleave) fun u desk desk₁ hbegins hbegins' =>
      hsame.finds u desk desk₁ hbegins ⟨d, w₁, _, w₂, w₃', hget, hpending, hopen, hbegins'⟩
  obtain ⟨hdid, hdstatus⟩ := status_of_getDocument hd
  obtain ⟨hcompleted, hstatus', now', hend'⟩ :=
    process_of_steps hquiet hregistry hdid hget hpending hopen hstands hrun hdone
  obtain ⟨hstatus, now, hend⟩ := h.process_store hquiet hregistry hkeyed
  have hready : last'.world.store.statusOf? id = last.world.store.statusOf? id := by
    rw [hstatus, hstatus', ← hended.status, hdstatus]
  refine ⟨hcompleted, ?_⟩
  rw [hend, hend', Store.sameRecord_setStatus _ _ _ hready, hiff]

end Course

end Pass

/-! A document whose rule does something to its name. -/

/-- A rule that does something to the name. -/
def Rule.naming (kind : ActionKind) : Rule where
  id := 1
  userId := 0
  name := "naming"
  order := 0
  actions := [{ id := 1, kind, value := "!" }]

/-- A world with one document, whose owner has a rule that does something to the name, and whose
rules are to be applied. -/
def World.naming (kind : ActionKind) : World where
  store := {
    documents := [.ofDocument .stray]
    jobs := Pass.ruledJobs
    rules := [.ofRule 1 (.naming kind)]
    actions := [⟨1, 1, 0, kind.name, "!", true, true, none, none⟩] }
  files := .empty

theorem Store.activeRules_naming (kind : ActionKind) :
    (World.naming kind).store.activeRules 0 = .ok [.naming kind] := by
  refine activeRules_of_single (r := .ofRule 1 (.naming kind)) rfl rfl ?_ ?_
  · exact congrArg (List.mapM ConditionRow.read) List.mergeSort_nil
  · refine (congrArg (List.mapM ActionRow.read) (List.mergeSort_singleton _)).trans ?_
    cases kind <;> rfl

/-- What the rule makes of a document without entries. -/
theorem Store.ruling?_naming {kind : ActionKind} {st : Store} {d updated : Document}
    (hsame : (World.naming kind).store.SameVocabulary st)
    (hnone : st.entryRows d.id = []) (huser : d.userId = 0)
    (happly : Registry.builtin.apply { id := 1, kind, value := "!" } { d with metadata := some [] } =
      .ok updated) (hentries : updated.entries = []) :
    st.ruling? .builtin d = some updated := by
  have hdocumentEntries : st.documentEntries d.id = [] := by
    have hperm := st.documentEntries_perm d.id
    rw [hnone] at hperm
    exact hperm.eq_nil
  have hrules : st.activeRules d.userId = .ok [.naming kind] := by
    rw [huser, ← activeRules_naming kind]
    obtain ⟨_, _, _, rfl⟩ := hsame
    rfl
  have hvalues : st.autoMatchValues d.userId = .ok [] := by
    obtain ⟨_, _, _, rfl⟩ := hsame
    exact autoMatchValues_of_nil rfl _
  have hruled : d.ruled .builtin (st.documentEntries d.id) [] [.naming kind] = updated := by
    rw [hdocumentEntries]
    change (Registry.builtin.evaluate (.naming kind) { d with metadata := some [] }).document = _
    rw [Registry.evaluate_document_eq]
    change Registry.attempt _ _ _ = _
    unfold Registry.attempt
    rw [happly]
  refine ruling?_eq_some.mpr ⟨_, _, hrules, hvalues, hruled, ?_⟩
  rw [hentries]
  rfl

namespace Pass

variable {s : Surroundings} {id : String} {t : Step} {began ended : Desk}
  {r : Except PipelineError Unit} {kind : ActionKind}

/-- The document after the rule was applied. -/
def renamed : Document := { Document.stray with name := "!" }

/-- The action gives the document its new name. -/
def Renames (kind : ActionKind) : Prop :=
  Registry.builtin.apply { id := 1, kind, value := "!" } { Document.stray with metadata := some [] } =
    .ok { renamed with metadata := some [] }

/-- The files while a pass is made over the document. -/
def scratchFiles : FileTree := FileTree.empty.insert ["scratch"] .directory

theorem pendingJobs_naming (kind : ActionKind) :
    ∃ jobs, (World.naming kind).store.pendingJobs "d" = .ok jobs ∧
      jobs.map (·.step) = [.rules, .ftsIndex] := by
  obtain ⟨jobs, hjobs, hsteps⟩ := pendingJobs_ruled
  exact ⟨jobs, hjobs, hsteps⟩

/-- The step of the rules renames the document. -/
theorem rules_naming {rows : List JobRow} (hrenames : Renames kind) (hcopy : began.copy = .stray)
    (hrows : began.world.store = { (World.naming kind).store with jobs := rows }) :
    ∃ ended, Handler.rules .bare began = (.ok (), ended) ∧
      (World.naming kind).store.SameVocabulary ended.world.store ∧
      ended.world.store.getDocument "d" = .ok renamed ∧
      ended.world.store.entryRows "d" = [] := by
  have hsame : (World.naming kind).store.SameVocabulary began.world.store := by
    rw [hrows]
    exact ⟨_, _, _, rfl⟩
  have hruling : began.world.store.ruling? .builtin began.copy =
      some { renamed with metadata := some [] } := by
    rw [hcopy]
    refine Store.ruling?_naming hsame ?_ rfl hrenames rfl
    rw [hrows]
    rfl
  have hdoc : began.world.store.hasDocument began.copy.id = true := by
    rw [hrows, hcopy]
    rfl
  obtain ⟨ended, now, hrun, hended, hstored⟩ :=
    Handler.rules_of_ruling bare_quiet hdoc builtin_actsBuiltin hruling
  have hread : began.world.store.getDocument began.copy.id = .ok began.copy := by
    rw [hrows, hcopy]
    rfl
  obtain ⟨-, past, -, -, hback, -, -⟩ :=
    Handler.rules_readBack (fun _ _ => rfl) builtin_actsBuiltin hread hrun
  refine ⟨ended, hrun, ?_, ?_, ?_⟩
  · rw [hstored]
    exact hsame.trans ⟨_, _, _, rfl⟩
  · rw [hcopy, hended] at hback
    have hclock : Surroundings.bare.clock past = default := rfl
    rw [hclock] at hback
    exact (hback (by decide) (by decide)).trans (congrArg Except.ok rfl)
  · rw [hstored]
    exact Store.entryRows_withEntries _ _ _

/-- The step of the rules begins with the document as it was. -/
theorem begin_naming {w₃ : World} (hfiles : w₃.files = scratchFiles)
    (hstore : w₃.store = (World.naming kind).store) :
    ∃ began rows, begin "d" .rules .bare ⟨w₃, .stray⟩ = (.ok (), began) ∧ began.copy = .stray ∧
      began.world.files = scratchFiles ∧
      began.world.store = { (World.naming kind).store with jobs := rows } := by
  let J (desk : Desk) : Prop := desk.copy = .stray ∧ desk.world.files = scratchFiles ∧
    ∃ jobs, desk.world.store = { (World.naming kind).store with jobs := jobs }
  have hJ : Aside J := by
    rintro desk jobs moments events ⟨hcopy, hfiles, rows, hrows⟩
    refine ⟨hcopy, hfiles, jobs, ?_⟩
    dsimp only
    rw [hrows]
  obtain ⟨began, hbegin⟩ := begin_of_quiet bare_quiet "d" .rules ⟨w₃, .stray⟩
  have hbegan : J (begin "d" .rules .bare ⟨w₃, .stray⟩).2 :=
    (begin_keeps_aside bare_quiet hJ _ ⟨rfl, hfiles, ruledJobs, hstore⟩).1
  rw [hbegin] at hbegan
  obtain ⟨hcopy, hfiles, rows, hrows⟩ := hbegan
  exact ⟨began, rows, hbegin, hcopy, hfiles, hrows⟩

/-- Undisturbed, a pass applies the rule and is completed. -/
theorem naming_completed (hrenames : Renames kind) :
    ∃ began ended,
      BeginsIn Handler.ofStep "d" .bare (.naming kind) .rules began ∧
      (Handler.ofStep "/scratch" .rules).attempt .bare began = (.ok (.ok ()), ended) ∧
      (process "d" .bare (.naming kind)).1 = .ok .completed ∧
      (World.naming kind).store.SameVocabulary ended.world.store ∧
      ended.world.store.getDocument "d" = .ok renamed ∧
      ended.world.store.entryRows "d" = [] ∧ ended.world.files = scratchFiles := by
  obtain ⟨jobs, hjobs, hsteps⟩ := pendingJobs_naming kind
  obtain ⟨w₁, w₂, w₃, hget, hpending, hopen, hstands⟩ :=
    opened_of_calm (bare_calm "d") (w := .naming kind) (d := .stray) rfl hjobs ⟨_, rfl⟩
  rw [hsteps] at hpending
  obtain ⟨-, -, hstore⟩ := opened_store bare_quiet hget hpending hopen
  have hmade := opened_files hget hpending hopen
  have hw₃ : w₃.files = scratchFiles := by
    have hopened : FileTree.empty.makeDirectories "/scratch" = .ok scratchFiles := rfl
    exact Except.ok.inj (hmade.symm.trans hopened)
  obtain ⟨began, rows, hbegin, hcopy, hfiles, hrows⟩ := begin_naming hw₃ hstore
  obtain ⟨ended, hrun, hsame, hread, hnone⟩ := rules_naming hrenames hcopy hrows
  -- The pass goes on from the rules and from the last step, and nothing waits behind it.
  have hattempt : Handler.ofStep Surroundings.bare.scratch .rules .bare began =
      ((Except.ok () : Except PipelineError Unit).mapError .error, ended) := hrun
  obtain ⟨after, hstep, -⟩ := runStep_of_goes bare_quiet hbegin hattempt rfl
  have hlast : ∀ t ∈ [Step.ftsIndex], t = .ftsIndex := fun t => List.mem_singleton.mp
  obtain ⟨last, hlater, -⟩ := runSteps_published bare_quiet Surroundings.bare.scratch "d" hlast after
  have hall := (runSteps_of_none hstep).trans hlater
  have hdone : ∀ r ∈ ((World.ruled ruledJobs).store.jobsFor "d").filter fun r =>
      [Step.rules, .ftsIndex].all (!r.isFor "d" ·), r.isPending = false := by decide
  have hjobsFor : (World.naming kind).store.jobsFor "d" =
      (World.ruled ruledJobs).store.jobsFor "d" := rfl
  rw [← hjobsFor] at hdone
  have hid : Document.stray.id = "d" := rfl
  obtain ⟨hcompleted, -⟩ := process_of_steps bare_quiet builtin_actsBuiltin.keepsIdentity hid hget
    hpending hopen hstands hall hdone
  exact ⟨began, ended, ⟨.stray, w₁, _, w₂, w₃, hget, hpending, hopen, .here hbegin⟩,
    Act.attempt_of_ok hrun, hcompleted, hsame, hread, hnone,
    (Handler.rules_files hrun).trans hfiles⟩

/-- Another pass over the document finds the same. -/
theorem naming_sameFindings (kind : ActionKind) {w' : World} (how : Mishap)
    (hfiles : w'.files = how.keep "/scratch" scratchFiles) :
    SameFindings "d" .bare (.naming kind) w' where
  opens := by
    rw [hfiles]
    cases how with
    | refusal e => exact ⟨_, rfl⟩
    | stop => exact ⟨_, rfl⟩
  finds t began began' hbegins _ := by
    obtain ⟨jobs, hjobs, hsteps⟩ := pendingJobs_naming kind
    obtain ⟨d, w₁, steps, w₂, w₃, hget, hpending, hopen, hbegins⟩ := hbegins
    obtain ⟨-, ⟨jobs', hjobs', hsplit⟩, -⟩ := opened_store bare_quiet hget hpending hopen
    cases hjobs.symm.trans hjobs'
    have ht := hbegins.mem
    rw [← hsplit, hsteps] at ht
    simp only [List.mem_cons, List.not_mem_nil, or_false] at ht
    rcases ht with rfl | rfl
    · rfl
    · rfl

theorem naming_wrote (kind : ActionKind) : ∃ created,
    (World.naming kind).store.Wrote created .stray := ⟨_, _, rfl⟩

/-- A rule that sets the name, applied again. -/
theorem rulesSettled_setName {st : Store}
    (hsame : (World.naming .setName).store.SameVocabulary st) (hnone : st.entryRows "d" = []) :
    st.RulesSettled .builtin renamed := by
  intro again hagain
  have hruling : st.ruling? .builtin renamed = some { renamed with metadata := some [] } :=
    Store.ruling?_naming hsame hnone rfl rfl rfl
  cases hruling.symm.trans hagain
  refine ⟨rfl, fun ids => ?_⟩
  have hid : renamed.id = "d" := rfl
  rw [hid, hnone]
  exact iff_of_false List.not_mem_nil List.not_mem_nil

/-- A rule that appends to the name, applied again. -/
theorem not_rulesSettled_appendName {st : Store}
    (hsame : (World.naming .appendName).store.SameVocabulary st)
    (hnone : st.entryRows "d" = []) : ¬ st.RulesSettled .builtin renamed := by
  intro hsettled
  have hruling : st.ruling? .builtin renamed =
      some { renamed with name := "!!", metadata := some [] } :=
    Store.ruling?_naming hsame hnone rfl rfl rfl
  have hname := congrArg DocumentRow.name (hsettled _ hruling).1
  exact absurd hname (by decide)

/-- Where the end of one step of a pass cannot be noted, or the process stops before that and is
started again, the next pass over the document is completed and leaves the record of the undisturbed
pass exactly if the document can be read back and, where the step is that of the rules, these change
nothing of what they have made. -/
theorem retry_converges_iff (hquiet : s.Quiet) (hr : s.registry.ActsBuiltin)
    (hrespects : ∀ now, s.registry.Respects (Document.updated now)) {w : World} {c : Document}
    (hkeyed : w.store.Keyed) (hc : c.id = id) (hwrote : w.store.Wrote created c)
    (hdone : (process id s w).1 = .ok .completed)
    (hbegins : BeginsIn Handler.ofStep id s w t began)
    (hended : (Handler.ofStep s.scratch t).attempt s began = (.ok r, ended)) (how : Mishap)
    (hidle : how = .stop → ∀ row ∈ w.store.jobsFor id, row.status ≠ JobStatus.running.name)
    (hsame : SameFindings id s w
      (how.aftermath (process id (s.failing ended.world.moments how) w).2)) :
    let left := process id (s.failing ended.world.moments how) w
    let retried := process id s (how.aftermath left.2)
    left.1 ≠ .ok .completed ∧
      ((retried.1 = .ok .completed ∧
          (process id s w).2.store.SameRecord id retried.2.store) ↔
        ∃ d, ended.world.store.getDocument id = .ok d ∧
          (t = .rules → ended.world.store.RulesSettled s.registry d)) := by
  intro left retried
  obtain ⟨hdeferred, hleft, -⟩ := process_failing hquiet hbegins hended how
  obtain ⟨w₃, origin, earlier, later, before, after, last, hcourse⟩ :=
    exists_course hquiet hdone hbegins (Act.attempt_eq_ok.mp hended)
  refine ⟨hdeferred, ?_, ?_⟩
  · rintro ⟨hcompleted, hrecord⟩
    obtain ⟨d, w₁, _, w₂, w₃', -, -, hget, hpending, hopen, -⟩ := process_completed hcompleted
    have hd : ended.world.store.getDocument id = .ok d := by
      obtain ⟨hread, -⟩ := opened_store hquiet hget hpending hopen
      obtain ⟨_, hstore⟩ := how.leave_jobs id t ended.world.store
      rw [hleft, hstore] at hread
      exact hread
    obtain ⟨-, hiff⟩ := hcourse.process_again hquiet hr hrespects hkeyed hc hwrote how hidle hd
      hleft hsame
    exact ⟨d, hd, hiff.mp hrecord⟩
  · rintro ⟨d, hd, hsettled⟩
    obtain ⟨hcompleted, hiff⟩ := hcourse.process_again hquiet hr hrespects hkeyed hc hwrote how
      hidle hd hleft hsame
    exact ⟨hcompleted, hiff.mpr hsettled⟩

/-- A pass whose rule sets the name, broken off at the end of the rules and made again. -/
theorem retry_converges_iff_setName : ∃ began ended,
    BeginsIn Handler.ofStep "d" .bare (.naming .setName) .rules began ∧
      (Handler.ofStep "/scratch" .rules).attempt .bare began = (.ok (.ok ()), ended) ∧
      let left := process "d" (Surroundings.bare.failing ended.world.moments .stop)
        (.naming .setName)
      let retried := process "d" .bare (Mishap.stop.aftermath left.2)
      left.1 ≠ .ok .completed ∧ retried.1 = .ok .completed ∧
        (process "d" .bare (.naming .setName)).2.store.SameRecord "d" retried.2.store := by
  obtain ⟨began, ended, hbegins, hended, hdone, hsame, hget, hnone, hfiles⟩ :=
    naming_completed (rfl : Renames .setName)
  obtain ⟨created, hwrote⟩ := naming_wrote .setName
  have hkept := (process_failing bare_quiet hbegins hended .stop).2.2
  rw [hfiles] at hkept
  have hidle : ∀ row ∈ (World.naming .setName).store.jobsFor "d",
      row.status ≠ JobStatus.running.name := by decide
  obtain ⟨hleft, hiff⟩ := retry_converges_iff bare_quiet builtin_actsBuiltin
    Registry.builtin_respects_updated (by decide) rfl hwrote hdone hbegins hended .stop
    (fun _ => hidle) (naming_sameFindings .setName .stop hkept)
  exact ⟨began, ended, hbegins, hended, hleft,
    hiff.mpr ⟨renamed, hget, fun _ => rulesSettled_setName hsame hnone⟩⟩

/-- A pass whose rule appends to the name appends twice if the end of the rules cannot be noted
once. -/
theorem retry_appends_twice : ∃ began ended,
    BeginsIn Handler.ofStep "d" .bare (.naming .appendName) .rules began ∧
      (Handler.ofStep "/scratch" .rules).attempt .bare began = (.ok (.ok ()), ended) ∧
      let left := process "d"
        (Surroundings.bare.failing ended.world.moments (.refusal (.corrupt "locked")))
        (.naming .appendName)
      let retried := process "d" .bare left.2
      (process "d" .bare (.naming .appendName)).1 = .ok .completed ∧
        left.1 ≠ .ok .completed ∧ retried.1 = .ok .completed ∧
        ¬ (process "d" .bare (.naming .appendName)).2.store.SameRecord "d" retried.2.store := by
  obtain ⟨began, ended, hbegins, hended, hdone, hsame, hget, hnone, hfiles⟩ :=
    naming_completed (rfl : Renames .appendName)
  obtain ⟨created, hwrote⟩ := naming_wrote .appendName
  obtain ⟨hleft, hstore, hkept⟩ :=
    process_failing bare_quiet hbegins hended (.refusal (.corrupt "locked"))
  rw [hfiles] at hkept
  obtain ⟨w₃, origin, earlier, later, before, after, last, hcourse⟩ :=
    exists_course bare_quiet hdone hbegins (Act.attempt_eq_ok.mp hended)
  obtain ⟨hcompleted, hiff⟩ := hcourse.process_again bare_quiet builtin_actsBuiltin
    Registry.builtin_respects_updated (by decide) rfl hwrote (.refusal (.corrupt "locked"))
    (fun h => by cases h) hget hstore (naming_sameFindings .appendName _ hkept)
  refine ⟨began, ended, hbegins, hended, hdone, hleft, hcompleted, fun hrecord => ?_⟩
  exact not_rulesSettled_appendName hsame hnone (hiff.mp hrecord rfl)

end Pass

end Docket
