import Docket.Proofs.Catalog
import Docket.Proofs.Lowercasing

/-!
A document that is taken out of processing several times.  Each time its row is read, changed and
written back, so the reasons add up in its description and the prefix of its name does not.
Whatever the number of reasons, all that has changed in the end is what one update would have
changed.
-/

namespace Docket

open Docket.Calendar (Instant)

/-- A document whose moments have years with four digits, so that it can be read from its row. -/
structure Document.HasPlainYears (d : Document) : Prop where
  date : d.date.HasPlainYear
  createdAt : d.createdAt.HasPlainYear
  updatedAt : d.updatedAt.HasPlainYear

/-! What an update leaves of an earlier one. -/

namespace DocumentRow

/-- A row holds no more of a document than is kept of it. -/
theorem withFieldsOf_kept (r : DocumentRow) (d : Document) (now : Instant) :
    r.withFieldsOf d.kept now = r.withFieldsOf d now := by
  simp only [withFieldsOf, ofDocument_kept]

theorem withFieldsOf_rewritten (r : DocumentRow) (old d : Document) (past now : Instant) :
    r.withFieldsOf (old.rewritten d past) now = r.withFieldsOf d now :=
  r.withFieldsOf_kept d now

theorem read_ofDocument_ok {d read : Document} (h : (ofDocument d).read = .ok read) :
    d.HasPlainYears ∧ read = d.kept := by
  rw [read_ofDocument] at h
  split at h
  · next hdate =>
      split at h
      · next hcreated =>
          split at h
          · next hupdated =>
              cases h
              exact ⟨⟨hdate, hcreated, hupdated⟩, rfl⟩
          · cases h
      · cases h
  · cases h

end DocumentRow

theorem Document.HasPlainYears.read {d : Document} (h : d.HasPlainYears) :
    (DocumentRow.ofDocument d).read = .ok d.kept := by
  rw [DocumentRow.read_ofDocument, if_pos h.date, if_pos h.createdAt, if_pos h.updatedAt]

namespace Store

variable {st : Store} {d d' : Document} {now past : Instant} {i : String}

/-- The store after a document was taken out of processing and rewritten. -/
def takenOut (st : Store) (d : Document) (now : Instant) : Store :=
  ((st.deleteJobs d.id).2.updateDocument d now).2

theorem takenOut_congr (hid : d'.id = d.id)
    (hfields : ∀ r : DocumentRow, r.withFieldsOf d' now = r.withFieldsOf d now) :
    st.takenOut d' now = st.takenOut d now := by
  unfold takenOut updateDocument
  simp only [hid, hfields]

/-- Of two updates of a document only the later one counts. -/
theorem takenOut_takenOut (hid : d'.id = d.id) :
    (st.takenOut d past).takenOut d' now = st.takenOut d' now := by
  have hrow : ((fun r : DocumentRow => if r.id = d'.id then r.withFieldsOf d' now else r) ∘
      fun r => if r.id = d.id then r.withFieldsOf d past else r) =
        fun r => if r.id = d'.id then r.withFieldsOf d' now else r := by
    funext r
    by_cases hr : r.id = d.id
    · have hrewritten : (r.withFieldsOf d past).id = d.id := hr
      simp only [Function.comp_apply, hid, hr, hrewritten, if_true]
      rfl
    · simp only [Function.comp_apply, hid, hr, if_false]
  have hjobs : (st.jobs.filter (·.documentId ≠ d.id)).filter (·.documentId ≠ d'.id) =
      st.jobs.filter (·.documentId ≠ d'.id) := by
    rw [hid, List.filter_filter]
    simp only [Bool.and_self]
  simp only [takenOut, updateDocument, changeDocument, deleteJobs, List.map_map, hrow, hjobs]

theorem documentRow?_takenOut : (st.takenOut d now).documentRow? i =
    (st.documentRow? i).map fun r => if r.id = d.id then r.withFieldsOf d now else r :=
  documentRow?_changeDocument fun _ => rfl

theorem documentRow?_takenOut_self {old : Document} (hid : old.id = d.id)
    (hrow : st.documentRow? i = some (.ofDocument old)) :
    (st.takenOut d now).documentRow? i = some (.ofDocument (old.rewritten d now)) := by
  have hthere : (DocumentRow.ofDocument old).id = d.id := hid
  rw [documentRow?_takenOut, hrow, Option.map_some, if_pos hthere,
    DocumentRow.withFieldsOf_ofDocument old d now hid]

theorem jobsFor_takenOut : (st.takenOut d now).jobsFor i =
    if i = d.id then [] else st.jobsFor i := by
  change (st.jobs.filter (·.documentId ≠ d.id)).filter (·.documentId = i) = _
  rw [List.filter_filter]
  split
  · next heq =>
      subst heq
      exact List.filter_eq_nil_iff.mpr fun r _ => by simp
  · next hne =>
      refine List.filter_congr fun r _ => ?_
      by_cases hr : r.documentId = i
      · simp [hr, hne]
      · simp [hr]

end Store

namespace Pass

/-! Several reasons at once. -/

/-- The name of a document that is taken out of processing. -/
def faultyName (name : String) : String :=
  if Text.startsWith name errorPrefix then name else errorPrefix ++ name

/-- A description and some reasons behind it, with a blank line between any two of them. -/
def describedBy (description : String) (reasons : List String) : String :=
  "\n\n".intercalate (if description.isEmpty then reasons else description :: reasons)

/-- A document that is taken out of processing for some reasons. -/
def withFaults (d : Document) (reasons : List String) : Document :=
  { d with
    name := faultyName d.name
    description := describedBy d.description reasons
    status := .error }

variable {d : Document} {reason description : String} {reasons : List String}

theorem faultyName_faultyName (name : String) :
    faultyName (faultyName name) = faultyName name := by
  have hmarked : Text.startsWith (faultyName name) errorPrefix = true := by
    unfold faultyName
    split
    · assumption
    · exact Text.startsWith_iff.mpr ⟨_, rfl⟩
  rw [faultyName, if_pos hmarked]

theorem describedBy_singleton : describedBy description [reason] =
    if description.isEmpty then reason else description ++ "\n\n" ++ reason := by
  unfold describedBy
  split
  · exact String.intercalate_singleton
  · rw [String.intercalate_cons_cons, String.intercalate_singleton]

/-- A first reason that is not empty stands before the others, whether or not it follows a
description. -/
theorem describedBy_describedBy (hreason : reason ≠ "") (hreasons : reasons ≠ []) :
    describedBy (describedBy description [reason]) reasons =
      describedBy description (reason :: reasons) := by
  obtain ⟨next, rest, rfl⟩ := List.exists_cons_of_ne_nil hreasons
  rw [describedBy_singleton]
  by_cases hnone : description.isEmpty = true
  · have hthere : reason.isEmpty = false := by simpa using hreason
    simp only [describedBy, hnone, hthere, if_true, Bool.false_eq_true, if_false]
  · have hthere : (description ++ "\n\n" ++ reason).isEmpty = false := by simp
    simp only [describedBy, hnone, hthere, Bool.false_eq_true, if_false,
      String.intercalate_cons_cons]
    simp only [String.append_assoc]

theorem withFaults_singleton (d : Document) (reason : String) :
    withFaults d [reason] = withFault d reason := by
  rw [withFaults, describedBy_singleton]
  rfl

theorem withFaults_withFault (hreason : reason ≠ "") (hreasons : reasons ≠ []) :
    withFaults (withFault d reason) reasons = withFaults d (reason :: reasons) := by
  rw [← withFaults_singleton]
  simp only [withFaults, faultyName_faultyName, describedBy_describedBy hreason hreasons]

/-! One quarantine. -/

variable {s : Surroundings} {w w' : World} {id : String}

/-- A quarantine that has succeeded has added its reason to the row, and cancelled the jobs. -/
theorem quarantine_ok (halone : s.Alone)
    (hrow : w.store.documentRow? id = some (.ofDocument d))
    (h : quarantine id reason s w = (.ok (), w')) :
    d.HasPlainYears ∧ ∃ past, w'.store = w.store.takenOut (withFault d reason) (s.clock past) ∧
      w'.store.documentRow? id =
        some (.ofDocument (d.rewritten (withFault d reason) (s.clock past))) := by
  obtain ⟨_, w₁, hcancel, h⟩ := Act.exists_of_bind_ok h
  obtain ⟨read, w₂, hget, hupdate⟩ := Act.exists_of_bind_ok h
  obtain rfl : d.id = id := Store.id_of_documentRow? hrow
  have hcancelled : (w.store.deleteJobs d.id).2 = w₁.store :=
    Except.ok.inj (Act.tell_ok halone hcancel)
  obtain ⟨hread, hkept⟩ := Act.ask_ok halone (fun _ _ => rfl) hget
  have hrow₁ : w₁.store.documentRow? d.id = some (.ofDocument d) := by
    rw [← hcancelled]
    exact hrow
  rw [Store.getDocument_of_row hrow₁] at hread
  obtain ⟨hplain, rfl⟩ := DocumentRow.read_ofDocument_ok hread
  obtain ⟨-, hstored⟩ := orNoDocument_ok (Act.tell_ok halone hupdate)
  rw [hkept, ← hcancelled] at hstored
  have hstore : w'.store = w.store.takenOut (withFault d reason) (s.clock w₂.moments) :=
    hstored.symm.trans
      (Store.takenOut_congr rfl fun r => r.withFieldsOf_kept (withFault d reason) _)
  exact ⟨hplain, _, hstore, hstore ▸ Store.documentRow?_takenOut_self rfl hrow⟩

/-- A quarantine succeeds where no call fails, if the document can be read. -/
theorem quarantine_of_quiet (hquiet : s.Quiet) (hplain : d.HasPlainYears)
    (hrow : w.store.documentRow? id = some (.ofDocument d)) (reason : String) :
    ∃ w', quarantine id reason s w = (.ok (), w') := by
  obtain rfl : d.id = id := Store.id_of_documentRow? hrow
  have hcancel : Act.onWorld (Act.tell (.cancelJobs d.id)) s ⟨w, d⟩ = (.ok (), _) :=
    hquiet.tell_of_ok rfl
  obtain ⟨w₁, hcancel, -⟩ := Act.onWorld_ok hcancel
  have hcancelled : (w.store.deleteJobs d.id).2 = w₁.store :=
    Except.ok.inj (Act.tell_ok hquiet.alone hcancel)
  have hrow₁ : w₁.store.documentRow? d.id = some (.ofDocument d) := by
    rw [← hcancelled]
    exact hrow
  have hread : w₁.store.getDocument d.id = .ok d.kept := by
    rw [Store.getDocument_of_row hrow₁, hplain.read]
  have hget := hquiet.ask_eq (c := .getDocument d.id) ⟨w₁, d⟩ (fun _ _ => rfl) (·.getDocument d.id)
  rw [hread] at hget
  obtain ⟨w₂, hget, -⟩ := Act.onWorld_ok hget
  have hkept : w₂.store = w₁.store := (Act.ask_ok hquiet.alone (fun _ _ => rfl) hget).2
  have hthere : w₂.store.hasDocument d.id = true := by
    rw [hkept]
    exact Store.hasDocument_of_documentRow? hrow₁
  obtain ⟨st, hperform⟩ : ∃ st, (StoreCall.updateDocument (withFault d.kept reason)).perform
      (s.clock w₂.moments) w₂.store = .ok st := by
    change ∃ st, Store.orNoDocument d.id (w₂.store.hasDocument d.id, _) = .ok st
    rw [hthere]
    exact ⟨_, rfl⟩
  have hupdate : Act.onWorld (Act.tell _) s ⟨w₂, d⟩ = (.ok (), _) := hquiet.tell_of_ok hperform
  obtain ⟨w', hupdate, -⟩ := Act.onWorld_ok hupdate
  exact ⟨w', (Act.bind_of_ok hcancel).trans ((Act.bind_of_ok hget).trans hupdate)⟩

/-! Several quarantines. -/

/-- Take a document out of processing for each of some reasons in turn. -/
def quarantineAll (id : String) (reasons : List String) : Act World Unit :=
  reasons.forM (quarantine id)

theorem quarantineAll_ok (halone : s.Alone)
    (hrow : w.store.documentRow? id = some (.ofDocument d)) (hsome : reasons ≠ [])
    (hreasons : "" ∉ reasons) (h : quarantineAll id reasons s w = (.ok (), w')) :
    d.HasPlainYears ∧
      ∃ past, w'.store = w.store.takenOut (withFaults d reasons) (s.clock past) := by
  induction reasons generalizing d w with
  | nil => exact absurd rfl hsome
  | cons reason rest ih =>
      obtain ⟨hreason, hrest⟩ : "" ≠ reason ∧ "" ∉ rest := by simpa using hreasons
      obtain ⟨_, w₁, hfirst, hlater⟩ := Act.exists_of_bind_ok h
      obtain ⟨hplain, past, hstore, hrow₁⟩ := quarantine_ok halone hrow hfirst
      refine ⟨hplain, ?_⟩
      by_cases hlast : rest = []
      · subst hlast
        cases hlater
        exact ⟨past, by rw [hstore, withFaults_singleton]⟩
      · obtain ⟨last, hstored⟩ := (ih hrow₁ hlast hrest hlater).2
        have hid : (withFaults (d.rewritten (withFault d reason) (s.clock past)) rest).id =
          (withFault d reason).id := rfl
        refine ⟨last, ?_⟩
        rw [hstored, hstore, Store.takenOut_takenOut hid,
          ← withFaults_withFault (Ne.symm hreason) hlast]
        exact Store.takenOut_congr rfl fun r =>
          r.withFieldsOf_rewritten d (withFaults (withFault d reason) rest) _ _

theorem quarantineAll_of_quiet (hquiet : s.Quiet) (hclock : ∀ past, (s.clock past).HasPlainYear)
    (hplain : d.HasPlainYears) (hrow : w.store.documentRow? id = some (.ofDocument d))
    (reasons : List String) : ∃ w', quarantineAll id reasons s w = (.ok (), w') := by
  induction reasons generalizing d w with
  | nil => exact ⟨w, rfl⟩
  | cons reason rest ih =>
      obtain ⟨w₁, hfirst⟩ := quarantine_of_quiet hquiet hplain hrow reason
      obtain ⟨-, past, -, hrow₁⟩ := quarantine_ok hquiet.alone hrow hfirst
      have hplain₁ : (d.rewritten (withFault d reason) (s.clock past)).HasPlainYears :=
        ⟨hplain.date, hplain.createdAt, hclock past⟩
      obtain ⟨w', hlater⟩ := ih hplain₁ hrow₁
      exact ⟨w', (Act.bind_of_ok hfirst).trans hlater⟩

/-- A document that is taken out of processing for some reasons in turn has no jobs and is in error.
Its name has the prefix once, and its description is followed by the reasons in their order, with
a blank line between any two.  Nothing else has changed but the time of the update, neither in its
row nor in any other or in another table.  Only a call that fails prevents that. -/
theorem quarantineAll_accumulates (halone : s.Alone)
    (hrow : w.store.documentRow? id = some (.ofDocument d)) (hsome : reasons ≠ [])
    (hreasons : "" ∉ reasons) :
    (∀ w', quarantineAll id reasons s w = (.ok (), w') →
      ∃ past, w'.store.documentRow? id = some { DocumentRow.ofDocument d with
          name := if Text.startsWith d.name errorPrefix then d.name else errorPrefix ++ d.name
          description := "\n\n".intercalate
            (if d.description.isEmpty then reasons else d.description :: reasons)
          status := DocumentStatus.error.name
          updatedAt := (s.clock past).toMicrosText } ∧
        w.store.getDocument id = .ok d.kept ∧
        ((s.clock past).HasPlainYear → w'.store.getDocument id =
          .ok { withFaults d.kept reasons with updatedAt := (s.clock past).truncate }) ∧
        w'.store.jobsFor id = [] ∧
        (∀ i, i ≠ id → w'.store.documentRow? i = w.store.documentRow? i ∧
          w'.store.jobsFor i = w.store.jobsFor i) ∧
        w'.store = { w.store with documents := w'.store.documents, jobs := w'.store.jobs }) ∧
    (s.Quiet → d.HasPlainYears → (∀ past, (s.clock past).HasPlainYear) →
      ∃ w', quarantineAll id reasons s w = (.ok (), w')) := by
  obtain rfl : d.id = id := Store.id_of_documentRow? hrow
  refine ⟨fun w' h => ?_, fun hquiet hplain hclock =>
    quarantineAll_of_quiet hquiet hclock hplain hrow reasons⟩
  obtain ⟨hplain, past, hstore⟩ := quarantineAll_ok halone hrow hsome hreasons h
  have hid : d.id = (withFaults d reasons).id := rfl
  have hrow' : (w.store.takenOut (withFaults d reasons) (s.clock past)).documentRow? d.id = _ :=
    Store.documentRow?_takenOut_self hid hrow
  have hrewritten := DocumentRow.withFieldsOf_ofDocument d (withFaults d reasons) (s.clock past) hid
  rw [hstore]
  refine ⟨past, ?_, ?_, fun hnow => ?_, ?_, fun i hi => ⟨?_, ?_⟩, rfl⟩
  · rw [hrow', ← hrewritten]
    rfl
  · rw [Store.getDocument_of_row hrow, hplain.read]
  · have hplain' : (d.rewritten (withFaults d reasons) (s.clock past)).HasPlainYears :=
      ⟨hplain.date, hplain.createdAt, hnow⟩
    rw [Store.getDocument_of_row hrow', hplain'.read]
    simp only [Document.rewritten, Document.kept, Instant.truncate_truncate, withFaults]
  · exact Store.jobsFor_takenOut.trans (if_pos rfl)
  · refine Store.documentRow?_takenOut.trans
      ((Option.map_congr fun r hr => ?_).trans Option.map_id')
    rw [if_neg]
    rintro hr'
    exact hi ((Store.id_of_documentRow? hr).symm.trans hr')
  · exact Store.jobsFor_takenOut.trans (if_neg hi)

/-- A document without a description. -/
def scan : Document := { Document.stray with name := "scan" }

/-- The document and another one. Both wait for a step. -/
def twoScans : World where
  store := {
    documents := [.ofDocument scan, .ofDocument { scan with id := "e" }]
    jobs := [.pending "d" .rules default, .pending "e" .rules default] }
  files := .empty

/-- For two reasons the name of the document gets one prefix, and its description starts with no
blank line.  The other document still waits. -/
theorem quarantineAll_scan : ∃ w', quarantineAll "d" ["no memory", "bad page"] .bare twoScans =
      (.ok (), w') ∧
    w'.store.getDocument "d" = .ok { scan with
      name := "[processing error] scan"
      description := "no memory\n\nbad page"
      status := .error } ∧
    w'.store.jobsFor "d" = [] ∧
    w'.store.jobsFor "e" = [.pending "e" .rules default] := by
  have hrow : twoScans.store.documentRow? "d" = some (.ofDocument scan) := rfl
  have halone : Surroundings.bare.Alone := fun _ _ => rfl
  have hsome : ["no memory", "bad page"] ≠ [] := by simp
  obtain ⟨hwhenever, hgoes⟩ := quarantineAll_accumulates halone hrow hsome (by decide)
  have hclock : ∀ past, (Surroundings.bare.clock past).HasPlainYear :=
    fun _ => show (default : Instant).HasPlainYear by decide
  obtain ⟨w', hrun⟩ := hgoes bare_quiet ⟨by decide, by decide, by decide⟩ hclock
  obtain ⟨past, -, -, hread, hjobs, hothers, -⟩ := hwhenever w' hrun
  have hsame : { withFaults scan.kept ["no memory", "bad page"] with
      updatedAt := (default : Instant).truncate } = { scan with
        name := "[processing error] scan"
        description := "no memory\n\nbad page"
        status := .error } := by decide
  exact ⟨w', hrun, (hread (hclock past)).trans (congrArg Except.ok hsame), hjobs,
    (hothers "e" (by decide)).2⟩

end Pass

end Docket
