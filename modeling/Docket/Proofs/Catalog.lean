import Mathlib.Data.List.Induction
import Mathlib.Logic.Function.Basic
import Docket.Proofs.Chronology
import Docket.Proofs.Jobs
import Docket.Proofs.Readable

/-!
The table of documents as a map.  Whatever is written, the rows are those of a map from ids to
documents, in which each write has a plain meaning, and a document is read as the map has it.
-/

namespace Docket

open Calendar (Instant)

/-! The map and what writes make of it. -/

/-- A document as it is kept: its moments are known to the microsecond, and neither metadata nor
tags are in its row. -/
def Document.kept (d : Document) : Document :=
  { d with
    date := d.date.truncate
    metadata := none
    tags := none
    createdAt := d.createdAt.truncate
    updatedAt := d.updatedAt.truncate }

/-- What an update makes of a kept document: its owner and the time of its creation stay. -/
def Document.rewritten (old d : Document) (now : Instant) : Document :=
  { d.kept with userId := old.userId, createdAt := old.createdAt, updatedAt := now.truncate }

/-- A map from ids to documents. -/
abbrev Catalog := String → Option Document

namespace Catalog

def empty : Catalog := fun _ => none

/-- Change the document of an id; also whether there is one. -/
def change (m : Catalog) (id : String) (f : Document → Document) : Bool × Catalog :=
  ((m id).isSome, Function.update m id ((m id).map f))

end Catalog

/-- A call that writes to the documents. -/
inductive DocumentCall where
  | insert (d : Document)
  | update (d : Document) (now : Instant)
  | setContent (id content : String) (now : Instant)
  | setStatus (id : String) (status : DocumentStatus) (now : Instant)
  | delete (id : String)

namespace DocumentCall

/-- The document that a call is about. -/
def id : DocumentCall → String
  | .insert d | .update d _ => d.id
  | .setContent id _ _ | .setStatus id _ _ | .delete id => id

/-- The moments that a call may write. -/
def moments : DocumentCall → List Instant
  | .insert d => [d.date, d.createdAt, d.updatedAt]
  | .update d now => [d.date, now]
  | .setContent _ _ now | .setStatus _ _ now => [now]
  | .delete _ => []

/-- What a call answers and makes of the tables. -/
def perform : DocumentCall → Store → Except StoreError (Bool × Store)
  | .insert d, s => (s.insertDocument d).map fun s' => (true, s')
  | .update d now, s => .ok (s.updateDocument d now)
  | .setContent id content now, s => .ok (s.setContent id content now)
  | .setStatus id status now, s => .ok (s.setStatus id status now)
  | .delete id, s => .ok (s.deleteDocument id)

/-- What a call answers and makes of the map. -/
def enter : DocumentCall → Catalog → Except StoreError (Bool × Catalog)
  | .insert d, m =>
    if (m d.id).isSome then .error (.notUnique "documents" ["id"])
    else .ok (true, Function.update m d.id (some d.kept))
  | .update d now, m => .ok (m.change d.id (·.rewritten d now))
  | .setContent id content now, m =>
    .ok (m.change id fun old => { old with content, updatedAt := now.truncate })
  | .setStatus id status now, m =>
    .ok (m.change id fun old => { old with status, updatedAt := now.truncate })
  | .delete id, m => .ok ((m id).isSome, Function.update m id none)

end DocumentCall

/-- The tables after a call.  A call that fails writes nothing. -/
def Store.afterWrite (s : Store) (c : DocumentCall) : Store :=
  ((c.perform s).toOption.map (·.2)).getD s

/-- The map after a call. -/
def Catalog.afterWrite (m : Catalog) (c : DocumentCall) : Catalog :=
  ((c.enter m).toOption.map (·.2)).getD m

/-- The tables after calls in order. -/
def Store.afterWrites (s : Store) (calls : List DocumentCall) : Store :=
  calls.foldl Store.afterWrite s

/-- The map after calls in order. -/
def Catalog.afterWrites (m : Catalog) (calls : List DocumentCall) : Catalog :=
  calls.foldl Catalog.afterWrite m

/-! What a write makes of a document in the map. -/

namespace Catalog

variable {m : Catalog} {id : String} {d : Document}

theorem change_apply (f : Document → Document) (i : String) :
    (m.change id f).2 i = if i = id then (m id).map f else m i :=
  Function.update_apply _ _ _ _

/-- What a write leaves of a document that is there before and after it. -/
structure Succeeds (c : DocumentCall) (old d : Document) : Prop where
  userId : d.userId = old.userId
  createdAt : d.createdAt = old.createdAt
  date : d.date = old.date ∨ ∃ t ∈ c.moments, d.date = t.truncate
  updatedAt : d.updatedAt = old.updatedAt ∨ ∃ t ∈ c.moments, d.updatedAt = t.truncate

theorem Succeeds.refl (c : DocumentCall) (d : Document) : Succeeds c d d :=
  ⟨rfl, rfl, .inl rfl, .inl rfl⟩

/-- A document that is there after a write has been inserted by it, or it was there and has not been
deleted. -/
theorem afterWrite_eq_some {c : DocumentCall} (h : m.afterWrite c id = some d) :
    (∃ d₀, c = .insert d₀ ∧ d₀.id = id ∧ m id = none ∧ d = d₀.kept) ∨
      c ≠ .delete id ∧ ∃ old, m id = some old ∧ Succeeds c old d := by
  have hchange : ∀ {i : String} {f : Document → Document}, (m.change i f).2 id = some d →
      (∀ old, Succeeds c old (f old)) → ∃ old, m id = some old ∧ Succeeds c old d := by
    intro i f h hf
    rw [change_apply] at h
    split at h
    · next heq =>
        obtain ⟨old, hold, rfl⟩ := Option.map_eq_some_iff.mp h
        exact ⟨old, heq ▸ hold, hf old⟩
    · exact ⟨d, h, .refl c d⟩
  cases c with
  | insert d₀ =>
      simp only [afterWrite, DocumentCall.enter] at h
      cases hold : m d₀.id with
      | some old =>
          rw [hold] at h
          exact .inr ⟨by simp, d, h, .refl _ d⟩
      | none =>
          rw [hold] at h
          change Function.update m d₀.id (some d₀.kept) id = some d at h
          rw [Function.update_apply] at h
          split at h
          · next heq =>
              cases h
              exact .inl ⟨d₀, rfl, heq.symm, heq ▸ hold, rfl⟩
          · exact .inr ⟨by simp, d, h, .refl _ d⟩
  | update d₀ now =>
      refine .inr ⟨by simp, hchange (f := (·.rewritten d₀ now)) h fun old => ?_⟩
      exact ⟨rfl, rfl, .inr ⟨d₀.date, by simp [DocumentCall.moments], rfl⟩,
        .inr ⟨now, by simp [DocumentCall.moments], rfl⟩⟩
  | setContent i content now =>
      refine .inr ⟨by simp, hchange h fun old => ?_⟩
      exact ⟨rfl, rfl, .inl rfl, .inr ⟨now, by simp [DocumentCall.moments], rfl⟩⟩
  | setStatus i status now =>
      refine .inr ⟨by simp, hchange h fun old => ?_⟩
      exact ⟨rfl, rfl, .inl rfl, .inr ⟨now, by simp [DocumentCall.moments], rfl⟩⟩
  | delete i =>
      change Function.update m i none id = some d at h
      rw [Function.update_apply] at h
      split at h
      · cases h
      · next hne =>
          refine .inr ⟨fun heq => hne (DocumentCall.delete.inj heq).symm, d, h, .refl _ d⟩

/-- A document that is there after writes is one that was inserted where none was, and that was not
deleted since.  Its owner and the time of its creation are those with which it was inserted. -/
theorem origin_afterWrites {calls : List DocumentCall} (h : empty.afterWrites calls id = some d) :
    ∃ before d₀ later, calls = before ++ .insert d₀ :: later ∧ d₀.id = id ∧
      empty.afterWrites before id = none ∧ .delete id ∉ later ∧ d.userId = d₀.userId ∧
      d.createdAt = d₀.createdAt.truncate := by
  induction calls using List.reverseRecOn generalizing d with
  | nil => cases h
  | append_singleton calls c ih =>
      rw [afterWrites, List.foldl_append] at h
      rcases afterWrite_eq_some h with ⟨d₀, rfl, hid, hnone, rfl⟩ | ⟨hkept, old, hold, hsucceeds⟩
      · exact ⟨calls, d₀, [], rfl, hid, hnone, by simp, rfl, rfl⟩
      · obtain ⟨before, d₀, later, rfl, hid, hnone, hnever, huser, hcreated⟩ := ih hold
        refine ⟨before, d₀, later ++ [c], by simp, hid, hnone, ?_, ?_, ?_⟩
        · simp [hnever, hkept.symm]
        · rw [hsucceeds.userId, huser]
        · rw [hsucceeds.createdAt, hcreated]

/-- While years with four digits are written, all moments in the map have such years. -/
theorem plain_afterWrites {calls : List DocumentCall}
    (hplain : ∀ c ∈ calls, ∀ t ∈ c.moments, t.HasPlainYear)
    (h : empty.afterWrites calls id = some d) :
    d.date.HasPlainYear ∧ d.createdAt.HasPlainYear ∧ d.updatedAt.HasPlainYear := by
  have htruncate : ∀ {t : Instant}, t.HasPlainYear → t.truncate.HasPlainYear :=
    fun ht => ht
  induction calls using List.reverseRecOn generalizing d with
  | nil => cases h
  | append_singleton calls c ih =>
      have hlast : ∀ t ∈ c.moments, t.truncate.HasPlainYear :=
        fun t ht => htruncate (hplain c (by simp) t ht)
      rw [afterWrites, List.foldl_append] at h
      rcases afterWrite_eq_some h with ⟨d₀, rfl, -, -, rfl⟩ | ⟨-, old, hold, hsucceeds⟩
      · exact ⟨hlast d₀.date (by simp [DocumentCall.moments]),
          hlast d₀.createdAt (by simp [DocumentCall.moments]),
          hlast d₀.updatedAt (by simp [DocumentCall.moments])⟩
      · obtain ⟨hdate, hcreated, hupdated⟩ :=
          ih (fun c hc => hplain c (List.mem_append_left _ hc)) hold
        refine ⟨?_, hsucceeds.createdAt ▸ hcreated, ?_⟩
        · rcases hsucceeds.date with hsame | ⟨t, ht, hnew⟩
          · rwa [hsame]
          · exact hnew ▸ hlast t ht
        · rcases hsucceeds.updatedAt with hsame | ⟨t, ht, hnew⟩
          · rwa [hsame]
          · exact hnew ▸ hlast t ht

end Catalog

/-! Rows of documents as they are kept. -/

namespace DocumentRow

theorem ofDocument_kept (d : Document) : ofDocument d.kept = ofDocument d := by
  simp only [ofDocument, Document.kept, Instant.toMicrosText_truncate]

theorem withFieldsOf_ofDocument (old d : Document) (now : Instant) (hid : old.id = d.id) :
    (ofDocument old).withFieldsOf d now = ofDocument (old.rewritten d now) := by
  simp only [withFieldsOf, ofDocument, Document.rewritten, Document.kept,
    Instant.toMicrosText_truncate, hid]

/-- What is read from the row of a document: the document as it is kept, unless the year of one
of its moments is written with a sign. -/
theorem read_ofDocument (d : Document) :
    (ofDocument d).read =
      if d.date.HasPlainYear then
        if d.createdAt.HasPlainYear then
          if d.updatedAt.HasPlainYear then .ok d.kept else .error (.unreadable 13 none)
        else .error (.unreadable 12 none)
      else .error (.unreadable 9 none) := by
  have hstatus : readNamed 11 DocumentStatus.ofName? DocumentStatus.unknownMessage
      d.status.name = .ok d.status := by
    unfold readNamed
    rw [DocumentStatus.ofName?_name]
  unfold read
  simp only [ofDocument, readMoment_toMicrosText, hstatus]
  by_cases hdate : d.date.HasPlainYear
  · by_cases hcreated : d.createdAt.HasPlainYear
    · by_cases hupdated : d.updatedAt.HasPlainYear
      · simp only [hdate, hcreated, hupdated, if_true]
        rfl
      · simp only [hdate, hcreated, hupdated, if_true, if_false]
        rfl
    · simp only [hdate, hcreated, if_true, if_false]
      rfl
  · simp only [hdate, if_false]
    rfl

end DocumentRow

/-! What a write makes of the rows. -/

namespace Store

variable {s : Store} {id : String}

theorem documentRow?_eq_none : s.documentRow? id = none ↔ s.hasDocument id = false := by
  rw [documentRow?, List.find?_eq_none, hasDocument, List.any_eq_false]

/-- A change to a document that is not there changes nothing. -/
theorem changeDocument_of_unknown (h : s.hasDocument id = false) (f : DocumentRow → DocumentRow) :
    s.changeDocument id f = (false, s) := by
  have hsame : (s.documents.map fun r => if r.id = id then f r else r) = s.documents := by
    refine (List.map_congr_left fun r hr => ?_).trans (List.map_id _)
    rw [if_neg]
    · rfl
    · rintro rfl
      simp only [hasDocument, List.any_eq_false, decide_eq_true_eq] at h
      exact h r hr rfl
  rw [changeDocument, h, hsame]

theorem documentRow?_insert (d : Document) (hnew : s.hasDocument d.id = false) :
    ({ s with documents := s.documents ++ [.ofDocument d] } : Store).documentRow? id =
      if id = d.id then some (.ofDocument d) else s.documentRow? id := by
  simp only [documentRow?, List.find?_append]
  split
  · next heq =>
      subst heq
      have hnone := documentRow?_eq_none.mpr hnew
      rw [documentRow?] at hnone
      rw [hnone]
      simp [DocumentRow.ofDocument]
  · next hne =>
      have hother : ¬ (DocumentRow.ofDocument d).id = id := fun heq => hne heq.symm
      simp [hother]

theorem documentRow?_delete (i : String) : (s.deleteDocument id).2.documentRow? i =
    if i = id then none else s.documentRow? i := by
  simp only [documentRow?, deleteDocument, List.find?_filter]
  split
  · next heq =>
      subst heq
      simp
  · next hne =>
      have hsame : (fun r : DocumentRow =>
          decide (decide (r.id ≠ id) = true ∧ decide (r.id = i) = true)) =
            fun r => decide (r.id = i) := by
        funext r
        grind
      rw [hsame]

theorem hasDocument_changeDocument {f : DocumentRow → DocumentRow} (hf : ∀ r, (f r).id = r.id)
    (i : String) : (s.changeDocument id f).2.hasDocument i = s.hasDocument i := by
  simp only [hasDocument, changeDocument, List.any_map]
  congr 1
  funext r
  simp only [Function.comp]
  split
  · rw [hf]
  · rfl

theorem hasDocument_delete_of_ne {i : String} (hne : i ≠ id) :
    (s.deleteDocument id).2.hasDocument i = s.hasDocument i := by
  have hrow : (s.deleteDocument id).2.documentRow? i = s.documentRow? i := by
    rw [documentRow?_delete, if_neg hne]
  rw [Bool.eq_iff_iff, ← Bool.not_eq_false, ← Bool.not_eq_false, ← documentRow?_eq_none,
    ← documentRow?_eq_none, hrow]

/-- A write to one document leaves the rows of the others. -/
theorem documentRow?_perform {c : DocumentCall} {answer : Bool} {s' : Store}
    (h : c.perform s = .ok (answer, s')) {i : String} (hi : i ≠ c.id) :
    s'.documentRow? i = s.documentRow? i := by
  have hchange : ∀ {id : String} {f : DocumentRow → DocumentRow}, i ≠ id →
      (∀ r, (f r).id = r.id) → (s.changeDocument id f).2.documentRow? i = s.documentRow? i := by
    intro id f hi hf
    rw [documentRow?_changeDocument hf]
    refine (Option.map_congr fun r hr => ?_).trans Option.map_id'
    rw [if_neg]
    rintro rfl
    exact hi (id_of_documentRow? hr).symm
  cases c with
  | insert d =>
      obtain ⟨⟨_, s''⟩, hinsert, heq⟩ : ∃ a, (s.insertDocument d).map (fun s' => (true, s')) =
          .ok a ∧ a = (answer, s') := ⟨_, h, rfl⟩
      cases heq
      unfold insertDocument at hinsert
      cases hknown : s.hasDocument d.id with
      | true =>
          rw [hknown] at hinsert
          cases hinsert
      | false =>
          rw [hknown] at hinsert
          cases hinsert
          exact (documentRow?_insert d hknown).trans (if_neg hi)
  | update d now =>
      cases h
      exact hchange hi fun _ => rfl
  | setContent id content now =>
      cases h
      exact hchange hi fun _ => rfl
  | setStatus id status now =>
      cases h
      exact hchange hi fun _ => rfl
  | delete id =>
      cases h
      exact (documentRow?_delete i).trans (if_neg hi)

end Store

/-! The rows and the map. -/

/-- The rows of the documents are those of the map, one for each, and nothing is attached to
what is not there. -/
structure Catalog.Describes (m : Catalog) (s : Store) : Prop where
  row : ∀ id, s.documentRow? id = (m id).map .ofDocument
  distinct : (s.documents.map (·.id)).Nodup
  kept : ∀ id d, m id = some d → d.kept = d
  jobs : ∀ r ∈ s.jobs, s.hasDocument r.documentId = true
  entries : ∀ r ∈ s.entries, s.hasDocument r.documentId = true
  taggings : ∀ r ∈ s.taggings, s.hasDocument r.documentId = true

namespace Catalog.Describes

variable {m : Catalog} {s : Store} {id : String}

theorem initially : empty.Describes {} where
  row _ := rfl
  distinct := List.nodup_nil
  kept _ _ h := by cases h
  jobs := by simp
  entries := by simp
  taggings := by simp

theorem hasDocument (h : m.Describes s) (id : String) : s.hasDocument id = (m id).isSome := by
  have hrow := h.row id
  cases hid : m id with
  | none =>
      rw [hid] at hrow
      exact Store.documentRow?_eq_none.mp hrow
  | some d =>
      rw [hid] at hrow
      exact Store.hasDocument_of_documentRow? hrow

theorem id_eq (h : m.Describes s) {d : Document} (hd : m id = some d) : d.id = id := by
  have hrow := h.row id
  rw [hd] at hrow
  exact Store.id_of_documentRow? hrow

/-- The rows are those of the documents in the map. -/
theorem mem_documents (h : m.Describes s) {r : DocumentRow} :
    r ∈ s.documents ↔ ∃ d, m d.id = some d ∧ r = .ofDocument d := by
  constructor
  · intro hr
    have hrow := h.row r.id
    rw [Store.documentRow?, find?_eq_some_of_nodup h.distinct hr] at hrow
    obtain ⟨d, hd, heq⟩ := Option.map_eq_some_iff.mp hrow.symm
    have hid : d.id = r.id := h.id_eq hd
    exact ⟨d, hid ▸ hd, heq.symm⟩
  · rintro ⟨d, hd, rfl⟩
    have hrow := h.row d.id
    rw [hd] at hrow
    exact List.mem_of_find?_eq_some hrow

/-- A document is read as the map has it, unless the year of one of its moments is written with
a sign. -/
theorem findDocument (h : m.Describes s) (id : String)
    (hplain : ∀ d, m id = some d →
      d.date.HasPlainYear ∧ d.createdAt.HasPlainYear ∧ d.updatedAt.HasPlainYear) :
    s.findDocument id = .ok (m id) := by
  unfold Store.findDocument
  rw [h.row]
  cases hid : m id with
  | none => rfl
  | some d =>
      obtain ⟨hdate, hcreated, hupdated⟩ := hplain d hid
      simp only [Option.map_some, DocumentRow.read_ofDocument, if_pos hdate, if_pos hcreated,
        if_pos hupdated, h.kept id d hid]
      rfl

/-! Each write makes of the rows what it makes of the map. -/

theorem insert (h : m.Describes s) {d : Document} (hnew : m d.id = none) :
    Describes (Function.update m d.id (some d.kept))
      { s with documents := s.documents ++ [.ofDocument d] } := by
  have habsent : s.hasDocument d.id = false := by rw [h.hasDocument, hnew]; rfl
  have hstill : ∀ i, s.hasDocument i = true →
      ({ s with documents := s.documents ++ [.ofDocument d] } : Store).hasDocument i = true := by
    intro i hi
    rw [Store.hasDocument, List.any_append, Bool.or_eq_true]
    exact .inl hi
  refine ⟨fun i => ?_, ?_, fun i e he => ?_, fun r hr => hstill _ (h.jobs r hr),
    fun r hr => hstill _ (h.entries r hr), fun r hr => hstill _ (h.taggings r hr)⟩
  · rw [Store.documentRow?_insert d habsent]
    by_cases hi : i = d.id
    · rw [if_pos hi, hi, Function.update_self, Option.map_some, DocumentRow.ofDocument_kept]
    · rw [if_neg hi, Function.update_of_ne hi, h.row]
  · rw [List.map_append, List.map_singleton, ← List.concat_eq_append]
    refine h.distinct.concat fun hmem => ?_
    obtain ⟨r, hr, hid⟩ := List.mem_map.mp hmem
    simp only [Store.hasDocument, List.any_eq_false, decide_eq_true_eq] at habsent
    exact habsent r hr hid
  · by_cases hi : i = d.id
    · rw [hi, Function.update_self] at he
      cases he
      simp only [Document.kept, Instant.truncate_truncate]
    · rw [Function.update_of_ne hi] at he
      exact h.kept i e he

theorem change (h : m.Describes s) {f : DocumentRow → DocumentRow} {g : Document → Document}
    (hid : ∀ r, (f r).id = r.id)
    (hfg : ∀ old, m id = some old → f (.ofDocument old) = .ofDocument (g old))
    (hkept : ∀ old, old.kept = old → (g old).kept = g old) :
    (m.change id g).2.Describes (s.changeDocument id f).2 := by
  refine ⟨fun i => ?_, ?_, fun i e he => ?_, fun r hr => ?_, fun r hr => ?_, fun r hr => ?_⟩
  · rw [Store.documentRow?_changeDocument hid, h.row, Catalog.change]
    dsimp only
    by_cases hi : i = id
    · subst hi
      rw [Function.update_self]
      cases hold : m i with
      | none => rfl
      | some old =>
          have hsame : (DocumentRow.ofDocument old).id = i := h.id_eq hold
          rw [Option.map_some, Option.map_some, if_pos hsame, hfg old hold]
          rfl
    · rw [Function.update_of_ne hi]
      cases hold : m i with
      | none => rfl
      | some old =>
          have hother : (DocumentRow.ofDocument old).id ≠ id := by
            intro heq
            exact hi ((h.id_eq hold).symm.trans heq)
          rw [Option.map_some, Option.map_some, if_neg hother]
  · have hids : (s.changeDocument id f).2.documents.map (·.id) = s.documents.map (·.id) := by
      rw [Store.changeDocument, List.map_map]
      refine List.map_congr_left fun r _ => ?_
      simp only [Function.comp]
      split
      · exact hid r
      · rfl
    rw [hids]
    exact h.distinct
  · rw [Catalog.change] at he
    dsimp only at he
    by_cases hi : i = id
    · rw [hi, Function.update_self] at he
      obtain ⟨old, hold, rfl⟩ := Option.map_eq_some_iff.mp he
      exact hkept old (h.kept id old hold)
    · rw [Function.update_of_ne hi] at he
      exact h.kept i e he
  · rw [Store.hasDocument_changeDocument hid]
    exact h.jobs r hr
  · rw [Store.hasDocument_changeDocument hid]
    exact h.entries r hr
  · rw [Store.hasDocument_changeDocument hid]
    exact h.taggings r hr

theorem delete (h : m.Describes s) (id : String) :
    Describes (Function.update m id none) (s.deleteDocument id).2 := by
  have hstill : ∀ {i}, decide (i ≠ id) = true → s.hasDocument i = true →
      (s.deleteDocument id).2.hasDocument i = true := by
    intro i hne hi
    rw [Store.hasDocument_delete_of_ne (of_decide_eq_true hne), hi]
  refine ⟨fun i => ?_, ?_, fun i e he => ?_, fun r hr => ?_, fun r hr => ?_, fun r hr => ?_⟩
  · rw [Store.documentRow?_delete]
    by_cases hi : i = id
    · rw [if_pos hi, hi, Function.update_self]
      rfl
    · rw [if_neg hi, Function.update_of_ne hi, h.row]
  · exact h.distinct.sublist (List.filter_sublist.map _)
  · by_cases hi : i = id
    · rw [hi, Function.update_self] at he
      cases he
    · rw [Function.update_of_ne hi] at he
      exact h.kept i e he
  · obtain ⟨hr, hne⟩ := List.mem_filter.mp hr
    exact hstill hne (h.jobs r hr)
  · obtain ⟨hr, hne⟩ := List.mem_filter.mp hr
    exact hstill hne (h.entries r hr)
  · obtain ⟨hr, hne⟩ := List.mem_filter.mp hr
    exact hstill hne (h.taggings r hr)

theorem deleteDocument_of_unknown (h : m.Describes s) (hnone : m id = none) :
    s.deleteDocument id = (false, s) := by
  have habsent : s.hasDocument id = false := by rw [h.hasDocument, hnone]; rfl
  have hother : ∀ {i}, s.hasDocument i = true → decide (i ≠ id) = true := by
    intro i hi
    refine decide_eq_true ?_
    rintro rfl
    cases hi.symm.trans habsent
  have hdocuments : s.documents.filter (·.id ≠ id) = s.documents :=
    List.filter_eq_self.mpr fun r hr => hother (List.any_eq_true.mpr ⟨r, hr, by simp⟩)
  have hjobs : s.jobs.filter (·.documentId ≠ id) = s.jobs :=
    List.filter_eq_self.mpr fun r hr => hother (h.jobs r hr)
  have hentries : s.entries.filter (·.documentId ≠ id) = s.entries :=
    List.filter_eq_self.mpr fun r hr => hother (h.entries r hr)
  have htaggings : s.taggings.filter (·.documentId ≠ id) = s.taggings :=
    List.filter_eq_self.mpr fun r hr => hother (h.taggings r hr)
  rw [Store.deleteDocument, habsent, hdocuments, hjobs, hentries, htaggings]

/-- A write to a document that is there changes its row as it changes the map, and one to a
document that is not there changes nothing. -/
theorem changed (h : m.Describes s) (id : String) {f : DocumentRow → DocumentRow}
    {g : Document → Document} (hid : ∀ r, (f r).id = r.id)
    (hfg : ∀ old, m id = some old → f (.ofDocument old) = .ofDocument (g old))
    (hkept : ∀ old, old.kept = old → (g old).kept = g old) :
    ∃ answer s' m', s.changeDocument id f = (answer, s') ∧ m.change id g = (answer, m') ∧
      m'.Describes s' ∧ (answer = false → s' = s) := by
  have hanswer := h.hasDocument id
  refine ⟨_, _, _, Prod.ext hanswer rfl, rfl, h.change hid hfg hkept, fun hnone => ?_⟩
  rw [Store.changeDocument_of_unknown (hanswer.trans hnone)]

/-- A call fails on the tables as it does on the map, or it answers alike and makes of the rows
what it makes of the map.  Where it answers that there is no such document, it changes
nothing. -/
theorem perform (h : m.Describes s) (c : DocumentCall) :
    (∃ answer s' m', c.perform s = .ok (answer, s') ∧ c.enter m = .ok (answer, m') ∧
      m'.Describes s' ∧ (answer = false → s' = s)) ∨
      ∃ e, c.perform s = .error e ∧ c.enter m = .error e := by
  cases c with
  | insert d =>
      simp only [DocumentCall.perform, DocumentCall.enter, Store.insertDocument, h.hasDocument]
      cases hnew : m d.id with
      | some old => exact .inr ⟨_, rfl, rfl⟩
      | none => exact .inl ⟨_, _, _, rfl, rfl, h.insert hnew, fun hfalse => by cases hfalse⟩
  | update d now =>
      obtain ⟨answer, s', m', hs, hm, hafter⟩ := h.changed d.id
        (f := (·.withFieldsOf d now)) (g := (·.rewritten d now)) (fun _ => rfl)
        (fun old hold => DocumentRow.withFieldsOf_ofDocument old d now (h.id_eq hold))
        (fun old hold => by
          have hcreated : old.createdAt.truncate = old.createdAt :=
            congrArg Document.createdAt hold
          simp only [Document.rewritten, Document.kept, Instant.truncate_truncate, hcreated])
      exact .inl ⟨answer, s', m', congrArg Except.ok hs, congrArg Except.ok hm, hafter⟩
  | setContent id content now =>
      obtain ⟨answer, s', m', hs, hm, hafter⟩ := h.changed id
        (f := fun r => { r with content, updatedAt := now.toMicrosText })
        (g := fun old => { old with content, updatedAt := now.truncate })
        (fun _ => rfl)
        (fun old _ => by simp only [DocumentRow.ofDocument, Instant.toMicrosText_truncate])
        (fun old hold => by
          rw [← hold]
          simp only [Document.kept, Instant.truncate_truncate])
      exact .inl ⟨answer, s', m', congrArg Except.ok hs, congrArg Except.ok hm, hafter⟩
  | setStatus id status now =>
      obtain ⟨answer, s', m', hs, hm, hafter⟩ := h.changed id
        (f := fun r => { r with status := status.name, updatedAt := now.toMicrosText })
        (g := fun old => { old with status, updatedAt := now.truncate })
        (fun _ => rfl)
        (fun old _ => by simp only [DocumentRow.ofDocument, Instant.toMicrosText_truncate])
        (fun old hold => by
          rw [← hold]
          simp only [Document.kept, Instant.truncate_truncate])
      exact .inl ⟨answer, s', m', congrArg Except.ok hs, congrArg Except.ok hm, hafter⟩
  | delete id =>
      have hanswer := h.hasDocument id
      refine .inl ⟨_, _, _, congrArg Except.ok (Prod.ext hanswer rfl), rfl, h.delete id, ?_⟩
      intro hfalse
      have hnone : m id = none := Option.not_isSome_iff_eq_none.mp (ne_true_of_eq_false hfalse)
      exact congrArg Prod.snd (h.deleteDocument_of_unknown hnone)

/-- After any writes the rows are those of the map. -/
theorem afterWrites (h : m.Describes s) (calls : List DocumentCall) :
    (m.afterWrites calls).Describes (s.afterWrites calls) := by
  induction calls generalizing m s with
  | nil => exact h
  | cons c rest ih =>
      apply ih
      rw [Catalog.afterWrite, Store.afterWrite]
      rcases h.perform c with ⟨answer, s', m', hs, hm, h', -⟩ | ⟨e, hs, hm⟩
      · rw [hs, hm]
        exact h'
      · rw [hs, hm]
        exact h

/-- A call that does not insert and is about no document answers so and changes nothing. -/
theorem perform_of_unknown (h : m.Describes s) {c : DocumentCall} (hnone : m c.id = none)
    (hother : ∀ d, c ≠ .insert d) : c.perform s = .ok (false, s) := by
  have habsent : s.hasDocument c.id = false := by rw [h.hasDocument, hnone]; rfl
  cases c with
  | insert d => exact absurd rfl (hother d)
  | update d now => exact congrArg Except.ok (Store.changeDocument_of_unknown habsent _)
  | setContent id content now =>
      exact congrArg Except.ok (Store.changeDocument_of_unknown habsent _)
  | setStatus id status now =>
      exact congrArg Except.ok (Store.changeDocument_of_unknown habsent _)
  | delete id => exact congrArg Except.ok (h.deleteDocument_of_unknown hnone)

theorem perform_insert_of_known (h : m.Describes s) {d : Document} (hsome : m d.id ≠ none) :
    (DocumentCall.insert d).perform s = .error (.notUnique "documents" ["id"]) := by
  have hknown : s.hasDocument d.id = true := by
    rw [h.hasDocument, Option.isSome_iff_ne_none]
    exact hsome
  simp only [DocumentCall.perform, Store.insertDocument, hknown]
  rfl

end Catalog.Describes

/-- A write to one document is not seen when another is read. -/
theorem Store.findDocument_afterWrite {s : Store} {c : DocumentCall} {id : String}
    (hid : id ≠ c.id) : (s.afterWrite c).findDocument id = s.findDocument id := by
  unfold afterWrite
  cases hperform : c.perform s with
  | error e => rfl
  | ok answered =>
      obtain ⟨answer, s'⟩ := answered
      have hrow : s'.documentRow? id = s.documentRow? id := documentRow?_perform hperform hid
      change s'.findDocument id = s.findDocument id
      unfold findDocument
      rw [hrow]

/-- After any writes to the documents their table is a map from ids to documents, in which each
write has its plain meaning: the rows are those of the map, and a write answers and fails as on the
map.  A write to an id that is not there answers so and changes nothing, one that inserts a used id
fails, and none is seen under another id.  Owner and time of creation are those of the
insertion.  While the years that are written have four digits, a document is read exactly as the
map has it. -/
theorem documents_refine_catalog (calls : List DocumentCall) :
    let s := ({} : Store).afterWrites calls
    let m := Catalog.empty.afterWrites calls
    (s.documents.map (·.id)).Nodup ∧
      (∀ r, r ∈ s.documents ↔ ∃ d, m d.id = some d ∧ r = .ofDocument d) ∧
      (∀ c : DocumentCall, (c.perform s).map (·.1) = (c.enter m).map (·.1)) ∧
      (∀ c : DocumentCall, m c.id = none → (∀ d, c ≠ .insert d) → c.perform s = .ok (false, s)) ∧
      (∀ d : Document, m d.id ≠ none →
        (DocumentCall.insert d).perform s = .error (.notUnique "documents" ["id"]) ∧
          s.afterWrite (.insert d) = s) ∧
      (∀ (c : DocumentCall) (id : String), id ≠ c.id →
        (s.afterWrite c).findDocument id = s.findDocument id) ∧
      (∀ id d, m id = some d → d.id = id ∧ d.metadata = none ∧ d.tags = none ∧
        ∃ before d₀ later, calls = before ++ .insert d₀ :: later ∧ d₀.id = id ∧
          Catalog.empty.afterWrites before id = none ∧ .delete id ∉ later ∧
          d.userId = d₀.userId ∧ d.createdAt = d₀.createdAt.truncate) ∧
      ((∀ c ∈ calls, ∀ t ∈ c.moments, t.HasPlainYear) → ∀ id, s.findDocument id = .ok (m id)) := by
  intro s m
  have h : m.Describes s := Catalog.Describes.initially.afterWrites calls
  refine ⟨h.distinct, fun r => h.mem_documents, fun c => ?_,
    fun c hnone hother => h.perform_of_unknown hnone hother, fun d hsome => ?_,
    fun c id hid => Store.findDocument_afterWrite hid, fun id d hd => ?_, fun hplain id => ?_⟩
  · rcases h.perform c with ⟨answer, s', m', hs, hm, -⟩ | ⟨e, hs, hm⟩
    · rw [hs, hm]
      rfl
    · rw [hs, hm]
      rfl
  · have hfails := h.perform_insert_of_known hsome
    refine ⟨hfails, ?_⟩
    rw [Store.afterWrite, hfails]
    rfl
  · have hkept := h.kept id d hd
    refine ⟨h.id_eq hd, ?_, ?_, Catalog.origin_afterWrites hd⟩
    · rw [← hkept]
      rfl
    · rw [← hkept]
      rfl
  · exact h.findDocument id fun d hd => Catalog.plain_afterWrites hplain hd

/-- A document whose date lies in a leap second, and with more digits than are kept. -/
def Document.leaping : Document :=
  { Document.stray with
    date := ((Calendar.Date.ofYmd? 2016 12 31).bind (Instant.of? · 86399 1500000700)).getD default }

/-- The document is stored, gets a content and is updated by somebody else, who names another
owner. -/
def leapingWritten : List DocumentCall :=
  [.insert .leaping, .setContent "d" "x" default,
    .update { Document.leaping with userId := 7, content := "y" } default]

/-- It is read with the leap second, to the microsecond, with its new content and with the owner that
it had. -/
theorem documents_refine_catalog_leaping :
    (∀ c ∈ leapingWritten, ∀ t ∈ c.moments, t.HasPlainYear) ∧
    (({} : Store).afterWrites leapingWritten).findDocument "d" =
      .ok (some { Document.leaping with
        content := "y"
        date := Document.leaping.date.truncate }) := by
  have hplain : ∀ c ∈ leapingWritten, ∀ t ∈ c.moments, t.HasPlainYear := by decide
  obtain ⟨-, -, -, -, -, -, -, hread⟩ := documents_refine_catalog leapingWritten
  refine ⟨hplain, (hread hplain "d").trans ?_⟩
  rfl

end Docket
