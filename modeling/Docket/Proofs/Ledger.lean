import Docket.Proofs.Chronology
import Docket.Proofs.Recovery

/-!
The table of jobs as a map.  Whatever is called, the rows are those of a map from documents
and steps to records, in which each call has a plain meaning.
-/

namespace Docket

open Calendar (Instant)

/-! The map and what calls make of it. -/

/-- A job without the document and the step that it is for.  Times are known to the
microsecond. -/
structure JobRecord where
  status : JobStatus
  message : Option String
  createdAt : Instant
  startedAt : Option Instant
  stoppedAt : Option Instant
deriving DecidableEq

namespace JobRecord

def pending (now : Instant) : JobRecord where
  status := .pending
  message := none
  createdAt := now.truncate
  startedAt := none
  stoppedAt := none

def started (now : Instant) (b : JobRecord) : JobRecord :=
  { b with status := .running, startedAt := some now.truncate, stoppedAt := none }

def ended (succeeded : Bool) (message : Option String) (now : Instant) (b : JobRecord) :
    JobRecord :=
  { b with
    status := if succeeded then .finished else .failed
    message
    stoppedAt := some now.truncate }

def requeued (b : JobRecord) : JobRecord := { b with status := .pending, startedAt := none }

/-- The row of a document and a step with this record. -/
def row (id : String) (t : Step) (b : JobRecord) : JobRow where
  documentId := id
  step := t.name
  status := b.status.name
  message := b.message
  createdAt := b.createdAt.toMicrosText
  startedAt := b.startedAt.map Instant.toMicrosText
  stoppedAt := b.stoppedAt.map Instant.toMicrosText

/-- The job of a document and a step with this record. -/
def job (id : String) (t : Step) (b : JobRecord) : Job where
  documentId := id
  step := t
  status := b.status
  message := b.message
  createdAt := b.createdAt
  startedAt := b.startedAt
  stoppedAt := b.stoppedAt

end JobRecord

/-- Which documents there are, and a map from documents and steps to records. -/
structure Ledger where
  known : String → Bool := fun _ => false
  record? : String → Step → Option JobRecord := fun _ _ => none

namespace Ledger

/-- Write the record of a document and a step, if there is one. -/
def change (l : Ledger) (id : String) (t : Step) (f : JobRecord → JobRecord) : Ledger :=
  { l with record? := fun i u => if i = id ∧ u = t then (l.record? i u).map f else l.record? i u }

/-- Take away the record of a document and a step. -/
def clear (l : Ledger) (id : String) (t : Step) : Ledger :=
  { l with record? := fun i u => if i = id ∧ u = t then none else l.record? i u }

/-- Give a document new records of steps. -/
def wait (l : Ledger) (id : String) (steps : List Step) (now : Instant) : Ledger :=
  { l with
    record? := fun i u => if i = id ∧ u ∈ steps then some (.pending now) else l.record? i u }

/-- Take away all records of a document. -/
def cancel (l : Ledger) (id : String) : Ledger :=
  { l with record? := fun i u => if i = id then none else l.record? i u }

/-- Let all running steps wait. -/
def reset (l : Ledger) : Ledger :=
  { l with
    record? := fun i u => (l.record? i u).map fun b =>
      if b.status = .running then b.requeued else b }

end Ledger

/-- A call that changes the documents or the jobs. -/
inductive JobCall where
  | insert (d : Document)
  | delete (id : String)
  /-- Let a document wait for every step. -/
  | queue (id : String) (now : Instant)
  | start (id : String) (t : Step) (now : Instant)
  | finish (id : String) (t : Step) (succeeded : Bool) (message : Option String) (now : Instant)
  | clear (id : String) (t : Step)
  | requeue (id : String) (t : Step)
  /-- Let all running steps wait again. -/
  | reset
  /-- Let a document wait for a step and all behind it, and for nothing else. -/
  | force (id : String) (first : Step) (now : Instant)
  /-- Delete all jobs of a document. -/
  | cancel (id : String)

namespace JobCall

/-- The time at which a call is made, if it asks for it. -/
def now? : JobCall → Option Instant
  | .queue _ now | .start _ _ now | .finish _ _ _ _ now | .force _ _ now => some now
  | _ => none

/-- What a call makes of the tables. -/
def perform : JobCall → Store → Except StoreError Store
  | .insert d, s => s.insertDocument d
  | .delete id, s => .ok (s.deleteDocument id).2
  | .queue id now, s => s.queueDocument id now
  | .start id t now, s => .ok (s.startJob id t now)
  | .finish id t succeeded message now, s => .ok (s.finishJob id t succeeded message now)
  | .clear id t, s => .ok (s.clearJob id t)
  | .requeue id t, s => .ok (s.requeueJob id t)
  | .reset, s => .ok s.resetRunning.2
  | .force id first now, s => s.forceFrom id first now
  | .cancel id, s => .ok (s.deleteJobs id).2

/-- What a call makes of the map. -/
def enter : JobCall → Ledger → Except StoreError Ledger
  | .insert d, l =>
    if l.known d.id then .error (.notUnique "documents" ["id"])
    else .ok { l with known := fun i => l.known i || i == d.id }
  | .delete id, l => .ok { l.cancel id with known := fun i => l.known i && i != id }
  | .queue id now, l =>
    if l.known id then .ok (l.wait id Step.all now) else .error .brokenReference
  | .start id t now, l => .ok (l.change id t (.started now))
  | .finish id t succeeded message now, l => .ok (l.change id t (.ended succeeded message now))
  | .clear id t, l => .ok (l.clear id t)
  | .requeue id t, l => .ok (l.change id t .requeued)
  | .reset, l => .ok l.reset
  | .force id first now, l =>
    if l.known id then .ok ((l.cancel id).wait id first.onward now) else .error .brokenReference
  | .cancel id, l => .ok (l.cancel id)

end JobCall

/-- The tables after calls in order.  A call that fails writes nothing. -/
def Store.afterCalls (s : Store) (calls : List JobCall) : Store :=
  calls.foldl (fun s c => (c.perform s).toOption.getD s) s

/-- The map after calls in order. -/
def Ledger.afterCalls (l : Ledger) (calls : List JobCall) : Ledger :=
  calls.foldl (fun l c => (c.enter l).toOption.getD l) l

/-! What all rows keep. -/

namespace Store

variable {s : Store} {id : String} {t : Step}

/-- Every row is that of some step. -/
def Named (s : Store) : Prop := ∀ r ∈ s.jobs, ∃ t : Step, r.step = t.name

theorem Named.map {f : JobRow → JobRow} (hnamed : s.Named) (hf : ∀ r, (f r).step = r.step) :
    ({ s with jobs := s.jobs.map f } : Store).Named := by
  intro r hr
  obtain ⟨r', hr', rfl⟩ := List.mem_map.mp hr
  rw [hf]
  exact hnamed r' hr'

theorem Named.changeJob {f : JobRow → JobRow} (hnamed : s.Named) (hf : JobRow.KeepsKey f) :
    (s.changeJob id t f).Named := by
  refine hnamed.map fun r => ?_
  split
  · exact (hf r).2
  · rfl

theorem Named.filter {p : JobRow → Bool} (hnamed : s.Named) :
    ({ s with jobs := s.jobs.filter p } : Store).Named :=
  fun r hr => hnamed r (List.mem_filter.mp hr).1

theorem Named.putPending (hnamed : s.Named) (id : String) (steps : List Step) (now : Instant) :
    (s.putPending id steps now).Named := by
  induction steps generalizing s with
  | nil => exact hnamed
  | cons t rest ih =>
      apply ih
      intro r hr
      rcases List.mem_append.mp hr with hr | hr
      · exact hnamed r (List.mem_filter.mp hr).1
      · cases List.mem_singleton.mp hr
        exact ⟨t, rfl⟩

theorem putPending_documents (s : Store) (id : String) (steps : List Step) (now : Instant) :
    (s.putPending id steps now).documents = s.documents := by
  induction steps generalizing s with
  | nil => rfl
  | cons t rest ih => exact ih _

end Store

/-! Each call makes of the rows what it makes of the map. -/

/-- The rows of the tables are those of the map, and the documents are those that it knows. -/
structure Ledger.Describes (l : Ledger) (s : Store) : Prop where
  known : ∀ id, s.hasDocument id = l.known id
  rows : ∀ id t, s.rowsOf id t = ((l.record? id t).map (·.row id t)).toList
  named : s.Named
  based : ∀ id t, (l.record? id t).isSome = true → l.known id = true

namespace Ledger.Describes

variable {l : Ledger} {s : Store} {id : String} {t : Step}

theorem change (h : l.Describes s) {f : JobRow → JobRow} {g : JobRecord → JobRecord}
    (hf : JobRow.KeepsKey f) (hfg : ∀ b, f (b.row id t) = (g b).row id t) :
    (l.change id t g).Describes (s.changeJob id t f) where
  known := h.known
  rows i u := by
    rw [Store.rowsOf_changeJob_eq hf, h.rows, Ledger.change]
    dsimp only
    split
    · next heq =>
        obtain ⟨rfl, rfl⟩ := heq
        cases l.record? i u with
        | none => rfl
        | some b => exact congrArg (fun r => [r]) (hfg b)
    · rfl
  named := h.named.changeJob hf
  based i u hsome := by
    apply h.based i u
    rw [Ledger.change] at hsome
    dsimp only at hsome
    split at hsome
    · simpa using hsome
    · exact hsome

theorem clear (h : l.Describes s) (id : String) (t : Step) :
    (l.clear id t).Describes (s.clearJob id t) where
  known := h.known
  rows i u := by
    rw [Store.rowsOf_clearJob_eq, h.rows, Ledger.clear]
    dsimp only
    split <;> rfl
  named := h.named.filter
  based i u hsome := by
    apply h.based i u
    rw [Ledger.clear] at hsome
    dsimp only at hsome
    split at hsome
    · cases hsome
    · exact hsome

theorem cancel (h : l.Describes s) (id : String) :
    (l.cancel id).Describes (s.deleteJobs id).2 where
  known := h.known
  rows i u := by
    rw [Store.rowsOf_deleteJobs_eq, h.rows, Ledger.cancel]
    dsimp only
    split <;> rfl
  named := h.named.filter
  based i u hsome := by
    apply h.based i u
    rw [Ledger.cancel] at hsome
    dsimp only at hsome
    split at hsome
    · cases hsome
    · exact hsome

theorem row_pending (id : String) (t : Step) (now : Instant) :
    (JobRecord.pending now).row id t = JobRow.pending id t now := by
  simp only [JobRecord.row, JobRecord.pending, JobRow.pending, Instant.toMicrosText_truncate,
    Option.map_none]

theorem wait (h : l.Describes s) (hid : l.known id = true) (steps : List Step) (now : Instant) :
    (l.wait id steps now).Describes (s.putPending id steps now) where
  known i := by
    rw [Store.hasDocument, Store.putPending_documents]
    exact h.known i
  rows i u := by
    rw [Store.rowsOf_putPending_eq, h.rows, Ledger.wait]
    dsimp only
    split
    · exact congrArg (fun r => [r]) (row_pending i u now).symm
    · rfl
  named := h.named.putPending id steps now
  based i u hsome := by
    rw [Ledger.wait] at hsome
    dsimp only at hsome
    split at hsome
    · next heq => exact heq.1 ▸ hid
    · exact h.based i u hsome

theorem row_running (b : JobRecord) (id : String) (t : Step) :
    (b.row id t).status = JobStatus.running.name ↔ b.status = .running :=
  ⟨fun h => JobStatus.name_injective h, fun h => congrArg JobStatus.name h⟩

theorem reset (h : l.Describes s) : l.reset.Describes s.resetRunning.2 where
  known := h.known
  rows i u := by
    rw [Store.rowsOf_resetRunning, h.rows, Ledger.reset]
    dsimp only
    cases l.record? i u with
    | none => rfl
    | some b =>
        simp only [Option.map_some, Option.toList_some, List.map_cons, List.map_nil, row_running]
        split <;> rfl
  named := h.named.map fun r => by split <;> rfl
  based i u hsome := h.based i u (by simpa [Ledger.reset] using hsome)

theorem insert (h : l.Describes s) (d : Document) :
    ({ l with known := fun i => l.known i || i == d.id } : Ledger).Describes
      { s with documents := s.documents ++ [.ofDocument d] } where
  known i := by
    have hnew : decide ((DocumentRow.ofDocument d).id = i) = (i == d.id) := by
      rw [Bool.eq_iff_iff, decide_eq_true_iff, beq_iff_eq]
      exact eq_comm
    simp only [Store.hasDocument, List.any_append, List.any_cons, List.any_nil, Bool.or_false,
      hnew]
    rw [← h.known, Store.hasDocument]
  rows := h.rows
  named := h.named
  based i u hsome := by
    simp only [h.based i u hsome, Bool.true_or]

theorem delete (h : l.Describes s) (id : String) :
    ({ l.cancel id with known := fun i => l.known i && i != id } : Ledger).Describes
      (s.deleteDocument id).2 where
  known i := by
    change (s.deleteDocument id).2.hasDocument i = (l.known i && i != id)
    rw [← h.known, Store.hasDocument, Store.hasDocument, Store.deleteDocument, List.any_filter,
      Bool.eq_iff_iff]
    simp only [List.any_eq_true, Bool.and_eq_true, decide_eq_true_eq, bne_iff_ne]
    constructor
    · rintro ⟨r, hr, hne, rfl⟩
      exact ⟨⟨r, hr, rfl⟩, hne⟩
    · rintro ⟨⟨r, hr, rfl⟩, hne⟩
      exact ⟨r, hr, hne, rfl⟩
  rows := (h.cancel id).rows
  named := h.named.filter
  based i u hsome := by
    have hne : i ≠ id := by
      rintro rfl
      simp [Ledger.cancel] at hsome
    have hknown : l.known i = true := (h.cancel id).based i u hsome
    simp [hknown, hne]

/-- A call fails on the tables as it does on the map, or it makes of the rows what it makes
of the map. -/
theorem perform (h : l.Describes s) (c : JobCall) :
    (∃ s' l', c.perform s = .ok s' ∧ c.enter l = .ok l' ∧ l'.Describes s') ∨
      ∃ e, c.perform s = .error e ∧ c.enter l = .error e := by
  cases c with
  | insert d =>
      simp only [JobCall.perform, JobCall.enter, Store.insertDocument, h.known]
      cases l.known d.id with
      | true => exact .inr ⟨_, rfl, rfl⟩
      | false => exact .inl ⟨_, _, rfl, rfl, h.insert d⟩
  | delete id => exact .inl ⟨_, _, rfl, rfl, h.delete id⟩
  | queue id now =>
      simp only [JobCall.perform, JobCall.enter, Store.queueDocument, h.known]
      cases hid : l.known id with
      | true => exact .inl ⟨_, _, rfl, rfl, h.wait hid Step.all now⟩
      | false => exact .inr ⟨_, rfl, rfl⟩
  | start id t now =>
      refine .inl ⟨_, _, rfl, rfl, h.change (fun _ => ⟨rfl, rfl⟩) fun b => ?_⟩
      simp [JobRecord.row, JobRow.started, JobRecord.started, Instant.toMicrosText_truncate]
  | finish id t succeeded message now =>
      refine .inl ⟨_, _, rfl, rfl, h.change (fun _ => ⟨rfl, rfl⟩) fun b => ?_⟩
      simp [JobRecord.row, JobRow.ended, JobRecord.ended, Instant.toMicrosText_truncate]
  | clear id t => exact .inl ⟨_, _, rfl, rfl, h.clear id t⟩
  | requeue id t =>
      exact .inl ⟨_, _, rfl, rfl, h.change (fun _ => ⟨rfl, rfl⟩) fun _ => rfl⟩
  | reset => exact .inl ⟨_, _, rfl, rfl, h.reset⟩
  | force id first now =>
      simp only [JobCall.perform, JobCall.enter, Store.forceFrom, h.known]
      cases hid : l.known id with
      | true => exact .inl ⟨_, _, rfl, rfl, (h.cancel id).wait hid first.onward now⟩
      | false => exact .inr ⟨_, rfl, rfl⟩
  | cancel id => exact .inl ⟨_, _, rfl, rfl, h.cancel id⟩

/-- After any calls the rows are those of the map. -/
theorem afterCalls (h : l.Describes s) (calls : List JobCall) :
    (l.afterCalls calls).Describes (s.afterCalls calls) := by
  induction calls generalizing l s with
  | nil => exact h
  | cons c rest ih =>
      apply ih
      dsimp only
      rcases h.perform c with ⟨s', l', hs, hl, h'⟩ | ⟨e, hs, hl⟩
      · rw [hs, hl]
        exact h'
      · rw [hs, hl]
        exact h

/-! What the rows say. -/

theorem mem_jobs (h : l.Describes s) {r : JobRow} :
    r ∈ s.jobs ↔ ∃ id t b, l.record? id t = some b ∧ r = b.row id t := by
  constructor
  · intro hr
    obtain ⟨t, ht⟩ := h.named r hr
    have hmem : r ∈ s.rowsOf r.documentId t :=
      Store.mem_rowsOf.mpr ⟨hr, JobRow.isFor_iff.mpr ⟨rfl, ht⟩⟩
    rw [h.rows] at hmem
    obtain ⟨b, hb, hrow⟩ := Option.map_eq_some_iff.mp (Option.mem_toList.mp hmem)
    exact ⟨_, _, b, hb, hrow.symm⟩
  · rintro ⟨id, t, b, hb, rfl⟩
    have hmem : b.row id t ∈ s.rowsOf id t := by simp [h.rows, hb]
    exact (Store.mem_rowsOf.mp hmem).1

/-- There is one row at most for a document and a step. -/
theorem keyed (h : l.Describes s) : s.Keyed := by
  refine List.pairwise_iff_forall_sublist.mpr ?_
  rintro r r' hsub ⟨hid, hstep⟩
  obtain ⟨t, ht⟩ := h.named r (hsub.mem List.mem_cons_self)
  have hfor : r.isFor r.documentId t = true := JobRow.isFor_iff.mpr ⟨rfl, ht⟩
  have hfor' : r'.isFor r.documentId t = true :=
    JobRow.isFor_iff.mpr ⟨hid.symm, hstep.symm.trans ht⟩
  have hlength := (hsub.filter (·.isFor r.documentId t)).length_le
  rw [← Store.rowsOf_eq_filter, h.rows] at hlength
  cases hb : l.record? r.documentId t <;> simp [hfor, hfor', hb] at hlength

theorem hasDocument (h : l.Describes s) {r : JobRow} (hr : r ∈ s.jobs) :
    s.hasDocument r.documentId = true := by
  obtain ⟨id, t, b, hb, rfl⟩ := h.mem_jobs.mp hr
  exact (h.known id).trans (h.based id t (by rw [hb]; rfl))


end Ledger.Describes

end Docket
