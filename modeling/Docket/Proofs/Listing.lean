import Docket.Proofs.Ledger
import Docket.Proofs.Pulling
import Docket.Proofs.Readable

/-!
What is asked of the table of jobs, told from the map that it stands for: the jobs of a
document that wait, and which documents wait longest.
-/

namespace Docket

open Calendar (Instant)

/-! Reading the jobs that wait. -/

/-- All times of a record are such that their texts are read back. -/
def JobRecord.Readable (b : JobRecord) : Prop :=
  ∀ t, b.createdAt = t ∨ b.startedAt = some t ∨ b.stoppedAt = some t →
    t.HasPlainYear ∧ t.truncate = t

theorem Calendar.Instant.readable_truncate {t : Instant} (ht : t.HasPlainYear) :
    t.truncate.HasPlainYear ∧ t.truncate.truncate = t.truncate :=
  ⟨ht, t.truncate_truncate⟩

theorem JobRecord.Readable.started {b : JobRecord} {now : Instant} (hb : b.Readable)
    (hnow : now.HasPlainYear) : (b.started now).Readable := by
  rintro t (h | h | h)
  · exact hb t (.inl h)
  · cases h
    exact Instant.readable_truncate hnow
  · cases h

theorem JobRecord.Readable.ended {b : JobRecord} {now : Instant} (hb : b.Readable)
    (hnow : now.HasPlainYear) {succeeded : Bool} {message : Option String} :
    (b.ended succeeded message now).Readable := by
  rintro t (h | h | h)
  · exact hb t (.inl h)
  · exact hb t (.inr (.inl h))
  · cases h
    exact Instant.readable_truncate hnow

theorem JobRecord.Readable.requeued {b : JobRecord} (hb : b.Readable) :
    b.requeued.Readable := by
  rintro t (h | h | h)
  · exact hb t (.inl h)
  · cases h
  · exact hb t (.inr (.inr h))

theorem readMoment_of_readable {t : Instant} (ht : t.HasPlainYear ∧ t.truncate = t)
    (column : Nat) : readMoment column t.toMicrosText = .ok t := by
  rw [readMoment_toMicrosText, if_pos ht.1, ht.2]

theorem readMoment?_of_readable {t? : Option Instant}
    (ht : ∀ t, t? = some t → t.HasPlainYear ∧ t.truncate = t) (column : Nat) :
    readMoment? column (t?.map Instant.toMicrosText) = .ok t? := by
  cases t? with
  | none => rfl
  | some t =>
      simp only [Option.map_some, readMoment?, readMoment_of_readable (ht t rfl)]
      rfl

theorem JobRecord.Readable.read_row {b : JobRecord} (hb : b.Readable) (id : String) (t : Step) :
    (b.row id t).read = .ok (b.job id t) := by
  have hstep : readNamed 1 Step.ofName? Step.unknownMessage t.name = .ok t := by
    rw [readNamed, Step.ofName?_eq_some.mpr rfl]
  have hstatus : readNamed 2 JobStatus.ofName? JobStatus.unknownMessage b.status.name =
      .ok b.status := by
    cases b.status <;> rfl
  have hcreated := readMoment_of_readable (hb b.createdAt (.inl rfl)) 4
  have hstarted := readMoment?_of_readable (fun t ht => hb t (.inr (.inl ht))) 5
  have hstopped := readMoment?_of_readable (fun t ht => hb t (.inr (.inr ht))) 6
  simp only [JobRow.read, row, hstep, hstatus, hcreated, hstarted, hstopped]
  rfl

/-- Exactly the jobs of the rows are read. -/
theorem Store.mem_readJobs {rows : List JobRow} {jobs : List Job}
    (h : readJobs rows = .ok jobs) {b : Job} : b ∈ jobs ↔ ∃ r ∈ rows, r.read = .ok b := by
  obtain ⟨unsorted, hread, h⟩ := exists_of_bind_ok h
  cases h
  have hmem : ∀ {sorted : List JobRow} {jobs : List Job},
      List.Forall₂ (fun r b => JobRow.read r = .ok b) sorted jobs →
      (b ∈ jobs ↔ ∃ r ∈ sorted, r.read = .ok b) := by
    intro sorted jobs hall
    induction hall with
    | nil => simp
    | cons hr _ ih => simp [ih, hr, eq_comm]
  rw [(List.mergeSort_perm _ _).mem_iff, hmem (forall₂_of_mapM hread)]
  simp only [(List.mergeSort_perm _ _).mem_iff]

/-- All records can be read back. -/
def Ledger.Readable (l : Ledger) : Prop := ∀ id t b, l.record? id t = some b → b.Readable

namespace Ledger.Readable

variable {l l' : Ledger} {now : Instant}

theorem mono (hl : l.Readable)
    (h : ∀ id t b, l'.record? id t = some b → l.record? id t = some b) : l'.Readable :=
  fun id t b hb => hl id t b (h id t b hb)

theorem clear (hl : l.Readable) (id : String) (t : Step) : (l.clear id t).Readable := by
  refine hl.mono fun i u b hb => ?_
  simp only [Ledger.clear] at hb
  split at hb
  · cases hb
  · exact hb

theorem cancel (hl : l.Readable) (id : String) : (l.cancel id).Readable := by
  refine hl.mono fun i u b hb => ?_
  simp only [Ledger.cancel] at hb
  split at hb
  · cases hb
  · exact hb

theorem wait (hl : l.Readable) (hnow : now.HasPlainYear) (id : String) (steps : List Step) :
    (l.wait id steps now).Readable := by
  intro i u b hb
  simp only [Ledger.wait] at hb
  split at hb
  · cases hb
    rintro t (rfl | h | h)
    · exact Instant.readable_truncate hnow
    · cases h
    · cases h
  · exact hl i u b hb

theorem change (hl : l.Readable) {id : String} {t : Step} {f : JobRecord → JobRecord}
    (hf : ∀ b : JobRecord, b.Readable → (f b).Readable) : (l.change id t f).Readable := by
  intro i u b hb
  simp only [Ledger.change] at hb
  split at hb
  · obtain ⟨b', hb', rfl⟩ := Option.map_eq_some_iff.mp hb
    exact hf b' (hl i u b' hb')
  · exact hl i u b hb

theorem reset (hl : l.Readable) : l.reset.Readable := by
  intro i u b hb
  obtain ⟨b', hb', rfl⟩ := Option.map_eq_some_iff.mp hb
  have hread := hl i u b' hb'
  split
  · exact hread.requeued
  · exact hread

/-- While the clock shows years of four digits, all records can be read back. -/
theorem enter {c : JobCall} (hl : l.Readable)
    (hclock : ∀ now, c.now? = some now → now.HasPlainYear) (h : c.enter l = .ok l') :
    l'.Readable := by
  cases c with
  | insert d =>
      simp only [JobCall.enter] at h
      split at h <;> cases h
      exact hl
  | delete id =>
      cases h
      exact hl.cancel id
  | queue id now =>
      simp only [JobCall.enter] at h
      split at h <;> cases h
      exact hl.wait (hclock now rfl) id Step.all
  | start id t now =>
      cases h
      exact hl.change fun b hb => hb.started (hclock now rfl)
  | finish id t succeeded message now =>
      cases h
      exact hl.change fun b hb => hb.ended (hclock now rfl)
  | clear id t =>
      cases h
      exact hl.clear id t
  | requeue id t =>
      cases h
      exact hl.change fun b hb => hb.requeued
  | reset =>
      cases h
      exact hl.reset
  | force id first now =>
      simp only [JobCall.enter] at h
      split at h <;> cases h
      exact (hl.cancel id).wait (hclock now rfl) id first.onward
  | cancel id =>
      cases h
      exact hl.cancel id

theorem afterCalls {calls : List JobCall} (hl : l.Readable)
    (hclock : ∀ c ∈ calls, ∀ now, c.now? = some now → now.HasPlainYear) :
    (l.afterCalls calls).Readable := by
  induction calls generalizing l with
  | nil => exact hl
  | cons c rest ih =>
      refine ih ?_ fun c' hc' => hclock c' (List.mem_cons_of_mem c hc')
      dsimp only
      cases h : c.enter l with
      | ok l' => exact hl.enter (hclock c List.mem_cons_self) h
      | error e => exact hl

end Ledger.Readable

namespace Ledger.Describes

variable {l : Ledger} {s : Store}

theorem mem_pendingRows (h : l.Describes s) {id : String} {r : JobRow} :
    (r ∈ s.jobs.filter fun r => r.documentId = id && r.isPending) ↔
      ∃ t b, l.record? id t = some b ∧ b.status = .pending ∧ r = b.row id t := by
  have hpending : ∀ (b : JobRecord) i t, (b.row i t).isPending = true ↔ b.status = .pending :=
    fun b i t => decide_eq_true_iff.trans
      ⟨fun h => JobStatus.name_injective h, fun h => congrArg JobStatus.name h⟩
  simp only [List.mem_filter, Bool.and_eq_true, decide_eq_true_eq, h.mem_jobs]
  constructor
  · rintro ⟨⟨i, t, b, hb, rfl⟩, rfl, hp⟩
    exact ⟨t, b, hb, (hpending b i t).mp hp, rfl⟩
  · rintro ⟨t, b, hb, hp, rfl⟩
    exact ⟨⟨id, t, b, hb, rfl⟩, rfl, (hpending b id t).mpr hp⟩

/-- The jobs of a document that wait are read, in the order of their steps. -/
theorem pendingJobs (h : l.Describes s) (hread : l.Readable) (id : String) :
    ∃ jobs, s.pendingJobs id = .ok jobs ∧
      (jobs.map (·.step)).Pairwise (fun t u => t.position < u.position) ∧
      ∀ b, b ∈ jobs ↔ ∃ t r, l.record? id t = some r ∧ r.status = .pending ∧ b = r.job id t := by
  obtain ⟨jobs, hjobs⟩ : ∃ jobs, s.pendingJobs id = .ok jobs := by
    apply Store.readJobs_ok
    intro r hr
    obtain ⟨t, b, hb, -, rfl⟩ := h.mem_pendingRows.mp hr
    exact ⟨_, (hread id t b hb).read_row id t⟩
  refine ⟨jobs, hjobs, Store.pendingSteps_increasing h.keyed hjobs, fun b => ?_⟩
  rw [Store.mem_readJobs hjobs]
  constructor
  · rintro ⟨r, hr, hok⟩
    obtain ⟨t, b', hb', hp, rfl⟩ := h.mem_pendingRows.mp hr
    rw [(hread id t b' hb').read_row] at hok
    exact ⟨t, b', hb', hp, (Except.ok.inj hok).symm⟩
  · rintro ⟨t, b', hb', hp, rfl⟩
    exact ⟨b'.row id t, h.mem_pendingRows.mpr ⟨t, b', hb', hp, rfl⟩,
      (hread id t b' hb').read_row id t⟩

end Ledger.Describes

/-! The order of the documents that wait. -/

namespace Store

/-- A row of a document that waits. -/
def WaitingRow (s : Store) (id : String) (r : JobRow) : Prop :=
  r ∈ s.jobs ∧ r.documentId = id ∧ r.isPending = true

/-- The least of the times of the rows of a document that wait, as they are written. -/
def WaitsSince (s : Store) (id text : String) : Prop :=
  (∃ r, s.WaitingRow id r ∧ r.createdAt = text) ∧ ∀ r, s.WaitingRow id r → ¬ r.createdAt < text

/-- A document has waited longer than another, as the times are written, or equally long and
has the smaller id. -/
def ComesBefore (s : Store) (i j : String) : Prop :=
  ∃ t u, s.WaitsSince i t ∧ s.WaitsSince j u ∧ (t < u ∨ t = u ∧ i < j)

end Store

namespace Ledger

/-- A document waits for a step with some record. -/
def Waiting (l : Ledger) (id : String) (b : JobRecord) : Prop :=
  ∃ t, l.record? id t = some b ∧ b.status = .pending

/-- When the earliest of the records of a document that wait was created. -/
def WaitsSince (l : Ledger) (id : String) (u : Instant) : Prop :=
  (∃ b, l.Waiting id b ∧ b.createdAt = u) ∧ ∀ b, l.Waiting id b → ¬ b.createdAt.Before u

/-- A document has waited longer than another, or equally long and has the smaller id. -/
def ComesBefore (l : Ledger) (i j : String) : Prop :=
  ∃ u v, l.WaitsSince i u ∧ l.WaitsSince j v ∧ (u.Before v ∨ u = v ∧ i < j)

end Ledger

namespace Store

variable {s : Store} {i j k : String}

theorem leastText_spec {texts : List String} (hne : texts ≠ []) :
    ∃ t ∈ texts, leastText texts = some t ∧ ∀ u ∈ texts, ¬ u < t := by
  induction texts with
  | nil => exact absurd rfl hne
  | cons t rest ih =>
      by_cases hrest : rest = []
      · subst hrest
        refine ⟨t, List.mem_cons_self, rfl, fun u hu => ?_⟩
        rw [List.mem_singleton.mp hu]
        exact String.lt_irrefl t
      · obtain ⟨u, hu, hleast, hmin⟩ := ih hrest
        by_cases hlt : u < t
        · refine ⟨u, List.mem_cons_of_mem t hu, by simp [leastText, hleast, hlt], ?_⟩
          intro v hv
          rcases List.mem_cons.mp hv with rfl | hv
          · exact String.lt_asymm hlt
          · exact hmin v hv
        · refine ⟨t, List.mem_cons_self, by simp [leastText, hleast, hlt], ?_⟩
          intro v hv
          rcases List.mem_cons.mp hv with rfl | hv
          · exact String.lt_irrefl _
          · exact String.not_lt.mpr
              (String.le_trans (String.not_lt.mp hlt) (String.not_lt.mp (hmin v hv)))

theorem waitsBefore_iff : s.waitsBefore i j = true ↔
    (s.waitingSince i).getD "" < (s.waitingSince j).getD "" ∨
      (s.waitingSince i).getD "" = (s.waitingSince j).getD "" ∧ ¬ j < i := by
  unfold waitsBefore
  by_cases heq : (s.waitingSince i).getD "" = (s.waitingSince j).getD ""
  · simp only [heq, ↓reduceIte, String.lt_irrefl, false_or, true_and]
    simp
  · simp [heq]

theorem waitsBefore_trans (hij : s.waitsBefore i j = true) (hjk : s.waitsBefore j k = true) :
    s.waitsBefore i k = true := by
  rw [waitsBefore_iff] at *
  rcases hij with hij | ⟨hij, hji⟩
  · rcases hjk with hjk | ⟨hjk, -⟩
    · exact .inl (String.lt_trans hij hjk)
    · exact .inl (hjk ▸ hij)
  · rcases hjk with hjk | ⟨hjk, hkj⟩
    · exact .inl (hij ▸ hjk)
    · refine .inr ⟨hij.trans hjk, ?_⟩
      rw [String.not_lt] at *
      exact String.le_trans hji hkj

theorem waitsBefore_total (i j : String) :
    (s.waitsBefore i j || s.waitsBefore j i) = true := by
  rw [Bool.or_eq_true, waitsBefore_iff, waitsBefore_iff]
  by_cases hij : (s.waitingSince i).getD "" < (s.waitingSince j).getD ""
  · exact .inl (.inl hij)
  · by_cases hji : (s.waitingSince j).getD "" < (s.waitingSince i).getD ""
    · exact .inr (.inl hji)
    · have heq := String.le_antisymm (String.not_lt.mp hji) (String.not_lt.mp hij)
      by_cases hlt : j < i
      · exact .inr (.inr ⟨heq.symm, String.lt_asymm hlt⟩)
      · exact .inl (.inr ⟨heq, hlt⟩)

theorem mem_waitingDocuments : i ∈ s.waitingDocuments ↔ ∃ r, s.WaitingRow i r := by
  simp only [waitingDocuments, List.mem_eraseDups, List.mem_map, List.mem_filter]
  constructor
  · rintro ⟨r, ⟨hr, hp⟩, hid⟩
    exact ⟨r, hr, hid, hp⟩
  · rintro ⟨r, hr, hid, hp⟩
    exact ⟨r, ⟨hr, hp⟩, hid⟩

theorem waitsSince_of_row (hi : ∃ r, s.WaitingRow i r) :
    ∃ t, s.WaitsSince i t ∧ s.waitingSince i = some t := by
  have hmem : ∀ text, text ∈ (s.jobs.filter fun r =>
      r.documentId = i && r.isPending).map (·.createdAt) ↔
        ∃ r, s.WaitingRow i r ∧ r.createdAt = text := by
    simp [WaitingRow, and_assoc]
  obtain ⟨r, hr⟩ := hi
  obtain ⟨t, ht, hleast, hmin⟩ := leastText_spec (List.ne_nil_of_mem ((hmem _).mpr ⟨r, hr, rfl⟩))
  exact ⟨t, ⟨(hmem t).mp ht, fun r' hr' => hmin _ ((hmem _).mpr ⟨r', hr', rfl⟩)⟩, hleast⟩

theorem comesBefore_of_waitsBefore (hi : ∃ r, s.WaitingRow i r) (hj : ∃ r, s.WaitingRow j r)
    (hne : i ≠ j) (h : s.waitsBefore i j = true) : s.ComesBefore i j := by
  obtain ⟨t, ht, hisince⟩ := waitsSince_of_row hi
  obtain ⟨u, hu, hjsince⟩ := waitsSince_of_row hj
  rw [waitsBefore_iff, hisince, hjsince, Option.getD_some, Option.getD_some] at h
  refine ⟨t, u, ht, hu, h.imp_right fun hsame => ⟨hsame.1, ?_⟩⟩
  by_contra hij
  exact hne (String.le_antisymm (String.not_lt.mp hsame.2) (String.not_lt.mp hij))

/-- The documents with waiting rows, those that have waited longest first, each once. -/
theorem documentsPending_spec (s : Store) :
    ∃ ids : List String, ids.Nodup ∧ (∀ id, id ∈ ids ↔ ∃ r, s.WaitingRow id r) ∧
      ids.Pairwise s.ComesBefore ∧ ∀ n, s.documentsPending n = ids.take n := by
  let ids := s.waitingDocuments.mergeSort s.waitsBefore
  have hperm : ids.Perm s.waitingDocuments := Pool.documentsPending_perm s
  have hnodup : ids.Nodup := hperm.nodup_iff.mpr (Pool.nodup_eraseDups _)
  have hmem : ∀ id, id ∈ ids ↔ ∃ r, s.WaitingRow id r :=
    fun id => hperm.mem_iff.trans mem_waitingDocuments
  have htrans : ∀ i j k, s.waitsBefore i j = true → s.waitsBefore j k = true →
      s.waitsBefore i k = true := fun _ _ _ => waitsBefore_trans
  have hsorted : ids.Pairwise fun i j => s.waitsBefore i j = true :=
    List.pairwise_mergeSort htrans waitsBefore_total _
  refine ⟨ids, hnodup, hmem, ?_, fun _ => rfl⟩
  refine List.Pairwise.imp_of_mem ?_ (hsorted.and hnodup)
  rintro i j hi hj ⟨hbefore, hne⟩
  exact comesBefore_of_waitsBefore ((hmem i).mp hi) ((hmem j).mp hj) hne hbefore

end Store

namespace Ledger.Describes

variable {l : Ledger} {s : Store}

theorem waitingRow_iff (h : l.Describes s) {id : String} {r : JobRow} : s.WaitingRow id r ↔
    ∃ t b, l.record? id t = some b ∧ b.status = .pending ∧ r = b.row id t := by
  rw [← h.mem_pendingRows]
  simp [Store.WaitingRow]

theorem exists_waitingRow (h : l.Describes s) {id : String} :
    (∃ r, s.WaitingRow id r) ↔ ∃ b, l.Waiting id b := by
  simp only [h.waitingRow_iff]
  constructor
  · rintro ⟨-, t, b, hb, hp, rfl⟩
    exact ⟨b, t, hb, hp⟩
  · rintro ⟨b, t, hb, hp⟩
    exact ⟨_, t, b, hb, hp, rfl⟩

/-- A document that waits, waits since the time at which its earliest record was created. -/
theorem waitsSince (h : l.Describes s) (hread : l.Readable) {id text : String}
    (hsince : s.WaitsSince id text) :
    ∃ u, l.WaitsSince id u ∧ text = u.toMicrosText ∧ u.HasPlainYear ∧ u.truncate = u := by
  have hplain : ∀ b, l.Waiting id b → b.createdAt.HasPlainYear ∧
      b.createdAt.truncate = b.createdAt := by
    rintro b ⟨t, hb, -⟩
    exact hread id t b hb b.createdAt (.inl rfl)
  obtain ⟨⟨r, hr, rfl⟩, hmin⟩ := hsince
  obtain ⟨t, b, hb, hp, rfl⟩ := h.waitingRow_iff.mp hr
  have hwaiting : l.Waiting id b := ⟨t, hb, hp⟩
  refine ⟨b.createdAt, ⟨⟨b, hwaiting, rfl⟩, fun b' hb' hbefore => ?_⟩, rfl, hplain b hwaiting⟩
  obtain ⟨t', ht', hp'⟩ := hb'
  refine hmin (b'.row id t') (h.waitingRow_iff.mpr ⟨t', b', ht', hp', rfl⟩) ?_
  have hplain' := hplain b' ⟨t', ht', hp'⟩
  exact (Instant.toMicrosText_lt_iff hplain'.1 (hplain b hwaiting).1).mpr
    (by rwa [hplain'.2, (hplain b hwaiting).2])

theorem comesBefore (h : l.Describes s) (hread : l.Readable) {i j : String}
    (hbefore : s.ComesBefore i j) : l.ComesBefore i j := by
  obtain ⟨_, _, hi, hj, horder⟩ := hbefore
  obtain ⟨u, hu, rfl, huplain, hutrunc⟩ := h.waitsSince hread hi
  obtain ⟨v, hv, rfl, hvplain, hvtrunc⟩ := h.waitsSince hread hj
  refine ⟨u, v, hu, hv, ?_⟩
  rwa [Instant.toMicrosText_lt_iff huplain hvplain, Instant.toMicrosText_inj huplain hvplain,
    hutrunc, hvtrunc] at horder

/-- The documents that wait, those that have waited longest first, each once. -/
theorem documentsPending (h : l.Describes s) (hread : l.Readable) :
    ∃ ids : List String, ids.Nodup ∧ (∀ id, id ∈ ids ↔ ∃ b, l.Waiting id b) ∧
      ids.Pairwise l.ComesBefore ∧ ∀ n, s.documentsPending n = ids.take n := by
  obtain ⟨ids, hnodup, hmem, hsorted, htake⟩ := s.documentsPending_spec
  refine ⟨ids, hnodup, fun id => (hmem id).trans h.exists_waitingRow, ?_, htake⟩
  exact hsorted.imp (h.comesBefore hread)

end Ledger.Describes

/-- New rows of steps that have none stand behind all rows that are there. -/
theorem Store.jobsFor_putPending {s : Store} {id : String} {steps : List Step}
    (now : Instant) (hsteps : steps.Nodup)
    (hrows : ∀ r ∈ s.jobsFor id, ∀ t ∈ steps, r.isFor id t = false) :
    (s.putPending id steps now).jobsFor id =
      s.jobsFor id ++ steps.map fun t => .pending id t now := by
  induction steps generalizing s with
  | nil => simp [putPending]
  | cons t rest ih =>
      let put : Store :=
        { s with jobs := s.jobs.filter (!·.isFor id t) ++ [.pending id t now] }
      have hput : put.jobsFor id = s.jobsFor id ++ [.pending id t now] := by
        have hkept : (s.clearJob id t).jobsFor id = s.jobsFor id := by
          rw [jobsFor_clearJob, List.filter_eq_self]
          intro r hr
          simp [hrows r hr t List.mem_cons_self]
        have hnew : [JobRow.pending id t now].filter (fun r => decide (r.documentId = id)) =
            [.pending id t now] := by
          simp [JobRow.pending]
        rw [← hkept, ← hnew]
        exact List.filter_append _ _
      obtain ⟨hfresh, hrest⟩ := List.nodup_cons.mp hsteps
      have hclear : ∀ r ∈ put.jobsFor id, ∀ u ∈ rest, r.isFor id u = false := by
        intro r hr u hu
        rw [hput] at hr
        rcases List.mem_append.mp hr with hr | hr
        · exact hrows r hr u (List.mem_cons_of_mem t hu)
        · cases List.mem_singleton.mp hr
          refine Bool.eq_false_iff.mpr fun hfor => hfresh ?_
          rwa [Step.name_injective (JobRow.isFor_iff.mp hfor).2]
      have hstep : (s.putPending id (t :: rest) now).jobsFor id =
          put.jobsFor id ++ rest.map fun u => .pending id u now := ih hrest hclear
      rw [hstep, hput]
      simp

theorem Step.onward_nodup (t : Step) : t.onward.Nodup := by
  cases t <;> decide

/-- Forcing a document that is there leaves it with new rows of the steps onward from the
first and with no others; a document that is not there cannot be forced. -/
theorem Store.forceFrom_spec (s : Store) (id : String) (first : Step) (now : Instant) :
    (s.hasDocument id = true ∧ ∃ s', s.forceFrom id first now = .ok s' ∧
      s'.jobsFor id = first.onward.map fun t => .pending id t now) ∨
    s.hasDocument id = false ∧ s.forceFrom id first now = .error .brokenReference := by
  have hgone : (s.deleteJobs id).2.jobsFor id = [] := by
    simp [jobsFor, deleteJobs, List.filter_filter]
  unfold forceFrom
  cases s.hasDocument id with
  | true =>
      refine .inl ⟨rfl, _, rfl, ?_⟩
      rw [jobsFor_putPending now first.onward_nodup (by simp [hgone]), hgone, List.nil_append]
  | false => exact .inr ⟨rfl, rfl⟩

/-- After any calls the table of jobs is a map from documents and steps to records: the same
calls fail on both, no two rows are of one document and step, and every row is of a document
that is there.  Forcing leaves exactly the steps from one on.  While the clock shows years of
four digits, exactly the waiting jobs of a document are read, in the order of their steps,
and the documents that wait are listed by the time of their earliest record that waits and by
their ids. -/
theorem afterCalls_refines (calls : List JobCall) :
    let s := ({} : Store).afterCalls calls
    let l := ({} : Ledger).afterCalls calls
    s.Keyed ∧ (∀ r ∈ s.jobs, s.hasDocument r.documentId = true) ∧
      (∀ id, s.hasDocument id = l.known id) ∧
      (∀ r, r ∈ s.jobs ↔ ∃ id t b, l.record? id t = some b ∧ r = b.row id t) ∧
      (∀ (c : JobCall) (e : StoreError), c.perform s = .error e ↔ c.enter l = .error e) ∧
      (∀ id first now s', s.forceFrom id first now = .ok s' →
        s'.jobsFor id = first.onward.map fun t => .pending id t now) ∧
      ((∀ c ∈ calls, ∀ now, c.now? = some now → now.HasPlainYear) →
        (∀ id, ∃ jobs, s.pendingJobs id = .ok jobs ∧
          (jobs.map (·.step)).Pairwise (fun t u => t.position < u.position) ∧
          ∀ b, b ∈ jobs ↔
            ∃ t r, l.record? id t = some r ∧ r.status = .pending ∧ b = r.job id t) ∧
        ∃ ids : List String, ids.Nodup ∧ (∀ id, id ∈ ids ↔ ∃ b, l.Waiting id b) ∧
          ids.Pairwise l.ComesBefore ∧ ∀ n, s.documentsPending n = ids.take n) := by
  have hempty : ({} : Ledger).Describes {} := ⟨fun _ => rfl, fun _ _ => rfl, by simp [Store.Named],
    fun _ _ h => by cases h⟩
  intro s l
  have h : l.Describes s := hempty.afterCalls calls
  refine ⟨h.keyed, fun r hr => h.hasDocument hr, h.known, fun r => h.mem_jobs, fun c e => ?_, ?_,
    fun hclock => ?_⟩
  · rcases h.perform c with ⟨s', l', hs, hl, -⟩ | ⟨e', hs, hl⟩
    · simp [hs, hl]
    · simp [hs, hl]
  · intro id first now s' hforce
    rcases s.forceFrom_spec id first now with ⟨-, s'', hok, hrows⟩ | ⟨-, herror⟩
    · cases hok.symm.trans hforce
      exact hrows
    · cases herror.symm.trans hforce
  · have hread : l.Readable := Ledger.Readable.afterCalls (fun _ _ _ h => by cases h) hclock
    exact ⟨h.pendingJobs hread, h.documentsPending hread⟩

/-- A document is stored and then waits for every step. -/
def queuedOnce : List JobCall := [.insert .stray, .queue "d" default]

/-- Its first step is read among the jobs that wait. -/
theorem afterCalls_refines_queued :
    (∀ c ∈ queuedOnce, ∀ now, c.now? = some now → now.HasPlainYear) ∧
    ∃ jobs, (({} : Store).afterCalls queuedOnce).pendingJobs "d" = .ok jobs ∧
      (JobRecord.pending default).job "d" .hash ∈ jobs := by
  have hclock : ∀ c ∈ queuedOnce, ∀ now, c.now? = some now → now.HasPlainYear := by
    intro c hc now hnow
    simp only [queuedOnce, List.mem_cons, List.not_mem_nil, or_false] at hc
    rcases hc with rfl | rfl
    · cases hnow
    · cases hnow
      decide
  obtain ⟨-, -, -, -, -, -, hasked⟩ := afterCalls_refines queuedOnce
  obtain ⟨jobs, hjobs, -, hmem⟩ := (hasked hclock).1 "d"
  exact ⟨hclock, jobs, hjobs, (hmem _).mpr ⟨.hash, .pending default, rfl, rfl, rfl⟩⟩

end Docket
