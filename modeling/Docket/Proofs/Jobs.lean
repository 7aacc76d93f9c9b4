import Mathlib.Data.List.Forall2
import Mathlib.Data.List.Perm.Basic
import Mathlib.Data.List.Nodup
import Mathlib.Data.List.Sort
import Docket.Store.Jobs

/-!
The rows of a document among the jobs, what each call makes of them, and in what
order the waiting ones are read.
-/

namespace Docket

theorem Step.name_injective {t u : Step} (h : t.name = u.name) : t = u := by
  cases t <;> cases u <;> first | rfl | exact absurd h (by decide)

theorem Step.position_injective {t u : Step} (h : t.position = u.position) : t = u := by
  cases t <;> cases u <;> first | rfl | exact absurd h (by decide)

theorem Step.ofName?_eq_some {name : String} {t : Step} :
    ofName? name = some t ↔ t.name = name := by
  constructor
  · intro h
    simpa using List.find?_some h
  · rintro rfl
    cases t <;> decide

/-- The steps from a step onward are those that do not come before it. -/
theorem Step.mem_onward {t u : Step} : t ∈ u.onward ↔ u.position ≤ t.position := by
  cases t <;> cases u <;> decide

theorem JobStatus.name_injective {a b : JobStatus} (h : a.name = b.name) : a = b := by
  cases a <;> cases b <;> first | rfl | exact absurd h (by decide)

/-- What is read after something else was read, the other was read before it. -/
theorem exists_of_bind_ok {ε α β : Type} {x : Except ε α} {f : α → Except ε β} {b : β}
    (h : (x >>= f) = .ok b) : ∃ a, x = .ok a ∧ f a = .ok b := by
  cases x with
  | error e => cases h
  | ok a => exact ⟨a, rfl, h⟩

namespace JobRow

theorem isFor_iff {r : JobRow} {id : String} {t : Step} :
    r.isFor id t = true ↔ r.documentId = id ∧ r.step = t.name := by
  simp [isFor]

/-- A row is that of one step at most. -/
theorem step_unique {r : JobRow} {id id' : String} {t u : Step}
    (ht : r.isFor id t = true) (hu : r.isFor id' u = true) : t = u := by
  apply Step.name_injective
  rw [← (isFor_iff.mp ht).2, ← (isFor_iff.mp hu).2]

theorem isFor_unique {r : JobRow} {i id : String} {t u : Step}
    (ht : r.isFor id t = true) (hu : r.isFor i u = true) : i = id ∧ u = t :=
  ⟨(isFor_iff.mp hu).1.symm.trans (isFor_iff.mp ht).1, step_unique hu ht⟩

/-- A change of a row that leaves document and step as they are. -/
def KeepsKey (f : JobRow → JobRow) : Prop :=
  ∀ r, (f r).documentId = r.documentId ∧ (f r).step = r.step

theorem KeepsKey.isFor {f : JobRow → JobRow} (hf : KeepsKey f) (r : JobRow)
    (id : String) (t : Step) : (f r).isFor id t = r.isFor id t := by
  simp only [JobRow.isFor, hf r]

/-- Change the row of a step among rows. -/
def changeAt (id : String) (t : Step) (f : JobRow → JobRow) (rows : List JobRow) :
    List JobRow :=
  rows.map fun r => if r.isFor id t then f r else r

section

variable {f g : JobRow → JobRow} {id : String} {t u : Step}

theorem changeAt_changeAt (hf : KeepsKey f) (rows : List JobRow) :
    changeAt id t g (changeAt id t f rows) = changeAt id t (fun r => g (f r)) rows := by
  simp only [changeAt, List.map_map]
  apply List.map_congr_left
  intro r _
  cases hr : r.isFor id t with
  | true => simp [hr, hf.isFor]
  | false => simp [hr]

theorem filter_changeAt (hf : KeepsKey f) (rows : List JobRow) :
    (changeAt id t f rows).filter (·.isFor id t) =
      (rows.filter (·.isFor id t)).map f := by
  induction rows with
  | nil => rfl
  | cons r rest ih =>
      cases hr : r.isFor id t with
      | true => simpa [changeAt, hr, hf.isFor] using ih
      | false => simpa [changeAt, hr] using ih

/-- What is asked of rows of other steps does not see a change. -/
theorem filter_changeAt_of_not {p : JobRow → Bool} (hf : KeepsKey f)
    (hp : ∀ r, r.isFor id t → p r = false) (rows : List JobRow) :
    (changeAt id t f rows).filter p = rows.filter p := by
  induction rows with
  | nil => rfl
  | cons r rest ih =>
      cases hr : r.isFor id t with
      | true =>
          have hfr : p (f r) = false := hp (f r) (by rw [hf.isFor, hr])
          simpa [changeAt, hr, hfr, hp r hr] using ih
      | false =>
          simp only [changeAt, List.map_cons, hr, Bool.false_eq_true, ↓reduceIte,
            List.filter_cons]
          rw [← changeAt, ih]

theorem filter_changeAt_of_ne (hf : KeepsKey f) (hne : t ≠ u) (rows : List JobRow) :
    (changeAt id u f rows).filter (·.isFor id t) = rows.filter (·.isFor id t) := by
  apply filter_changeAt_of_not hf
  intro r hu
  cases ht : r.isFor id t with
  | true => exact absurd (step_unique ht hu) hne
  | false => rfl

end

theorem step_of_read {r : JobRow} {b : Job} (h : r.read = .ok b) :
    b.step.name = r.step := by
  obtain ⟨t, hread, h⟩ := exists_of_bind_ok h
  obtain ⟨_, -, h⟩ := exists_of_bind_ok h
  obtain ⟨_, -, h⟩ := exists_of_bind_ok h
  obtain ⟨_, -, h⟩ := exists_of_bind_ok h
  obtain ⟨_, -, h⟩ := exists_of_bind_ok h
  cases h
  cases hstep : Step.ofName? r.step with
  | none =>
      rw [readNamed, hstep] at hread
      cases hread
  | some u =>
      rw [readNamed, hstep] at hread
      cases hread
      exact Step.ofName?_eq_some.mp hstep

end JobRow

namespace Store

variable {s : Store} {id : String} {t : Step}

/-- The rows of a document. -/
def jobsFor (s : Store) (id : String) : List JobRow := s.jobs.filter (·.documentId = id)

/-- The row of a document and a step; at most one if rows are keyed. -/
def rowsOf (s : Store) (id : String) (t : Step) : List JobRow :=
  (s.jobsFor id).filter (·.isFor id t)

/-- No two rows are of one document and one step. -/
def Keyed (s : Store) : Prop :=
  s.jobs.Pairwise fun a b => ¬ (a.documentId = b.documentId ∧ a.step = b.step)

instance : Decidable s.Keyed :=
  inferInstanceAs (Decidable (s.jobs.Pairwise fun a b =>
    ¬ (a.documentId = b.documentId ∧ a.step = b.step)))

theorem mem_jobsFor {r : JobRow} :
    r ∈ s.jobsFor id ↔ r ∈ s.jobs ∧ r.documentId = id := by
  simp [jobsFor]

theorem Keyed.nodup_steps (hkeyed : s.Keyed) (id : String) :
    ((s.jobsFor id).map (·.step)).Nodup := by
  refine List.pairwise_map.mpr ?_
  refine List.Pairwise.imp_of_mem ?_ (hkeyed.sublist List.filter_sublist)
  intro a b ha hb hne hstep
  exact hne ⟨(mem_jobsFor.mp ha).2.trans (mem_jobsFor.mp hb).2.symm, hstep⟩

/-- A change of one row of a document leaves the rows of others alone. -/
theorem jobsFor_changeJob_of_ne {other : String} (hne : other ≠ id)
    {f : JobRow → JobRow} (hf : JobRow.KeepsKey f) :
    (s.changeJob id t f).jobsFor other = s.jobsFor other := by
  simp only [jobsFor, changeJob, List.filter_map]
  have hsame : ((fun r : JobRow => decide (r.documentId = other)) ∘
      fun r => if r.isFor id t then f r else r) = fun r => decide (r.documentId = other) := by
    funext r
    simp only [Function.comp]
    split
    · rw [(hf r).1]
    · rfl
  rw [hsame]
  refine (List.map_congr_left fun r hr => ?_).trans (List.map_id _)
  have hr : r.documentId = other := by simpa using (List.mem_filter.mp hr).2
  rw [if_neg]
  · rfl
  · intro hfor
    exact hne (hr ▸ (JobRow.isFor_iff.mp hfor).1)

theorem jobsFor_changeJob {f : JobRow → JobRow} (hf : JobRow.KeepsKey f) :
    (s.changeJob id t f).jobsFor id = JobRow.changeAt id t f (s.jobsFor id) := by
  simp only [jobsFor, changeJob, JobRow.changeAt, List.filter_map]
  congr 1
  apply List.filter_congr
  intro r _
  simp only [Function.comp]
  split
  · rw [(hf r).1]
  · rfl

theorem jobsFor_clearJob_of_ne {other : String} (hne : other ≠ id) :
    (s.clearJob id t).jobsFor other = s.jobsFor other := by
  simp only [jobsFor, clearJob, List.filter_filter]
  apply List.filter_congr
  intro r _
  by_cases hr : r.documentId = other
  · have hfor : r.isFor id t = false := by simp [JobRow.isFor, hr, hne]
    simp [hfor]
  · simp [hr]

theorem jobsFor_clearJob :
    (s.clearJob id t).jobsFor id = (s.jobsFor id).filter (!·.isFor id t) := by
  simp only [jobsFor, clearJob, List.filter_filter]
  apply List.filter_congr
  intro r _
  exact Bool.and_comm _ _

theorem rowsOf_changeJob {f : JobRow → JobRow} (hf : JobRow.KeepsKey f) :
    (s.changeJob id t f).rowsOf id t = (s.rowsOf id t).map f := by
  rw [rowsOf, jobsFor_changeJob hf, JobRow.filter_changeAt hf, rowsOf]

theorem rowsOf_changeJob_of_ne {u : Step} (hne : t ≠ u) {f : JobRow → JobRow}
    (hf : JobRow.KeepsKey f) : (s.changeJob id u f).rowsOf id t = s.rowsOf id t := by
  rw [rowsOf, jobsFor_changeJob hf, JobRow.filter_changeAt_of_ne hf hne, rowsOf]

/-- A change makes no row and takes none away. -/
theorem rowsOf_changeJob_eq_nil {i : String} {u : Step} {f : JobRow → JobRow}
    (hf : JobRow.KeepsKey f) :
    (s.changeJob i u f).rowsOf id t = [] ↔ s.rowsOf id t = [] := by
  by_cases hi : id = i
  · subst hi
    by_cases ht : t = u
    · subst ht
      rw [rowsOf_changeJob hf, List.map_eq_nil_iff]
    · rw [rowsOf_changeJob_of_ne ht hf]
  · rw [rowsOf, jobsFor_changeJob_of_ne hi hf, rowsOf]

theorem rowsOf_clearJob : (s.clearJob id t).rowsOf id t = [] := by
  rw [rowsOf, jobsFor_clearJob, List.filter_filter]
  apply List.filter_eq_nil_iff.mpr
  intro r _
  cases r.isFor id t <;> simp

theorem rowsOf_clearJob_of_ne {u : Step} (hne : t ≠ u) :
    (s.clearJob id u).rowsOf id t = s.rowsOf id t := by
  rw [rowsOf, jobsFor_clearJob, List.filter_filter]
  apply List.filter_congr
  intro r _
  cases ht : r.isFor id t with
  | false => rfl
  | true =>
      cases hu : r.isFor id u with
      | false => rfl
      | true => exact absurd (JobRow.step_unique ht hu) hne

/-- Letting a document wait for steps makes rows of these steps and takes none away. -/
theorem rowsOf_putPending (steps : List Step) (now : Calendar.Instant) :
    (s.putPending id steps now).rowsOf id t = [] ↔ t ∉ steps ∧ s.rowsOf id t = [] := by
  induction steps generalizing s with
  | nil => simp [putPending]
  | cons u rest ih =>
      let put : Store :=
        { s with jobs := s.jobs.filter (!·.isFor id u) ++ [.pending id u now] }
      have hput : put.rowsOf id t = (s.clearJob id u).rowsOf id t ++
          [JobRow.pending id u now].filter (·.isFor id t) := by
        simp [put, rowsOf, jobsFor, clearJob, JobRow.pending]
      have hnew : (JobRow.pending id u now).isFor id t = decide (t = u) := by
        rw [Bool.eq_iff_iff, JobRow.isFor_iff, decide_eq_true_iff]
        constructor
        · rintro ⟨-, hname⟩
          exact (Step.name_injective hname).symm
        · rintro rfl
          exact ⟨rfl, rfl⟩
      have hstep : (s.putPending id (u :: rest) now).rowsOf id t = [] ↔
          t ∉ rest ∧ put.rowsOf id t = [] := ih
      rw [hstep, hput]
      by_cases hu : t = u
      · subst hu
        simp [hnew]
      · rw [rowsOf_clearJob_of_ne hu]
        simp [hnew, hu]

theorem rowsOf_deleteJobs : (s.deleteJobs id).2.rowsOf id t = [] := by
  have hgone : (s.deleteJobs id).2.jobsFor id = [] := by
    rw [jobsFor, deleteJobs, List.filter_filter]
    apply List.filter_eq_nil_iff.mpr
    intro r _
    simp
  rw [rowsOf, hgone, List.filter_nil]

/-- After forcing, a document has rows of the steps onward from the first, and no
others. -/
theorem rowsOf_forceDocument {s' : Store} {first : Step} {now : Calendar.Instant}
    (h : s.forceDocument id first now = .ok s') :
    s'.rowsOf id t = [] ↔ t ∉ first.onward := by
  obtain ⟨found, -, h⟩ := exists_of_bind_ok h
  cases found with
  | none => cases h
  | some d =>
      obtain ⟨_, -, h⟩ := exists_of_bind_ok h
      cases h
      rw [rowsOf_putPending, and_iff_left rowsOf_deleteJobs]

/-! The rows of any document and step after each change. -/

section

variable {i : String} {u : Step}

theorem rowsOf_eq_filter (s : Store) (id : String) (t : Step) :
    s.rowsOf id t = s.jobs.filter (·.isFor id t) := by
  rw [rowsOf, jobsFor, List.filter_filter]
  apply List.filter_congr
  intro r _
  cases hfor : r.isFor id t with
  | true => simp [(JobRow.isFor_iff.mp hfor).1]
  | false => rfl

theorem mem_rowsOf {r : JobRow} : r ∈ s.rowsOf id t ↔ r ∈ s.jobs ∧ r.isFor id t = true := by
  rw [rowsOf_eq_filter, List.mem_filter]

theorem rowsOf_changeJob_eq {f : JobRow → JobRow} (hf : JobRow.KeepsKey f) :
    (s.changeJob id t f).rowsOf i u =
      if i = id ∧ u = t then (s.rowsOf i u).map f else s.rowsOf i u := by
  by_cases hi : i = id
  · subst hi
    by_cases hu : u = t
    · subst hu
      simpa using rowsOf_changeJob hf
    · simpa [hu] using rowsOf_changeJob_of_ne hu hf
  · simp [hi, rowsOf, jobsFor_changeJob_of_ne hi hf]

theorem rowsOf_clearJob_eq :
    (s.clearJob id t).rowsOf i u = if i = id ∧ u = t then [] else s.rowsOf i u := by
  by_cases hi : i = id
  · subst hi
    by_cases hu : u = t
    · subst hu
      simpa using rowsOf_clearJob
    · simpa [hu] using rowsOf_clearJob_of_ne hu
  · simp [hi, rowsOf, jobsFor_clearJob_of_ne hi]

theorem rowsOf_putPending_eq (steps : List Step) (now : Calendar.Instant) :
    (s.putPending id steps now).rowsOf i u =
      if i = id ∧ u ∈ steps then [.pending i u now] else s.rowsOf i u := by
  induction steps generalizing s with
  | nil => simp [putPending]
  | cons t rest ih =>
      let put : Store :=
        { s with jobs := s.jobs.filter (!·.isFor id t) ++ [.pending id t now] }
      have hput : put.rowsOf i u = (s.clearJob id t).rowsOf i u ++
          [JobRow.pending id t now].filter (·.isFor i u) := by
        rw [rowsOf_eq_filter, rowsOf_eq_filter]
        exact List.filter_append _ _
      have hself : (JobRow.pending id t now).isFor id t = true := JobRow.isFor_iff.mpr ⟨rfl, rfl⟩
      have hone : put.rowsOf i u =
          if i = id ∧ u = t then [.pending i u now] else s.rowsOf i u := by
        rw [hput, rowsOf_clearJob_eq]
        split
        · next h =>
            obtain ⟨rfl, rfl⟩ := h
            simp [hself]
        · next h =>
            have hother : ¬ (JobRow.pending id t now).isFor i u = true :=
              fun hfor => h (JobRow.isFor_unique hself hfor)
            simp [hother]
      have hstep : (s.putPending id (t :: rest) now).rowsOf i u =
          if i = id ∧ u ∈ rest then [.pending i u now] else put.rowsOf i u := ih
      rw [hstep, hone]
      by_cases hi : i = id
      · by_cases hu : u = t <;> simp [hi, hu]
      · simp [hi]

theorem rowsOf_deleteJobs_eq :
    (s.deleteJobs id).2.rowsOf i u = if i = id then [] else s.rowsOf i u := by
  by_cases hi : i = id
  · subst hi
    simpa using rowsOf_deleteJobs
  · rw [if_neg hi, rowsOf_eq_filter, rowsOf_eq_filter, deleteJobs, List.filter_filter]
    apply List.filter_congr
    intro r _
    cases hfor : r.isFor i u with
    | true => simp [(JobRow.isFor_iff.mp hfor).1, hi]
    | false => rfl

end

/-! Reading. -/

theorem forall₂_of_mapM {ε α β : Type} {f : α → Except ε β} :
    ∀ {as : List α} {bs : List β}, as.mapM f = .ok bs →
      List.Forall₂ (fun a b => f a = .ok b) as bs := by
  intro as
  induction as with
  | nil =>
      rintro bs ⟨⟩
      exact .nil
  | cons a rest ih =>
      intro bs h
      rw [List.mapM_cons] at h
      obtain ⟨b, hb, h⟩ := exists_of_bind_ok h
      obtain ⟨later, hlater, h⟩ := exists_of_bind_ok h
      cases h
      exact .cons hb (ih hlater)

theorem steps_of_mapM_read {rows : List JobRow} {jobs : List Job}
    (h : rows.mapM JobRow.read = .ok jobs) :
    jobs.map (·.step.name) = rows.map (·.step) := by
  have hall := forall₂_of_mapM h
  clear h
  induction hall with
  | nil => rfl
  | cons hr _ ih => simp only [List.map_cons, JobRow.step_of_read hr, ih]

/-- Reading keeps the steps of the rows, and puts them in order. -/
theorem readJobs_spec {rows : List JobRow} {jobs : List Job}
    (h : readJobs rows = .ok jobs) :
    (jobs.map (·.step.name)).Perm (rows.map (·.step)) ∧
      jobs.Pairwise fun a b => a.step.position ≤ b.step.position := by
  obtain ⟨unsorted, hread, h⟩ := exists_of_bind_ok h
  cases h
  constructor
  · refine ((List.mergeSort_perm _ _).map _).trans ?_
    rw [steps_of_mapM_read hread]
    exact (List.mergeSort_perm _ _).map _
  · let le (a b : Job) : Bool := decide (a.step.position ≤ b.step.position)
    have hsorted : (unsorted.mergeSort le).Pairwise fun a b => le a b = true := by
      apply List.pairwise_mergeSort
      · intro a b c hab hbc
        simp only [le, decide_eq_true_eq] at *
        omega
      · intro a b
        simp only [le, Bool.or_eq_true, decide_eq_true_eq]
        omega
    exact hsorted.imp (by simp [le])

/-- Rows that are in order already, both by the names of their steps and by their steps,
are read one after the other. -/
theorem readJobs_of_sorted {rows : List JobRow} {jobs : List Job}
    (hrows : rows.Pairwise fun a b => !(b.step < a.step))
    (hread : rows.mapM JobRow.read = .ok jobs)
    (hjobs : jobs.Pairwise fun a b => a.step.position ≤ b.step.position) :
    readJobs rows = .ok jobs := by
  have hnames : rows.mergeSort (fun a b => !(b.step < a.step)) = rows :=
    List.mergeSort_of_pairwise hrows
  have hsteps : jobs.mergeSort (fun a b => a.step.position ≤ b.step.position) = jobs :=
    List.mergeSort_of_pairwise (hjobs.imp (by simp))
  rw [readJobs, hnames, hread]
  exact congrArg Except.ok hsteps

/-- Rows each of which can be read are read. -/
theorem readJobs_ok {rows : List JobRow} (h : ∀ r ∈ rows, ∃ b, r.read = .ok b) :
    ∃ jobs, readJobs rows = .ok jobs := by
  have hread : ∀ sorted : List JobRow, (∀ r ∈ sorted, ∃ b, r.read = .ok b) →
      ∃ jobs, sorted.mapM JobRow.read = .ok jobs := by
    intro sorted
    induction sorted with
    | nil => exact fun _ => ⟨[], rfl⟩
    | cons r rest ih =>
        intro hsorted
        obtain ⟨b, hb⟩ := hsorted r List.mem_cons_self
        obtain ⟨jobs, hjobs⟩ := ih fun u hu => hsorted u (List.mem_cons_of_mem r hu)
        refine ⟨b :: jobs, ?_⟩
        rw [List.mapM_cons, hb, hjobs]
        rfl
  obtain ⟨jobs, hjobs⟩ := hread (rows.mergeSort fun a b => !(b.step < a.step))
    fun r hr => h r ((List.mergeSort_perm _ _).mem_iff.mp hr)
  refine ⟨jobs.mergeSort fun a b => a.step.position ≤ b.step.position, ?_⟩
  rw [readJobs, hjobs]
  rfl

theorem readJobs_nil : readJobs [] = .ok [] := readJobs_of_sorted .nil rfl .nil

theorem pendingRows_eq (s : Store) (id : String) :
    (s.jobs.filter fun r => r.documentId = id && r.isPending) =
      (s.jobsFor id).filter (·.isPending) := by
  rw [jobsFor, List.filter_filter]
  exact List.filter_congr fun r _ => Bool.and_comm _ _

theorem mem_pendingSteps {jobs : List Job} (h : s.pendingJobs id = .ok jobs) :
    t ∈ jobs.map (·.step) ↔ ∃ r ∈ s.jobsFor id, r.isPending ∧ r.isFor id t := by
  have hperm := (readJobs_spec h).1
  have hname : t ∈ jobs.map (·.step) ↔ t.name ∈ jobs.map (·.step.name) := by
    simp only [List.mem_map]
    constructor
    · rintro ⟨b, hb, rfl⟩
      exact ⟨b, hb, rfl⟩
    · rintro ⟨b, hb, heq⟩
      exact ⟨b, hb, Step.name_injective heq⟩
  rw [hname, hperm.mem_iff, pendingRows_eq]
  simp only [List.mem_map, List.mem_filter, mem_jobsFor, JobRow.isFor_iff]
  constructor
  · rintro ⟨r, ⟨⟨hr, hid⟩, hpending⟩, hstep⟩
    exact ⟨r, ⟨hr, hid⟩, hpending, hid, hstep⟩
  · rintro ⟨r, hr, hpending, -, hstep⟩
    exact ⟨r, ⟨hr, hpending⟩, hstep⟩

/-- The waiting steps of a document are read in the order in which they run, each
once. -/
theorem pendingSteps_increasing {jobs : List Job} (hkeyed : s.Keyed)
    (h : s.pendingJobs id = .ok jobs) :
    (jobs.map (·.step)).Pairwise fun t u => t.position < u.position := by
  obtain ⟨hperm, hsorted⟩ := readJobs_spec h
  rw [pendingRows_eq] at hperm
  have hnodup : (jobs.map (·.step.name)).Nodup :=
    hperm.nodup_iff.mpr ((hkeyed.nodup_steps id).sublist (List.filter_sublist.map _))
  refine List.pairwise_map.mpr ?_
  refine (hsorted.and (List.pairwise_map.mp hnodup)).imp ?_
  rintro a b ⟨hle, hne⟩
  refine Nat.lt_of_le_of_ne hle fun heq => hne ?_
  rw [Step.position_injective heq]

/-- Only these steps wait, if they are given in the order in which they run. -/
theorem pendingSteps_eq {jobs : List Job} {steps : List Step} (hkeyed : s.Keyed)
    (h : s.pendingJobs id = .ok jobs)
    (hsteps : steps.Pairwise fun t u => t.position < u.position)
    (hmem : ∀ t, t ∈ steps ↔ ∃ r ∈ s.jobsFor id, r.isPending ∧ r.isFor id t) :
    jobs.map (·.step) = steps := by
  have : Std.Antisymm fun t u : Step => t.position < u.position :=
    ⟨fun t u htu hut => absurd hut (Nat.lt_asymm htu)⟩
  have : Std.Irrefl fun t u : Step => t.position < u.position :=
    ⟨fun t => Nat.lt_irrefl _⟩
  apply (pendingSteps_increasing hkeyed h).eq_of_mem_iff hsteps
  intro t
  rw [mem_pendingSteps h, hmem]

/-- A row of a document waits exactly if its step is read as one that waits. -/
theorem isPending_iff {jobs : List Job} (hkeyed : s.Keyed)
    (h : s.pendingJobs id = .ok jobs) {r : JobRow} (hr : r ∈ s.jobsFor id) :
    r.isPending = true ↔ ∃ t ∈ jobs.map (·.step), r.isFor id t = true := by
  constructor
  · intro hpending
    have hperm := (readJobs_spec h).1
    rw [pendingRows_eq] at hperm
    have hstep : r.step ∈ jobs.map (·.step.name) :=
      hperm.mem_iff.mpr (List.mem_map_of_mem (List.mem_filter.mpr ⟨hr, hpending⟩))
    obtain ⟨b, hb, hname⟩ := List.mem_map.mp hstep
    exact ⟨b.step, List.mem_map_of_mem hb,
      JobRow.isFor_iff.mpr ⟨(mem_jobsFor.mp hr).2, hname.symm⟩⟩
  · rintro ⟨t, ht, hfor⟩
    obtain ⟨r', hr', hpending, hfor'⟩ := (mem_pendingSteps h).mp ht
    have hstep : r.step = r'.step :=
      (JobRow.isFor_iff.mp hfor).2.trans (JobRow.isFor_iff.mp hfor').2.symm
    rw [List.inj_on_of_nodup_map (hkeyed.nodup_steps id) hr hr' hstep]
    exact hpending

/-- What is left when the rows of all waiting steps are gone does not wait. -/
theorem filter_not_pendingSteps {jobs : List Job} (hkeyed : s.Keyed)
    (h : s.pendingJobs id = .ok jobs) :
    ((s.jobsFor id).filter fun r => (jobs.map (·.step)).all (!r.isFor id ·)) =
      (s.jobsFor id).filter (!·.isPending) := by
  apply List.filter_congr
  intro r hr
  rw [Bool.eq_iff_iff]
  simp only [List.all_eq_true, Bool.not_eq_true', ← Bool.not_eq_true,
    isPending_iff hkeyed h hr, not_exists, not_and]

theorem pendingJobs_congr {s' : Store} (h : s.jobsFor id = s'.jobsFor id) :
    s.pendingJobs id = s'.pendingJobs id := by
  rw [pendingJobs, pendingRows_eq, h, ← pendingRows_eq, pendingJobs]

end Store

end Docket
