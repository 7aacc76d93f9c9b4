import Docket.Proofs.Recovery

/-!
At which stage the steps of a document are.  Every call that is heeded and bears on the rows
of the document is an event, and so is what others make of them; the events since some past
decide for each step whether it has a row, and what the row says of it.
-/

namespace Docket

/-- What bears on the rows of a document. -/
inductive JobEvent where
  /-- Others have made new rows of a step and all behind it. -/
  | made (first : Step)
  /-- The row of a step, if there is one, got a status. -/
  | marked (t : Step) (status : JobStatus)
  /-- The row of a step was deleted. -/
  | cleared (t : Step)
  /-- All rows were deleted. -/
  | cancelled
  /-- The running steps were let wait again. -/
  | reset
deriving DecidableEq, Repr

/-- The status of the row of a step after some events, the last of which comes first; `none`
if there is no row. -/
def stage (t : Step) (outset : Option JobStatus) : List JobEvent → Option JobStatus
  | [] => outset
  | .made first :: _ => if t ∈ first.onward then some .pending else none
  | .marked u status :: earlier =>
    if u = t then (stage t outset earlier).map fun _ => status else stage t outset earlier
  | .cleared u :: earlier => if u = t then none else stage t outset earlier
  | .cancelled :: _ => none
  | .reset :: earlier =>
    (stage t outset earlier).map fun status => if status = .running then .pending else status

theorem stage_append (t : Step) (outset : Option JobStatus) (later earlier : List JobEvent) :
    stage t outset (later ++ earlier) = stage t (stage t outset earlier) later := by
  induction later with
  | nil => rfl
  | cons e rest ih => cases e <;> simp only [List.cons_append, stage, ih]

/-- The row of a step is at a stage, and there is no second one. -/
def Store.Stands (s : Store) (id : String) (t : Step) : Option JobStatus → Prop
  | none => s.rowsOf id t = []
  | some status => ∃ r, s.rowsOf id t = [r] ∧ r.status = status.name

/-- What others have made of a store if they call nothing that changes the rows of a document
except to force it or to let it wait for every step; the first steps of the rows that they
have made, the last call first. -/
inductive Store.Feeds (id : String) : List Step → Store → Store → Prop
  | none {st : Store} : Feeds id [] st st
  | spare {firsts : List Step} {st st₁ st₂ : Store} (h : Feeds id firsts st st₁)
      (hjobs : st₂.jobsFor id = st₁.jobsFor id) : Feeds id firsts st st₂
  | force {firsts : List Step} {first : Step} {now : Calendar.Instant} {st st₁ st₂ : Store}
      (h : Feeds id firsts st st₁) (hforce : st₁.forceDocument id first now = .ok st₂) :
      Feeds id (first :: firsts) st st₂
  | queue {firsts : List Step} {now : Calendar.Instant} {st st₁ st₂ : Store}
      (h : Feeds id firsts st st₁) (hqueue : st₁.queueDocument id now = .ok st₂) :
      Feeds id (.hash :: firsts) st st₂

namespace Store

variable {s s' : Store} {id i : String} {t u : Step} {outset : Option JobStatus}
  {status : JobStatus} {now : Calendar.Instant}

theorem stands_congr (h : s.rowsOf id t = s'.rowsOf id t) :
    s.Stands id t outset ↔ s'.Stands id t outset := by
  cases outset <;> rw [Stands, h, Stands]

/-- A step can be recovered exactly if its row waits or is running. -/
theorem Stands.recoverable_iff (h : s.Stands id t outset) :
    s.Recoverable id t ↔ outset = some .pending ∨ outset = some .running := by
  cases outset with
  | none =>
      have h : s.rowsOf id t = [] := h
      simp [Recoverable, h]
  | some status =>
      obtain ⟨r, hr, hname⟩ := h
      simp only [Recoverable, hr, List.mem_singleton, exists_eq_left, JobRow.isPending, hname,
        decide_eq_true_eq]
      cases status <;> decide

/-- A step waits exactly if its row does. -/
theorem Stands.waits_iff (h : s.Stands id t outset) :
    s.Waits id t ↔ outset = some .pending := by
  cases outset with
  | none =>
      have h : s.rowsOf id t = [] := h
      simp [Waits, h]
  | some status =>
      obtain ⟨r, hr, hname⟩ := h
      simp only [Waits, hr, List.mem_singleton, exists_eq_left, JobRow.isPending, hname,
        decide_eq_true_eq]
      cases status <;> decide

theorem Stands.length_le (h : s.Stands id t outset) : (s.rowsOf id t).length ≤ 1 := by
  cases outset with
  | none =>
      have h : s.rowsOf id t = [] := h
      simp [h]
  | some status =>
      obtain ⟨r, hr, -⟩ := h
      simp [hr]

theorem stands_changeJob {f : JobRow → JobRow} (hf : JobRow.KeepsKey f)
    (hstatus : ∀ r, (f r).status = status.name) (h : s.Stands id t outset) :
    (s.changeJob id t f).Stands id t (outset.map fun _ => status) := by
  cases outset with
  | none =>
      have h : s.rowsOf id t = [] := h
      exact (rowsOf_changeJob hf).trans (by rw [h]; rfl)
  | some _ =>
      obtain ⟨r, hr, -⟩ := h
      exact ⟨f r, by rw [rowsOf_changeJob hf, hr]; rfl, hstatus r⟩

/-- New rows of a step and all behind it, where the others have none. -/
theorem stands_putPending (first : Step) (hgone : t ∉ first.onward → s.rowsOf id t = []) :
    (s.putPending id first.onward now).Stands id t
      (if t ∈ first.onward then some .pending else none) := by
  have hrows : (s.putPending id first.onward now).rowsOf id t =
      if id = id ∧ t ∈ first.onward then [.pending id t now] else s.rowsOf id t :=
    rowsOf_putPending_eq first.onward now
  simp only [true_and] at hrows
  by_cases ht : t ∈ first.onward
  · rw [if_pos ht] at hrows ⊢
    exact ⟨_, hrows, rfl⟩
  · rw [if_neg ht] at hrows ⊢
    exact hrows.trans (hgone ht)

/-- Forcing makes new rows. -/
theorem stands_forceDocument {first : Step} (h : s.forceDocument id first now = .ok s') :
    s'.Stands id t (if t ∈ first.onward then some .pending else none) := by
  obtain ⟨found, -, h⟩ := exists_of_bind_ok h
  cases found with
  | none => cases h
  | some d =>
      obtain ⟨_, -, h⟩ := exists_of_bind_ok h
      cases h
      exact stands_putPending first fun _ => rowsOf_deleteJobs

/-- Letting a document wait for every step makes new rows. -/
theorem stands_queueDocument (h : s.queueDocument id now = .ok s') :
    s'.Stands id t (if t ∈ Step.hash.onward then some .pending else none) := by
  obtain ⟨_, -, h⟩ := exists_of_bind_ok h
  cases h
  exact stands_putPending .hash fun hnot => absurd (by cases t <;> decide) hnot

theorem stands_resetRunning (h : s.Stands id t outset) :
    s.resetRunning.2.Stands id t (stage t outset [.reset]) := by
  cases outset with
  | none =>
      have h : s.rowsOf id t = [] := h
      exact rowsOf_resetRunning.trans (by rw [h]; rfl)
  | some status =>
      obtain ⟨r, hr, hname⟩ := h
      refine ⟨_, by rw [rowsOf_resetRunning, hr]; rfl, ?_⟩
      by_cases hrunning : status = .running
      · subst hrunning
        simp [hname, JobRow.requeued]
      · have hother : r.status ≠ JobStatus.running.name :=
          fun heq => hrunning (JobStatus.name_injective (hname.symm.trans heq))
        simpa only [hother, hrunning, ↓reduceIte] using hname

/-- What others have made of the rows. -/
theorem Feeds.stands {firsts : List Step} (hfeeds : Feeds id firsts s s')
    (h : s.Stands id t outset) :
    s'.Stands id t (stage t outset (firsts.map .made)) := by
  induction hfeeds with
  | none => exact h
  | spare _ hjobs ih => exact (stands_congr (by rw [rowsOf, hjobs, ← rowsOf])).mpr (ih h)
  | force _ hforce _ => exact stands_forceDocument hforce
  | queue _ hqueue _ => exact stands_queueDocument hqueue

/-- Others have made no rows, or the last that they made are all that counts. -/
theorem Feeds.waits_cases {firsts : List Step} (hfeeds : Feeds id firsts s s') (t : Step) :
    firsts = [] ∧ (s'.Waits id t ↔ s.Waits id t) ∨
      ∀ events, s'.Waits id t ↔ stage t .none (firsts.map .made ++ events) = some .pending := by
  induction hfeeds with
  | none => exact .inl ⟨rfl, Iff.rfl⟩
  | @spare firsts _ st₁ st₂ _ hjobs ih =>
      have hrows : st₂.rowsOf id t = st₁.rowsOf id t := by rw [rowsOf, hjobs, rowsOf]
      rw [waits_congr hrows]
      exact ih
  | force _ hforce _ => exact .inr fun _ => (stands_forceDocument hforce).waits_iff
  | queue _ hqueue _ => exact .inr fun _ => (stands_queueDocument hqueue).waits_iff

end Store

namespace StoreCall

variable {c : StoreCall} {now : Calendar.Instant} {st st' : Store} {id : String} {t : Step}
  {outset : Option JobStatus}

/-- What a call that is heeded brings about among the rows of a document. -/
def jobEvent? (id : String) : StoreCall → Option JobEvent
  | .startJob i t => if i = id then some (.marked t .running) else none
  | .finishJob i t message =>
    if i = id then some (.marked t (if message.isNone then .finished else .failed)) else none
  | .requeueJob i t => if i = id then some (.marked t .pending) else none
  | .clearJob i t => if i = id then some (.cleared t) else none
  | .cancelJobs i => if i = id then some .cancelled else none
  | _ => none

theorem stands_changeJob {i : String} {u : Step} {f : JobRow → JobRow} {status : JobStatus}
    (hf : JobRow.KeepsKey f) (hstatus : ∀ r, (f r).status = status.name)
    (h : st.Stands id t outset) :
    (st.changeJob i u f).Stands id t
      (stage t outset (if i = id then some (JobEvent.marked u status) else none).toList) := by
  by_cases hi : i = id
  · subst hi
    rw [if_pos rfl, Option.toList_some, stage]
    by_cases hu : u = t
    · subst hu
      rw [if_pos rfl]
      exact Store.stands_changeJob hf hstatus h
    · rw [if_neg hu]
      exact (Store.stands_congr (Store.rowsOf_changeJob_of_ne (Ne.symm hu) hf)).mpr h
  · rw [if_neg hi]
    refine (Store.stands_congr ?_).mpr h
    rw [Store.rowsOf, Store.jobsFor_changeJob_of_ne (Ne.symm hi) hf, Store.rowsOf]

/-- A call takes the row of a step to the stage that its event leads to. -/
theorem stands_perform (hperform : c.perform now st = .ok st') (h : st.Stands id t outset) :
    st'.Stands id t (stage t outset (c.jobEvent? id).toList) := by
  cases c with
  | startJob i u =>
      cases hperform
      exact stands_changeJob (fun _ => ⟨rfl, rfl⟩) (fun _ => rfl) h
  | finishJob i u message =>
      cases hperform
      refine stands_changeJob (fun _ => ⟨rfl, rfl⟩) (fun _ => ?_) h
      cases message <;> rfl
  | requeueJob i u =>
      cases hperform
      exact stands_changeJob (fun _ => ⟨rfl, rfl⟩) (fun _ => rfl) h
  | clearJob i u =>
      cases hperform
      have hrows : (st.clearJob i u).rowsOf id t =
          if id = i ∧ t = u then [] else st.rowsOf id t := Store.rowsOf_clearJob_eq
      by_cases hi : i = id
      · subst hi
        by_cases hu : u = t
        · subst hu
          have hgone : (st.clearJob i u).Stands i u none := hrows.trans (if_pos ⟨rfl, rfl⟩)
          simpa [jobEvent?, stage] using hgone
        · rw [if_neg fun heq => hu heq.2.symm] at hrows
          simpa [jobEvent?, stage, hu] using (Store.stands_congr hrows).mpr h
      · rw [if_neg fun heq => hi heq.1.symm] at hrows
        simpa [jobEvent?, stage, hi] using (Store.stands_congr hrows).mpr h
  | cancelJobs i =>
      cases hperform
      have hrows : (st.deleteJobs i).2.rowsOf id t = if id = i then [] else st.rowsOf id t :=
        Store.rowsOf_deleteJobs_eq
      by_cases hi : i = id
      · subst hi
        have hgone : (st.deleteJobs i).2.Stands i t none := hrows.trans (if_pos rfl)
        simpa [jobEvent?, stage] using hgone
      · rw [if_neg (Ne.symm hi)] at hrows
        simpa [jobEvent?, stage, hi] using (Store.stands_congr hrows).mpr h
  | _ =>
      refine (Store.stands_congr ?_).mpr h
      exact rowsOf_perform ⟨by simp, by simp [job?]⟩ hperform

/-- A call that does not write the row of a step takes it to no other stage. -/
theorem stage_of_sparesRow (hc : c.SparesRow id t) (events : List JobEvent) :
    stage t outset ((c.jobEvent? id).toList ++ events) = stage t outset events := by
  cases c with
  | startJob i u | finishJob i u message | requeueJob i u | clearJob i u =>
      by_cases hi : i = id
      · have hu : u ≠ t := fun heq => hc.2 (by rw [hi, heq]; rfl)
        simp [jobEvent?, hi, stage, hu]
      · simp [jobEvent?, hi]
  | cancelJobs i =>
      have hi : i ≠ id := fun heq => hc.1 (by rw [heq])
      simp [jobEvent?, hi]
  | _ => rfl

/-- What fails is no event. -/
theorem jobEvent?_of_error {e : StoreError} (h : c.perform now st = .error e) :
    c.jobEvent? id = none := by
  cases c with
  | startJob | finishJob | requeueJob | clearJob | cancelJobs => cases h
  | _ => rfl

end StoreCall

namespace Surroundings

variable {s : Surroundings} {id : String} {t : Step} {made : List Moment → Store → List Step}
  {base past since : List Moment} {st₀ st : Store} {m : Moment} {outset : Option JobStatus}

/-- Before each call others make rows of a document, and change its rows in no other way. -/
def Feeds (s : Surroundings) (id : String) (made : List Moment → Store → List Step) : Prop :=
  ∀ past st, Store.Feeds id (made past st) st (s.others past st)

theorem Spares.feeds (hspares : s.Spares id) : s.Feeds id fun _ _ => [] :=
  fun past st => .spare .none (hspares past st)

/-- The events that a moment adds: first what others make, then what is called. -/
def jobEvents (s : Surroundings) (id : String) (made : List Moment → Store → List Step)
    (past : List Moment) (st : Store) : Moment → List JobEvent
  | .call c =>
      (if (s.refuses past c).isSome then [] else (c.jobEvent? id).toList) ++
        (made past st).map .made
  | .effect _ => []

/-- The events of the moments since some past, the last of which comes first. -/
def jobHistory (s : Surroundings) (id : String) (made : List Moment → Store → List Step)
    (base : List Moment) (st₀ : Store) : List Moment → List JobEvent
  | [] => []
  | m :: since =>
      s.jobEvents id made (since ++ base) (s.replay base st₀ since) m ++
        s.jobHistory id made base st₀ since

/-- The events of a moment take the row of a step from one stage to the next. -/
theorem stands_after (hfeeds : s.Feeds id made) (h : st.Stands id t outset) :
    (s.after past st m).Stands id t (stage t outset (s.jobEvents id made past st m)) := by
  cases m with
  | effect e => exact h
  | call c =>
      have hothers := (hfeeds past st).stands h
      rw [jobEvents, stage_append]
      cases hrefuse : s.refuses past c with
      | some e =>
          rw [after_of_refused hrefuse]
          exact hothers
      | none =>
          cases hperform : c.perform (s.clock past) (s.others past st) with
          | ok st' =>
              rw [after_of_heeded hrefuse hperform]
              exact StoreCall.stands_perform hperform hothers
          | error e =>
              have hfailed : s.after past st (.call c) = s.others past st := by
                rcases s.after_call_cases past st c with heq | ⟨-, hok⟩
                · exact heq
                · cases hperform.symm.trans hok
              rw [hfailed, StoreCall.jobEvent?_of_error hperform]
              exact hothers

/-- The events since some past decide at which stage the row of a step is. -/
theorem stands_replay (hfeeds : s.Feeds id made) (h : st₀.Stands id t outset)
    (since : List Moment) :
    (s.replay base st₀ since).Stands id t
      (stage t outset (s.jobHistory id made base st₀ since)) := by
  induction since with
  | nil => exact h
  | cons m since ih =>
      rw [replay, jobHistory, stage_append]
      exact stands_after hfeeds ih

/-- What has come about since some past, and that it fits the store. -/
def Recounts (s : Surroundings) (id : String) (made : List Moment → Store → List Step)
    (base : List Moment) (st₀ : Store) (P : List JobEvent → Store → Prop) (past : List Moment)
    (st : Store) : Prop :=
  ∃ since, past = since ++ base ∧ st = s.replay base st₀ since ∧
    P (s.jobHistory id made base st₀ since) st

theorem Recounts.imp {P P' : List JobEvent → Store → Prop}
    (h : s.Recounts id made base st₀ P past st) (himp : ∀ events, P events st → P' events st) :
    s.Recounts id made base st₀ P' past st := by
  obtain ⟨since, hpast, hst, hP⟩ := h
  exact ⟨since, hpast, hst, himp _ hP⟩

/-- A moment adds its events to what has come about. -/
theorem Recounts.next {P P' : List JobEvent → Store → Prop}
    (h : s.Recounts id made base st₀ P past st)
    (hP : ∀ events, P events st →
      P' (s.jobEvents id made past st m ++ events) (s.after past st m)) :
    s.Recounts id made base st₀ P' (m :: past) (s.after past st m) := by
  obtain ⟨since, rfl, rfl, hevents⟩ := h
  exact ⟨m :: since, rfl, rfl, hP _ hevents⟩

/-- What fits the store goes on to do so, if it does whatever rows others make and whichever call
of a kind is heeded. -/
theorem Feeds.maintains_recounts {kind : StoreCall → Prop} {P : List JobEvent → Store → Prop}
    (hfeeds : s.Feeds id made)
    (hothers : ∀ firsts st st' events, Store.Feeds id firsts st st' → P events st →
      P (firsts.map .made ++ events) st')
    (hperform : ∀ c now st st' events, kind c → c.perform now st = .ok st' → P events st →
      P ((c.jobEvent? id).toList ++ events) st') :
    s.Maintains (Moment.Calls kind) (s.Recounts id made base st₀ P) := by
  intro past st m hm h
  refine h.next fun events hP => ?_
  cases m with
  | effect e => exact hP
  | call c =>
      have hfed := hothers _ _ _ events (hfeeds past st) hP
      rw [jobEvents, List.append_assoc]
      cases hrefuse : s.refuses past c with
      | some e =>
          rw [after_of_refused hrefuse]
          exact hfed
      | none =>
          rcases s.after_call_cases past st c with heq | ⟨-, hok⟩
          · cases hperforms : c.perform (s.clock past) (s.others past st) with
            | ok st' =>
                rw [after_of_heeded hrefuse hperforms]
                exact hperform c _ _ _ _ hm hperforms hfed
            | error e =>
                rw [heq, StoreCall.jobEvent?_of_error hperforms]
                exact hfed
          · exact hperform c _ _ _ _ hm hok hfed

end Surroundings

end Docket
