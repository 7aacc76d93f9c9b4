import Docket.Proofs.Outcome

/-!
What becomes of a mandatory step whose handler did not succeed, whichever calls are
refused and wherever the process stops.  Once the running rows have been reset the step
waits again, except where the note of its failure is the last that the store took.
-/

namespace Docket

namespace Store

variable {s : Store} {id : String} {t : Step} {status : JobStatus}

/-- A step of a document waits. -/
def Waits (s : Store) (id : String) (t : Step) : Prop :=
  ∃ r ∈ s.rowsOf id t, r.isPending = true

/-- A step of a document waits, or does so once the running rows are reset. -/
def Recoverable (s : Store) (id : String) (t : Step) : Prop :=
  ∃ r ∈ s.rowsOf id t, r.isPending = true ∨ r.status = JobStatus.running.name

/-- A step of a document has a row, with some status. -/
def Rests (s : Store) (id : String) (t : Step) (status : JobStatus) : Prop :=
  s.rowsOf id t ≠ [] ∧ ∀ r ∈ s.rowsOf id t, r.status = status.name

instance : Decidable (s.Waits id t) := inferInstanceAs (Decidable (∃ r ∈ _, _))

theorem waits_congr {s' : Store} (h : s.rowsOf id t = s'.rowsOf id t) :
    s.Waits id t ↔ s'.Waits id t := by
  rw [Waits, h, Waits]

theorem recoverable_congr {s' : Store} (h : s.rowsOf id t = s'.rowsOf id t) :
    s.Recoverable id t ↔ s'.Recoverable id t := by
  rw [Recoverable, h, Recoverable]

theorem rests_congr {s' : Store} (h : s.rowsOf id t = s'.rowsOf id t) :
    s.Rests id t status ↔ s'.Rests id t status := by
  rw [Rests, h, Rests]

theorem Waits.recoverable (h : s.Waits id t) : s.Recoverable id t := by
  obtain ⟨r, hr, hpending⟩ := h
  exact ⟨r, hr, .inl hpending⟩

theorem Rests.exists_row (h : s.Rests id t status) :
    ∃ r ∈ s.rowsOf id t, r.status = status.name := by
  obtain ⟨r, hr⟩ := List.exists_mem_of_ne_nil _ h.1
  exact ⟨r, hr, h.2 r hr⟩

theorem Rests.recoverable (h : s.Rests id t status)
    (hstatus : status = .pending ∨ status = .running) : s.Recoverable id t := by
  obtain ⟨r, hr, hname⟩ := h.exists_row
  refine ⟨r, hr, ?_⟩
  rcases hstatus with rfl | rfl
  · exact .inl (by simpa [JobRow.isPending] using hname)
  · exact .inr hname

/-- A row that has failed does not wait after a reset. -/
theorem Rests.not_recoverable (h : s.Rests id t .failed) : ¬ s.Recoverable id t := by
  rintro ⟨r, hr, hstatus⟩
  have hfailed := h.2 r hr
  simp only [JobRow.isPending, hfailed, decide_eq_true_eq] at hstatus
  rcases hstatus with heq | heq
  · exact absurd (JobStatus.name_injective heq) (by decide)
  · exact absurd (JobStatus.name_injective heq) (by decide)

theorem rowsOf_resetRunning :
    s.resetRunning.2.rowsOf id t = (s.rowsOf id t).map fun r =>
      if r.status = JobStatus.running.name then r.requeued else r := by
  simp only [rowsOf, jobsFor, resetRunning, List.filter_filter, List.filter_map,
    decide_eq_true_eq]
  congr 1
  apply List.filter_congr
  intro r _
  simp only [Function.comp]
  split <;> rfl

/-- The steps that wait after a reset of the running rows. -/
theorem waits_resetRunning : s.resetRunning.2.Waits id t ↔ s.Recoverable id t := by
  unfold Waits Recoverable
  rw [rowsOf_resetRunning]
  constructor
  · rintro ⟨r', hr', hpending⟩
    obtain ⟨r, hr, rfl⟩ := List.mem_map.mp hr'
    refine ⟨r, hr, ?_⟩
    split at hpending
    · next hrunning => exact .inr hrunning
    · exact .inl hpending
  · rintro ⟨r, hr, hstatus⟩
    refine ⟨_, List.mem_map_of_mem hr, ?_⟩
    by_cases hrunning : r.status = JobStatus.running.name
    · simp [hrunning, JobRow.requeued, JobRow.isPending]
    · simpa [hrunning] using hstatus

theorem rests_changeJob {f : JobRow → JobRow} (hf : JobRow.KeepsKey f)
    (hstatus : ∀ r, (f r).status = status.name) (hrows : s.rowsOf id t ≠ []) :
    (s.changeJob id t f).Rests id t status := by
  unfold Rests
  rw [rowsOf_changeJob hf]
  refine ⟨by simpa using hrows, ?_⟩
  intro r' hr'
  obtain ⟨r, -, rfl⟩ := List.mem_map.mp hr'
  exact hstatus r

end Store

namespace Surroundings

variable {s : Surroundings} {id : String} {t : Step} {status status' : JobStatus}
  {past : List Moment} {st : Store} {c : StoreCall}

theorem Spares.rests (hspares : s.Spares id) (h : st.Rests id t status) :
    (s.others past st).Rests id t status :=
  (Store.rests_congr (hspares.rowsOf t past st)).mpr h

/-- What is known of the row of a step is kept by all that does not write it. -/
theorem Spares.maintains_rests (hspares : s.Spares id) :
    s.Maintains (Moment.Calls (StoreCall.SparesRow id t)) fun _ st => st.Rests id t status := by
  apply maintains_of_perform
  · intro past st h
    exact hspares.rests h
  · intro c now st st' hc hok h
    exact (Store.rests_congr (StoreCall.rowsOf_perform hc hok)).mpr h

theorem Spares.rests_of_refused (hspares : s.Spares id) {e : StoreError}
    (hrefuse : s.refuses past c = some e) (h : st.Rests id t status) :
    (s.after past st (.call c)).Rests id t status := by
  rw [after_of_refused hrefuse]
  exact hspares.rests h

/-- A call that is carried out gives the row of its step a status. -/
theorem Spares.rests_of_heeded (hspares : s.Spares id)
    {f : Calendar.Instant → JobRow → JobRow}
    (hperform : ∀ now st, c.perform now st = .ok (st.changeJob id t (f now)))
    (hf : ∀ now, JobRow.KeepsKey (f now)) (hstatus : ∀ now r, (f now r).status = status.name)
    (hheed : s.refuses past c = none) (hrows : st.rowsOf id t ≠ []) :
    (s.after past st (.call c)).Rests id t status := by
  rw [after_of_heeded hheed (hperform _ _)]
  refine Store.rests_changeJob (hf _) (hstatus _) ?_
  rw [hspares.rowsOf]
  exact hrows

end Surroundings

namespace Pass

open Act (Keeps)

variable {s : Surroundings} {id : String} {t : Step} {status : JobStatus} {desk : Desk}

/-- After a past the store takes the note of why a step failed, and then the process
stops or the call that would let the step wait again is refused. -/
def NotedOnly (s : Surroundings) (id : String) (t : Step) (reason : String)
    (past : List Moment) : Prop :=
  s.stops past = false ∧ s.refuses past (.finishJob id t (some reason)) = none ∧
    (s.stops (.call (.finishJob id t (some reason)) :: past) = true ∨
      s.refuses (.call (.finishJob id t (some reason)) :: past) (.requeueJob id t) ≠ none)

/-- Letting a step wait again succeeds, or leaves the status of its row. -/
theorem requeue_rests (desk : Desk) (hspares : s.Spares id)
    (hrests : desk.world.store.Rests id t status) :
    (∃ desk', Act.onWorld (requeue id t) s desk = (.ok (), desk') ∧
      desk'.world.store.Rests id t .pending ∧ s.stops desk.world.moments = false ∧
      s.refuses desk.world.moments (.requeueJob id t) = none) ∨
    ∃ i desk', Act.onWorld (requeue id t) s desk = (.error i, desk') ∧
      desk'.world.store.Rests id t status ∧ (s.stops desk.world.moments = true ∨
        s.refuses desk.world.moments (.requeueJob id t) ≠ none) := by
  rcases Act.onWorld_tell_cases s (c := .requeueJob id t) rfl desk with
    ⟨hstop, htell⟩ | ⟨-, e, hrefuse, htell⟩ | ⟨hgo, hheed, htell⟩
  · exact .inr ⟨_, _, htell, hrests, .inl hstop⟩
  · exact .inr ⟨_, _, htell, hspares.rests_of_refused hrefuse hrests,
      .inr (by simp [hrefuse])⟩
  · refine .inl ⟨_, htell, ?_, hgo, hheed⟩
    exact hspares.rests_of_heeded (fun _ _ => rfl) (fun _ _ => ⟨rfl, rfl⟩)
      (fun _ _ => rfl) hheed hrests.1

/-- After the failure of a mandatory step its row has failed if the failure was noted
only, and can be recovered else. -/
theorem conclude_failed (reason : String) (hspares : s.Spares id)
    (hmandatory : t.mandatory = true) (hrunning : desk.world.store.Rests id t .running) :
    let st := (conclude id t (some reason) s desk).2.world.store
    (NotedOnly s id t reason desk.world.moments → st.Rests id t .failed) ∧
      (¬ NotedOnly s id t reason desk.world.moments → st.Recoverable id t) := by
  rcases Act.onWorld_tell_cases s (c := .finishJob id t (some reason)) rfl desk with
    ⟨hstop, hfinish⟩ | ⟨-, e, hrefuse, hfinish⟩ | ⟨hgo, hheed, hfinish⟩
  · rw [conclude_of_interrupt hfinish (by simp)]
    constructor
    · rintro ⟨hgo, -⟩
      rw [hstop] at hgo
      cases hgo
    · intro _
      exact hrunning.recoverable (.inr rfl)
  · rw [conclude_of_error hfinish]
    have hkept := hspares.rests_of_refused hrefuse hrunning
    constructor
    · rintro ⟨-, hheed, -⟩
      rw [hrefuse] at hheed
      cases hheed
    · intro _
      rcases requeue_rests (desk.next s _) hspares hkept with
        ⟨desk', hrequeue, hrests, -⟩ | ⟨i, desk', hrequeue, hrests, -⟩
      · rw [Act.bind_of_ok hrequeue]
        exact hrests.recoverable (.inl rfl)
      · rw [Act.bind_of_error hrequeue]
        exact hrests.recoverable (.inr rfl)
  · rw [conclude_of_deferred hmandatory hfinish]
    let noted := (desk.next s (.call (.finishJob id t (some reason)))).reported
      (.stepFinished id t (some reason))
    have hfailed : noted.world.store.Rests id t .failed :=
      hspares.rests_of_heeded (fun _ _ => rfl) (fun _ _ => ⟨rfl, rfl⟩)
        (fun _ _ => rfl) hheed hrunning.1
    rcases requeue_rests noted hspares hfailed with
      ⟨desk', hrequeue, hrests, hgo', hheed'⟩ | ⟨i, desk', hrequeue, hrests, hlost⟩
    · rw [Act.bind_of_ok hrequeue]
      constructor
      · rintro ⟨-, -, hstop | hrefuse⟩
        · exact absurd (hstop.symm.trans hgo') (by simp)
        · exact absurd hheed' hrefuse
      · intro _
        exact hrests.recoverable (.inl rfl)
    · rw [Act.bind_of_error hrequeue]
      constructor
      · intro _
        exact hrests
      · intro hnot
        exact absurd ⟨hgo, hheed, hlost⟩ hnot

/-- Under its job, a step fails and its failure is noted only. -/
def StrandedAt (handler : Handler) (id : String) (s : Surroundings) (t : Step)
    (desk : Desk) : Prop :=
  ∃ began e, begin id t s desk = (.ok (), began) ∧
    (handler s began).1 = .error (.error e) ∧
    NotedOnly s id t e.message (handler s began).2.world.moments

/-- In a run of steps from a desk the failure of a step was noted only. -/
def StrandedIn (handlers : Step → Handler) (id : String) (s : Surroundings)
    (steps : List Step) (desk : Desk) (t : Step) : Prop :=
  ∃ began e, Begins handlers id s steps desk t began ∧
    (handlers t s began).1 = .error (.error e) ∧
    NotedOnly s id t e.message (handlers t s began).2.world.moments

/-- In a pass the failure of a step was noted only. -/
def Stranded (handlers : String → Step → Handler) (id : String) (s : Surroundings)
    (w : World) (t : Step) : Prop :=
  ∃ began e, BeginsIn handlers id s w t began ∧
    (handlers s.scratch t s began).1 = .error (.error e) ∧
    NotedOnly s id t e.message (handlers s.scratch t s began).2.world.moments

section

variable {handlers : Step → Handler} {steps : List Step}

theorem strandedAt_iff {handler : Handler} {began : Desk} {r : Except PipelineError Unit}
    (hbegin : begin id t s desk = (.ok (), began))
    (hresult : (handler s began).1 = r.mapError .error) :
    StrandedAt handler id s t desk ↔ ∃ e, r = .error e ∧
      NotedOnly s id t e.message (handler s began).2.world.moments := by
  constructor
  · rintro ⟨began', e, hok, hfail, hnoted⟩
    rw [hbegin] at hok
    cases hok
    rw [hresult] at hfail
    cases r with
    | ok u => cases hfail
    | error e' =>
        cases hfail
        exact ⟨e, rfl, hnoted⟩
  · rintro ⟨e, rfl, hnoted⟩
    exact ⟨began, e, hbegin, hresult, hnoted⟩

/-- The row of a step whose handler was handed a desk and does not succeed. -/
theorem runStep_failed_of_begun (hspares : s.Spares id) (hmandatory : t.mandatory = true)
    {handler : Handler} (hhandler : handler.Minds s fun _ => True) {began : Desk}
    (hbegin : begin id t s desk = (.ok (), began))
    (hrunning : began.world.store.Rests id t .running)
    (hfails : (handler s began).1 ≠ .ok ()) :
    let st := (runStep handler id t s desk).2.world.store
    (StrandedAt handler id s t desk → st.Rests id t .failed) ∧
      (¬ StrandedAt handler id s t desk → st.Recoverable id t) := by
  have hkept : (handler s began).2.world.store.Rests id t .running :=
    (hhandler _ (hspares.maintains_rests.mono fun _ hm => hm.sparesRow id t) began
      ⟨trivial, hrunning⟩).1.2
  rw [show runStep handler id t s desk = _ from Act.bind_of_ok hbegin]
  rcases Act.attempt_cases handler s began with ⟨r, hattempt, hresult⟩ |
    ⟨i, hattempt, hresult⟩
  · rw [Act.bind_of_ok hattempt, strandedAt_iff hbegin hresult]
    cases r with
    | ok u => exact absurd hresult hfails
    | error e =>
        obtain ⟨hlost, hsaved⟩ := conclude_failed e.message hspares hmandatory hkept
        constructor
        · rintro ⟨_, ⟨⟩, hnoted⟩
          exact hlost hnoted
        · intro hnot
          exact hsaved fun hnoted => hnot ⟨e, rfl, hnoted⟩
  · rw [Act.bind_of_error hattempt]
    constructor
    · rintro ⟨began', e, hok, hfail, -⟩
      rw [hbegin] at hok
      cases hok
      rw [Act.attempt_of_fail (Prod.ext hfail rfl)] at hattempt
      cases hattempt
    · intro _
      exact hkept.recoverable (.inr rfl)

/-- The row of a step under which its handler does not succeed. -/
theorem runStep_failed (hspares : s.Spares id) (hmandatory : t.mandatory = true)
    {handler : Handler} (hhandler : handler.Minds s fun _ => True)
    (hwaits : desk.world.store.Waits id t)
    (hfails : ∀ began, begin id t s desk = (.ok (), began) → (handler s began).1 ≠ .ok ()) :
    let st := (runStep handler id t s desk).2.world.store
    (StrandedAt handler id s t desk → st.Rests id t .failed) ∧
      (¬ StrandedAt handler id s t desk → st.Recoverable id t) := by
  obtain ⟨r, hr, hpending⟩ := hwaits
  rcases Act.onWorld_tell_cases s (c := .startJob id t) rfl desk with
    ⟨-, hstart⟩ | ⟨-, e, hrefuse, hstart⟩ | ⟨-, hheed, hstart⟩
  · have hbegin : begin id t s desk = (.error .stop, desk) := Act.bind_of_error hstart
    rw [show runStep handler id t s desk = _ from Act.bind_of_error hbegin]
    constructor
    · rintro ⟨began, e, hok, -⟩
      rw [hbegin] at hok
      cases hok
    · intro _
      exact ⟨r, hr, .inl hpending⟩
  · have hbegin : begin id t s desk =
        (.error (.error (.store e)), desk.next s (.call (.startJob id t))) :=
      Act.bind_of_error hstart
    rw [show runStep handler id t s desk = _ from Act.bind_of_error hbegin]
    constructor
    · rintro ⟨began, e, hok, -⟩
      rw [hbegin] at hok
      cases hok
    · intro _
      refine ⟨r, ?_, .inl hpending⟩
      rw [Desk.next_store, Surroundings.after_of_refused hrefuse, hspares.rowsOf]
      exact hr
  · have hbegin := begin_of_started hstart
    refine runStep_failed_of_begun hspares hmandatory hhandler hbegin ?_
      (hfails _ hbegin)
    exact hspares.rests_of_heeded (fun _ _ => rfl) (fun _ _ => ⟨rfl, rfl⟩)
      (fun _ _ => rfl) hheed (List.ne_nil_of_mem hr)

theorem strandedIn_cons {u : Step} {rest : List Step} {desk' : Desk} (hne : u ≠ t)
    (hstep : runStep (handlers u) id u s desk = (.ok none, desk')) :
    StrandedIn handlers id s (u :: rest) desk t ↔ StrandedIn handlers id s rest desk' t := by
  constructor
  · rintro ⟨began, e, hbegins, hfail⟩
    obtain ⟨desk'', hstep', hrest⟩ := (begins_cons_of_ne hne).mp hbegins
    rw [hstep] at hstep'
    cases hstep'
    exact ⟨began, e, hrest, hfail⟩
  · rintro ⟨began, e, hrest, hfail⟩
    exact ⟨began, e, .later hstep hrest, hfail⟩

theorem not_strandedIn_cons {u : Step} {rest : List Step} (hne : u ≠ t)
    (hstep : ∀ desk', runStep (handlers u) id u s desk ≠ (.ok none, desk')) :
    ¬ StrandedIn handlers id s (u :: rest) desk t := by
  rintro ⟨began, e, hbegins, -⟩
  obtain ⟨desk', hnone, -⟩ := (begins_cons_of_ne hne).mp hbegins
  exact hstep desk' hnone

/-- If the pass does not go on from a step, it begins no other step after it. -/
theorem strandedIn_cons_self {rest : List Step}
    (hstops : ∀ desk', runStep (handlers t) id t s desk ≠ (.ok none, desk')) :
    StrandedIn handlers id s (t :: rest) desk t ↔ StrandedAt (handlers t) id s t desk := by
  constructor
  · rintro ⟨began, e, hbegins, hfail⟩
    cases hbegins with
    | here hbegin => exact ⟨began, e, hbegin, hfail⟩
    | later hstep _ => exact absurd hstep (hstops _)
  · rintro ⟨began, e, hbegin, hfail⟩
    exact ⟨began, e, .here hbegin, hfail⟩

theorem runSteps_desk_of_stops {u : Step} {rest : List Step}
    (hstops : ∀ desk', runStep (handlers u) id u s desk ≠ (.ok none, desk')) :
    (runSteps handlers id (u :: rest) s desk).2 = (runStep (handlers u) id u s desk).2 := by
  rcases hstep : runStep (handlers u) id u s desk with ⟨i | _ | reason, desk'⟩
  · rw [runSteps_of_error hstep]
  · exact absurd hstep (hstops desk')
  · rw [runSteps_of_some hstep]

/-- The row of a step that a run of steps may reach, and whose handler does not succeed
there. -/
theorem runSteps_failed (hspares : s.Spares id) (hmandatory : t.mandatory = true)
    (hhandlers : ∀ u, (handlers u).Minds s fun _ => True)
    (hwaits : desk.world.store.Waits id t)
    (hfails : ∀ began, Begins handlers id s steps desk t began →
      (handlers t s began).1 ≠ .ok ()) :
    let st := (runSteps handlers id steps s desk).2.world.store
    (StrandedIn handlers id s steps desk t → st.Rests id t .failed) ∧
      (¬ StrandedIn handlers id s steps desk t → st.Recoverable id t) := by
  induction steps generalizing desk with
  | nil =>
      constructor
      · rintro ⟨began, e, ⟨⟩, -⟩
      · intro _
        exact hwaits.recoverable
  | cons u rest ih =>
      by_cases hu : u = t
      · -- the step itself: the pass does not go on from it
        subst hu
        have hstops : ∀ desk', runStep (handlers u) id u s desk ≠ (.ok none, desk') := by
          intro desk' hstep
          obtain ⟨began, hbegin, hok⟩ := succeeded_of_runStep_none hmandatory hstep
          exact hfails began (.here hbegin) hok
        rw [strandedIn_cons_self hstops, runSteps_desk_of_stops hstops]
        exact runStep_failed hspares hmandatory (hhandlers u) hwaits fun began hbegin =>
          hfails began (.here hbegin)
      · -- another step leaves the row alone
        have hI : s.Maintains (Moment.OfStep (fun _ => True) id u) fun _ st =>
            st.rowsOf id t = desk.world.store.rowsOf id t :=
          (hspares.maintains_rowsOf _).mono fun _ hm => hm.sparesRow (Ne.symm hu)
        have hrows := (runStep_keeps (hhandlers u) hI desk ⟨trivial, rfl⟩).1.2
        have hwaits' : (runStep (handlers u) id u s desk).2.world.store.Waits id t :=
          (Store.waits_congr hrows).mpr hwaits
        by_cases hgoes : ∃ desk', runStep (handlers u) id u s desk = (.ok none, desk')
        · obtain ⟨desk', hstep⟩ := hgoes
          rw [hstep] at hwaits'
          rw [runSteps_of_none hstep, strandedIn_cons hu hstep]
          exact ih hwaits' fun began hbegins => hfails began (.later hstep hbegins)
        · have hstops := not_exists.mp hgoes
          rw [runSteps_desk_of_stops hstops]
          exact ⟨fun h => absurd h (not_strandedIn_cons hu hstops),
            fun _ => hwaits'.recoverable⟩

end

section

variable {handlers : String → Step → Handler} {w : World}

theorem runWith_rowsOf (hspares : s.Spares id) {handlers : Step → Handler} {d : Document}
    {steps : List Step} :
    (runWith handlers d id steps s w).2.store.rowsOf id t =
      (runSteps handlers id steps s ⟨w, d⟩).2.world.store.rowsOf id t := by
  rcases hrun : runSteps handlers id steps s ⟨w, d⟩ with ⟨i | _ | ⟨u, reason⟩, desk⟩
  · rw [runWith_of_error hrun]
  · rw [runWith_of_none hrun]
    have hI := hspares.maintains_rowsOf (t := t) (desk.world.store.rowsOf id t)
    have hsettle : Keeps s (World.Has fun _ st => st.rowsOf id t =
        desk.world.store.rowsOf id t) (do
          settle id
          Act.report (.documentFinished id true)
          return DocumentOutcome.completed) := by
      refine .bind (settle_keeps hI ⟨by simp, by simp [StoreCall.job?]⟩
        ⟨by simp, by simp [StoreCall.job?]⟩) fun _ _ => ?_
      exact .bind (.report _) fun _ _ => .pure trivial
    exact (hsettle desk.world rfl).1
  · rw [runWith_of_deferred hrun]
    rfl

/-- The row of a mandatory step whose handler does not succeed in a pass. -/
theorem run_failed (hspares : s.Spares id) (hmandatory : t.mandatory = true)
    (hhandlers : ∀ u, (handlers s.scratch u).Minds s fun _ => True)
    (hwaits : w.store.Waits id t)
    (hfails : ∀ began, BeginsIn handlers id s w t began →
      (handlers s.scratch t s began).1 ≠ .ok ()) :
    let st := (run handlers id s w).2.store
    (Stranded handlers id s w t → st.Rests id t .failed) ∧
      (¬ Stranded handlers id s w t → st.Recoverable id t) := by
  have hI := hspares.maintains_rowsOf (t := t) (w.store.rowsOf id t)
  rcases run_cases handlers id s w hI rfl ⟨by simp, by simp [StoreCall.job?]⟩
      ⟨by simp, by simp [StoreCall.job?]⟩ with
    ⟨d, w₁, steps, w₂, w₃, hget, hpending, hopen, -, hrows⟩ | ⟨i, w', hrun, hrows, hnone⟩
  · have hbegins : ∀ began, BeginsIn handlers id s w t began ↔
        Begins (handlers s.scratch) id s steps ⟨w₃, d⟩ t began :=
      fun began => beginsIn_iff_of_opened hget hpending hopen
    have hstranded : Stranded handlers id s w t ↔
        StrandedIn (handlers s.scratch) id s steps ⟨w₃, d⟩ t := by
      unfold Stranded StrandedIn
      simp only [hbegins]
    have hwaits₃ : w₃.store.Waits id t := (Store.waits_congr hrows).mpr hwaits
    obtain ⟨hlost, hsaved⟩ := runSteps_failed hspares hmandatory hhandlers
      hwaits₃ fun began h => hfails began ((hbegins began).mpr h)
    have hend : (run handlers id s w).2.store.rowsOf id t =
        (runSteps (handlers s.scratch) id steps s ⟨w₃, d⟩).2.world.store.rowsOf id t := by
      rw [run_of_opened hget hpending hopen]
      exact (has_followedBy_closeScratch (I := fun _ st => st.rowsOf id t = _) _ _).mpr
        (runWith_rowsOf hspares)
    rw [hstranded]
    exact ⟨fun h => (Store.rests_congr hend).mpr (hlost h),
      fun h => (Store.recoverable_congr hend).mpr (hsaved h)⟩
  · constructor
    · rintro ⟨began, e, hbegins, -⟩
      exact absurd hbegins (hnone t began)
    · intro _
      rw [hrun]
      exact ((Store.waits_congr hrows).mpr hwaits).recoverable

/-- After a run of steps from which the pass goes on, every one of them has begun, and has succeeded
if it is mandatory. -/
theorem exists_begins_of_mem {handlers : Step → Handler} {steps : List Step} {desk' : Desk}
    (ht : t ∈ steps) (hrun : runSteps handlers id steps s desk = (.ok none, desk')) :
    ∃ began, Begins handlers id s steps desk t began ∧
      (t.mandatory = true → (handlers t s began).1 = .ok ()) := by
  induction steps generalizing desk with
  | nil => cases ht
  | cons u rest ih =>
      rcases hstep : runStep (handlers u) id u s desk with ⟨i | _ | reason, desk₁⟩
      · rw [runSteps_of_error hstep] at hrun
        cases hrun
      · rcases List.mem_cons.mp ht with rfl | ht
        · by_cases hmandatory : t.mandatory = true
          · obtain ⟨began, hbegin, hok⟩ := succeeded_of_runStep_none hmandatory hstep
            exact ⟨began, .here hbegin, fun _ => hok⟩
          · obtain ⟨_, began, hbegin, -⟩ := Act.exists_of_bind_ok hstep
            exact ⟨began, .here hbegin, fun h => absurd h hmandatory⟩
        · rw [runSteps_of_none hstep] at hrun
          obtain ⟨began, hbegins, hok⟩ := ih ht hrun
          exact ⟨began, .later hstep hbegins, hok⟩
      · rw [runSteps_of_some hstep] at hrun
        cases hrun

/-- A step that waits when a pass asks is among the steps that the pass runs. -/
theorem mem_of_pending {w' : World} {steps : List Step} (hspares : s.Spares id)
    (hwaits : w.store.Waits id t) (hpending : pending id s w = (.ok steps, w')) :
    t ∈ steps := by
  obtain ⟨jobs, hjobs, rfl⟩ := pending_ok hpending
  obtain ⟨r, hr, hrpending⟩ := hwaits
  rw [← hspares.rowsOf t w.moments w.store] at hr
  obtain ⟨hr, hfor⟩ := List.mem_filter.mp hr
  exact (Store.mem_pendingSteps hjobs).mpr ⟨r, hr, hrpending, hfor⟩

/-- Since some past the document was not called ready. -/
def Unready (id : String) (base past : List Moment) : Prop :=
  ∃ since, past = since ++ base ∧ .call (.setStatus id .ready) ∉ since

theorem maintains_unready (id : String) (base : List Moment) :
    s.Maintains (· ≠ .call (.setStatus id .ready)) fun past _ => Unready id base past := by
  rintro past st m hm ⟨since, rfl, hnot⟩
  exact ⟨m :: since, rfl, by simp [hnot, Ne.symm hm]⟩

/-- A pass calls a document ready only after a mandatory step that waited has
succeeded. -/
theorem succeeded_of_ready (hspares : s.Spares id) (hmandatory : t.mandatory = true)
    (hhandlers : ∀ u, (handlers s.scratch u).Minds s fun _ => True)
    (hwaits : w.store.Waits id t) :
    Unready id w.moments (run handlers id s w).2.moments ∨
      ∃ began, BeginsIn handlers id s w t began ∧
        (handlers s.scratch t s began).1 = .ok () := by
  have hrows := (hspares.maintains_rowsOf (t := t) (w.store.rowsOf id t)).mono
    fun m (hm : m.Calls (StoreCall.SparesRow id t) ∧ m ≠ .call (.setStatus id .ready)) => hm.1
  have hunready := (maintains_unready (s := s) id w.moments).mono
    fun m (hm : m.Calls (StoreCall.SparesRow id t) ∧ m ≠ .call (.setStatus id .ready)) => hm.2
  rcases run_cases handlers id s w (hrows.and hunready) ⟨rfl, [], rfl, by simp⟩
      ⟨⟨by simp, by simp [StoreCall.job?]⟩, by simp⟩
      ⟨⟨by simp, by simp [StoreCall.job?]⟩, by simp⟩ with
    ⟨d, w₁, steps, w₂, w₃, hget, hpending, hopen, hw₁, hw₃⟩ | ⟨i, w', hrun, hw', -⟩
  · have hI : ∀ u ∈ steps, s.Maintains (Moment.OfStep (fun _ => True) id u)
        fun past _ => Unready id w.moments past :=
      fun u _ => (maintains_unready id w.moments).mono fun _ hm => hm.ne_ready
    have hsteps := (runSteps_keeps hhandlers steps hI ⟨w₃, d⟩ ⟨trivial, hw₃.2⟩).1.2
    have hclosed : ∀ x : Act World DocumentOutcome,
        World.Has (fun past _ => Unready id w.moments past) (x s w₃).2 →
        Unready id w.moments (x.followedBy closeScratch s w₃).2.moments :=
      fun x hx => (has_followedBy_closeScratch x w₃).mpr hx
    rw [run_of_opened hget hpending hopen]
    rcases hrun : runSteps (handlers s.scratch) id steps s ⟨w₃, d⟩ with
      ⟨i | _ | ⟨u, reason⟩, desk⟩
    · rw [hrun] at hsteps
      refine .inl (hclosed _ ?_)
      rw [runWith_of_error hrun]
      exact hsteps
    · have hwaits₁ : w₁.store.Waits id t := (Store.waits_congr hw₁.1).mpr hwaits
      obtain ⟨began, hbegins, hok⟩ :=
        exists_begins_of_mem (mem_of_pending hspares hwaits₁ hpending) hrun
      exact .inr ⟨began, (beginsIn_iff_of_opened hget hpending hopen).mpr hbegins,
        hok hmandatory⟩
    · rw [hrun] at hsteps
      refine .inl (hclosed _ ?_)
      rw [runWith_of_deferred hrun]
      exact hsteps
  · rw [hrun]
    exact .inl hw'.2

/-- Whichever calls of a pass are refused and wherever the process stops: a mandatory
step that waited, and whose handler did not succeed, waits again once the running rows
are reset, exactly unless its failure was noted only.  Where it waits no later pass
calls the document ready before the step has succeeded. -/
theorem waits_resetRunning_process (hspares : s.Spares id) (hmandatory : t.mandatory = true)
    (hwaits : w.store.Waits id t)
    (hfails : ∀ began, BeginsIn Handler.ofStep id s w t began →
      (Handler.ofStep s.scratch t s began).1 ≠ .ok ()) :
    ((process id s w).2.store.resetRunning.2.Waits id t ↔
      ¬ Stranded Handler.ofStep id s w t) ∧
    (¬ Stranded Handler.ofStep id s w t → ∀ (s' : Surroundings) (w' : World),
      s'.Spares id →
      w'.store.jobsFor id = (process id s w).2.store.resetRunning.2.jobsFor id →
      Unready id w'.moments (process id s' w').2.moments ∨
        ∃ began, BeginsIn Handler.ofStep id s' w' t began ∧
          (Handler.ofStep s'.scratch t s' began).1 = .ok ()) := by
  have hminds : ∀ (s : Surroundings) u, (Handler.ofStep s.scratch u).Minds s fun _ => True :=
    fun s u => Handler.ofStep_minds (Document.lasting_true _) _ u
  obtain ⟨hlost, hsaved⟩ := run_failed hspares hmandatory (hminds s) hwaits hfails
  have hiff : (process id s w).2.store.resetRunning.2.Waits id t ↔
      ¬ Stranded Handler.ofStep id s w t := by
    rw [Store.waits_resetRunning]
    constructor
    · intro hrecoverable hstranded
      exact (hlost hstranded).not_recoverable hrecoverable
    · exact hsaved
  refine ⟨hiff, fun hnot s' w' hspares' hjobs => ?_⟩
  have hwaits' : w'.store.Waits id t := by
    refine (Store.waits_congr ?_).mpr (hiff.mpr hnot)
    rw [Store.rowsOf, hjobs, Store.rowsOf]
  exact succeeded_of_ready hspares' hmandatory (hminds s') hwaits'

end

/-! A document that cannot be hashed. -/

/-- A world in which such a document waits to be hashed. -/
def unhashed : World := .stray [.pending "d" .hash default]

/-- Bare surroundings in which the store refuses to let a step wait again. -/
def stubborn : Surroundings :=
  { Surroundings.bare with
    refuses := fun _ c =>
      match c with
      | .requeueJob _ _ => some (.corrupt "refused")
      | _ => none }

/-- The store after such a document has failed to be hashed, and this was noted. -/
def hashFailed : Store where
  documents := [.ofDocument .stray]
  jobs := [((JobRow.pending "d" .hash default).started default).ended false
    (some "Invalid content hash: '?'") default]

theorem pendingJobs_unhashed : ∃ jobs, unhashed.store.pendingJobs "d" = .ok jobs ∧
    jobs.map (·.step) = [.hash] :=
  ⟨_, Store.readJobs_of_sorted (by decide) rfl (by decide), rfl⟩

theorem hash_fails_of_opened {s : Surroundings} {w w₁ w₂ w₃ : World} {began : Desk}
    (hget : Act.ask (.getDocument "d") (·.getDocument "d") s w = (.ok .stray, w₁))
    (hpending : pending "d" s w₁ = (.ok [.hash], w₂))
    (hopen : openScratch s w₂ = (.ok (), w₃))
    (hbegins : BeginsIn Handler.ofStep "d" s w .hash began) :
    (Handler.ofStep s.scratch .hash s began).1 =
      .error (.error (.storage (.invalidHash "?"))) :=
  hash_stray s
    (begins_single ((beginsIn_iff_of_opened hget hpending hopen).mp hbegins)).2

/-- The hash that fails waits again when nothing is refused. -/
theorem waits_resetRunning_process_unhashed :
    (process "d" .bare unhashed).2.store.resetRunning.2.Waits "d" .hash := by
  obtain ⟨jobs, hjobs, hsteps⟩ := pendingJobs_unhashed
  obtain ⟨w₁, w₂, w₃, hget, hpending, hopen, -⟩ :=
    opened_of_calm (w := unhashed) (bare_calm "d") rfl hjobs ⟨_, rfl⟩
  rw [hsteps] at hpending
  have hfails : ∀ began, BeginsIn Handler.ofStep "d" .bare unhashed .hash began →
      (Handler.ofStep Surroundings.bare.scratch .hash .bare began).1 ≠ .ok () := by
    intro began hbegins hok
    cases hok.symm.trans (hash_fails_of_opened hget hpending hopen hbegins)
  refine (waits_resetRunning_process (bare_calm "d").spares rfl (by decide) hfails).1.mpr ?_
  rintro ⟨began, e, -, -, -, -, hstop | hrefuse⟩
  · cases hstop
  · exact hrefuse rfl

/-- Its failure is noted, and then the store refuses to let it wait again. -/
theorem opened_stubborn : ∃ w₁ w₂ w₃,
    Act.ask (.getDocument "d") (·.getDocument "d") stubborn unhashed = (.ok .stray, w₁) ∧
    pending "d" stubborn w₁ = (.ok [.hash], w₂) ∧
    openScratch stubborn w₂ = (.ok (), w₃) ∧
    ((runWith (Handler.ofStep "/scratch") .stray "d" [.hash]).followedBy closeScratch
      stubborn w₃).2.store = hashFailed := by
  obtain ⟨jobs, hjobs, hsteps⟩ := pendingJobs_unhashed
  let w₁ := unhashed.next stubborn (.call (.getDocument "d"))
  let w₂ := w₁.next stubborn (.call (.pendingSteps "d"))
  refine ⟨w₁, w₂, _, rfl, ?_, rfl, by decide +kernel⟩
  refine (Act.ask_of_go _ _ (fun _ _ => rfl) rfl).trans ?_
  change (((unhashed.store.pendingJobs "d").map _).mapError _, _) = _
  rw [hjobs, ← hsteps]
  rfl

/-- A hash that is lost: the store takes the note that it has failed and refuses to let
it wait again.  After the reset no row of it waits, and the next pass calls the document
ready without having begun it. -/
theorem stubborn_loses_hash :
    stubborn.Spares "d" ∧ unhashed.store.Waits "d" .hash ∧
    (∀ began, BeginsIn Handler.ofStep "d" stubborn unhashed .hash began →
      (Handler.ofStep stubborn.scratch .hash stubborn began).1 ≠ .ok ()) ∧
    ¬ (process "d" stubborn unhashed).2.store.resetRunning.2.Waits "d" .hash ∧
    ∃ w, w.store = (process "d" stubborn unhashed).2.store.resetRunning.2 ∧
      (process "d" .bare w).1 = .ok .completed ∧
      (process "d" .bare w).2.store.statusOf? "d" = some "ready" ∧
      ∀ began, ¬ BeginsIn Handler.ofStep "d" .bare w .hash began := by
  obtain ⟨w₁, w₂, w₃, hget, hpending, hopen, hend⟩ := opened_stubborn
  have hstore : (process "d" stubborn unhashed).2.store = hashFailed :=
    (congrArg (fun r => r.2.store) (run_of_opened hget hpending hopen)).trans hend
  rw [hstore]
  refine ⟨fun _ _ => rfl, by decide, ?_, by decide, ?_⟩
  · intro began hbegins hok
    cases hok.symm.trans (hash_fails_of_opened hget hpending hopen hbegins)
  · let w : World := { unhashed with store := hashFailed.resetRunning.2 }
    have hnone : w.store.pendingJobs "d" = .ok [] := by
      have hrows : (w.store.jobsFor "d").filter (·.isPending) = [] := by decide
      rw [Store.pendingJobs, Store.pendingRows_eq, hrows, Store.readJobs_nil]
    have hstored : (Surroundings.bare.others w.moments w.store).getDocument "d" =
        .ok .stray := rfl
    obtain ⟨v₁, v₂, v₃, hget', hpending', hopen', hv₃⟩ :=
      opened_of_calm (bare_calm "d") hstored hnone ⟨_, rfl⟩
    have hnever : ∀ t began, ¬ BeginsIn Handler.ofStep "d" .bare w t began := by
      intro t began h
      cases (beginsIn_iff_of_opened hget' hpending' hopen').mp h
    let outcome (_ : Step) : Except PipelineError Unit := .ok ()
    have houtcome : ∀ t began, BeginsIn Handler.ofStep "d" .bare w t began →
        (Handler.ofStep Surroundings.bare.scratch t .bare began).1 =
          (outcome t).mapError .error :=
      fun t began h => absurd h (hnever t began)
    obtain ⟨hresult, hstands⟩ := process_of_clear (bare_calm "d")
      Registry.builtin_keepsIdentity hget' hpending' hopen' hv₃ rfl houtcome
      (fun _ h => by cases h) (by decide)
    exact ⟨w, rfl, hresult, hstands.status, hnever .hash⟩

end Pass

end Docket
