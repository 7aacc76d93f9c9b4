import Docket.Proofs.Announcing
import Docket.Proofs.Forcing
import Docket.Proofs.Stages

/-!
When a pass that ends as completed has called its document ready.  Whatever rows others make
meanwhile: in the end the pass reads exactly those steps as waiting whose rows others have made
since it has begun and that it has not deleted itself.  If there are none it calls the document
ready, and else it does not; but it announces the document as ready all the same.
-/

namespace Docket

/-- A step that is not among some waits exactly if others have made its row. -/
def Store.WaitsAnew (id : String) (steps : List Step) (t : Step) (events : List JobEvent)
    (st : Store) : Prop :=
  t ∉ steps → (st.Waits id t ↔ stage t none events = some .pending)

theorem Store.Feeds.waitsAnew {id : String} {steps firsts : List Step} {t : Step}
    {events : List JobEvent} {st st' : Store} (hfeeds : Feeds id firsts st st')
    (h : st.WaitsAnew id steps t events) :
    st'.WaitsAnew id steps t (firsts.map .made ++ events) := by
  intro ht
  rcases hfeeds.waits_cases t with ⟨rfl, hsame⟩ | hmade
  · exact hsame.trans (h ht)
  · exact hmade events

/-- The steps that are read as waiting are those that wait. -/
theorem Store.mem_pendingSteps_iff {st : Store} {id : String} {t : Step} {jobs : List Job}
    (h : st.pendingJobs id = .ok jobs) : t ∈ jobs.map (·.step) ↔ st.Waits id t := by
  rw [mem_pendingSteps h]
  constructor
  · rintro ⟨r, hr, hpending, hfor⟩
    exact ⟨r, List.mem_filter.mpr ⟨hr, hfor⟩, hpending⟩
  · rintro ⟨r, hr, hpending⟩
    obtain ⟨hr, hfor⟩ := List.mem_filter.mp hr
    exact ⟨r, hr, hpending, hfor⟩

/-- The row of a step was made, and the rows of the document were not all deleted since. -/
def WasMade (t : Step) (events : List JobEvent) : Prop :=
  ∃ first later earlier, events = later ++ .made first :: earlier ∧ t ∈ first.onward ∧
    .cancelled ∉ later

theorem WasMade.cons {t : Step} {e : JobEvent} {events : List JobEvent} (he : e ≠ .cancelled)
    (h : WasMade t events) : WasMade t (e :: events) := by
  obtain ⟨first, later, earlier, rfl, ht, hnot⟩ := h
  refine ⟨first, e :: later, earlier, rfl, ht, ?_⟩
  exact List.not_mem_cons_of_ne_of_not_mem (Ne.symm he) hnot

/-- Where there was no row at the outset there is one only if it was made. -/
theorem wasMade_of_stage {t : Step} {events : List JobEvent} {status : JobStatus}
    (h : stage t none events = some status) : WasMade t events := by
  induction events generalizing status with
  | nil => cases h
  | cons e rest ih =>
      cases e with
      | made first =>
          by_cases ht : t ∈ first.onward
          · exact ⟨first, [], rest, rfl, ht, List.not_mem_nil⟩
          · rw [stage, if_neg ht] at h
            cases h
      | marked u status' =>
          rw [stage] at h
          split at h
          · obtain ⟨before, hbefore, -⟩ := Option.map_eq_some_iff.mp h
            exact (ih hbefore).cons (by simp)
          · exact (ih h).cons (by simp)
      | cleared u =>
          rw [stage] at h
          split at h
          · cases h
          · exact (ih h).cons (by simp)
      | cancelled => cases h
      | reset =>
          obtain ⟨before, hbefore, -⟩ := Option.map_eq_some_iff.mp h
          exact (ih hbefore).cons (by simp)

namespace Surroundings

variable {s : Surroundings} {id : String} {t : Step} {made : List Moment → Store → List Step}
  {base past : List Moment} {st₀ st : Store} {steps : List Step}

/-- Where others make no rows, none are made. -/
theorem not_made_mem_jobHistory (hmade : ∀ past st, made past st = []) (since : List Moment)
    (first : Step) : .made first ∉ s.jobHistory id made base st₀ since := by
  induction since with
  | nil => exact List.not_mem_nil
  | cons m since ih =>
      rw [jobHistory, List.mem_append, not_or]
      refine ⟨?_, ih⟩
      cases m with
      | effect e => exact List.not_mem_nil
      | call c =>
          simp only [jobEvents, hmade, List.map_nil, List.append_nil]
          cases c <;> simp only [StoreCall.jobEvent?] <;> split <;> (try split) <;> simp

/-- Calls about other steps change nothing about a step. -/
theorem Feeds.maintains_waitsAnew (hfeeds : s.Feeds id made) (steps : List Step) (t : Step) :
    s.Maintains (Moment.Calls (StoreCall.SparesRow id t))
      (s.Recounts id made base st₀ (Store.WaitsAnew id steps t)) := by
  refine hfeeds.maintains_recounts (fun _ _ _ _ hfed h => hfed.waitsAnew h) ?_
  intro c now st st' events hc hok h ht
  rw [StoreCall.stage_of_sparesRow hc]
  exact (Store.waits_congr (StoreCall.rowsOf_perform hc hok)).trans (h ht)

/-- Before anything but asking was done, whatever others have made waits. -/
theorem Feeds.maintains_made_waits (hfeeds : s.Feeds id made) (t : Step) :
    s.Maintains (Moment.Calls (StoreCall.SparesRow id t))
      (s.Recounts id made base st₀ fun events st =>
        stage t none events = some .pending → st.Waits id t) := by
  refine hfeeds.maintains_recounts ?_ ?_
  · intro firsts st st' events hfed h hstage
    rcases hfed.waits_cases t with ⟨rfl, hsame⟩ | hmade
    · exact hsame.mpr (h hstage)
    · exact (hmade events).mpr hstage
  · intro c now st st' events hc hok h hstage
    rw [StoreCall.stage_of_sparesRow hc] at hstage
    exact (Store.waits_congr (StoreCall.rowsOf_perform hc hok)).mpr (h hstage)

/-- Once the row of a step was deleted, the step waits exactly if others have made a new one. -/
theorem Recounts.clear {P : List JobEvent → Store → Prop}
    (h : s.Recounts id made base st₀ P past st)
    (hheed : s.refuses past (.clearJob id t) = none) (steps : List Step) :
    s.Recounts id made base st₀ (Store.WaitsAnew id steps t) (.call (.clearJob id t) :: past)
      (s.after past st (.call (.clearJob id t))) := by
  refine h.next fun events _ _ => ?_
  rw [after_of_heeded hheed rfl, jobEvents, hheed]
  simp [Store.Waits, Store.rowsOf_clearJob, StoreCall.jobEvent?, stage]

end Surroundings

namespace Pass

open Act (Keeps)

variable {s : Surroundings} {id : String} {t : Step} {desk desk' : Desk}
  {Good : Document → Prop} {I : List Moment → Store → Prop}

/-! The parts of a pass that ends as completed. -/

/-- The pass goes on from a step only after the row of the step was deleted. -/
theorem conclude_cleared (hI : s.Maintains (Moment.OfStep Good id t) I)
    {message : Option String} (hdesk : Desk.Has Good I desk)
    (h : conclude id t message s desk = (.ok none, desk')) :
    ∃ before, desk' = before.next s (.call (.clearJob id t)) ∧ Desk.Has Good I before ∧
      s.refuses before.world.moments (.clearJob id t) = none := by
  have hnoted : Keeps s (Desk.Has Good I) (Act.onWorld (finish id t message)) :=
    .onWorld (.tell hI (.finish message))
  rcases conclude_ok h with ⟨-, -, hheed, rfl⟩ | ⟨reason, hsome, -⟩
  · exact ⟨_, rfl, (hnoted desk hdesk).1, hheed⟩
  · cases hsome

theorem runStep_cleared (hI : s.Maintains (Moment.OfStep Good id t) I) {handler : Handler}
    (hhandler : handler.Minds s Good) (hdesk : Desk.Has Good I desk)
    (h : runStep handler id t s desk = (.ok none, desk')) :
    ∃ before, desk' = before.next s (.call (.clearJob id t)) ∧ Desk.Has Good I before ∧
      s.refuses before.world.moments (.clearJob id t) = none := by
  obtain ⟨_, began, hbegin, h⟩ := Act.exists_of_bind_ok h
  obtain ⟨result, ended, hattempt, h⟩ := Act.exists_of_bind_ok h
  have hbegins : Keeps s (Desk.Has Good I) (begin id t) := begin_keeps hI
  have hbegan := (hbegins desk hdesk).1
  rw [hbegin] at hbegan
  have hended := (Keeps.attempt (hhandler I (hI.mono fun _ hm => .inl hm)) began hbegan).1
  rw [hattempt] at hended
  exact conclude_cleared hI hended h

variable {w w' : World}

/-- Asking which steps wait leaves what others have left. -/
theorem pending_next {steps : List Step} (h : pending id s w = (.ok steps, w')) :
    w' = w.next s (.call (.pendingSteps id)) ∧ w'.store = s.others w.moments w.store :=
  (Act.ask_eq_ok (fun _ _ => rfl) h).2

/-- A document is called ready exactly if no step of it is read as one that waits. -/
theorem settle_ok (h : settle id s w = (.ok (), w')) :
    ∃ jobs, (s.others w.moments w.store).pendingJobs id = .ok jobs ∧
      (jobs = [] ∧ w'.moments =
          .call (.setStatus id .ready) :: .call (.pendingSteps id) :: w.moments ∧
          w'.store.statusOf? id = some DocumentStatus.ready.name ∨
        jobs ≠ [] ∧ w'.moments = .call (.pendingSteps id) :: w.moments ∧
          w'.store = s.others w.moments w.store) := by
  obtain ⟨steps, w₁, hpending, h⟩ := Act.exists_of_bind_ok h
  obtain ⟨jobs, hjobs, rfl⟩ := pending_ok hpending
  obtain ⟨rfl, hstore⟩ := pending_next hpending
  refine ⟨jobs, hjobs, ?_⟩
  cases jobs with
  | nil =>
      obtain ⟨rfl, -, hperform⟩ := Act.tell_eq_ok h
      refine .inl ⟨rfl, rfl, ?_⟩
      obtain ⟨hdoc, hst⟩ := orNoDocument_ok hperform
      rw [← hst]
      exact Store.statusOf?_setStatus hdoc
  | cons job rest =>
      cases h
      exact .inr ⟨by simp, rfl, hstore⟩

/-- A pass that ends by itself has opened, and what it did with the steps is what it has done. -/
theorem process_ok {o : DocumentOutcome} (h : (process id s w).1 = .ok o) :
    ∃ d w₁ steps w₂ w₃,
      Act.ask (.getDocument id) (·.getDocument id) s w = (.ok d, w₁) ∧
      pending id s w₁ = (.ok steps, w₂) ∧ openScratch s w₂ = (.ok (), w₃) ∧
      (runWith (Handler.ofStep s.scratch) d id steps s w₃).1 = .ok o ∧
      ∀ I, World.Has I (process id s w).2 ↔
        World.Has I (runWith (Handler.ofStep s.scratch) d id steps s w₃).2 := by
  obtain ⟨ended, hrun⟩ : ∃ ended, process id s w = (.ok o, ended) := ⟨_, Prod.ext h rfl⟩
  obtain ⟨_, _, hs, hrest⟩ := Act.exists_of_bind_ok hrun
  cases hs
  obtain ⟨d, w₁, hget, hrest⟩ := Act.exists_of_bind_ok hrest
  obtain ⟨steps, w₂, hpending, hrest⟩ := Act.exists_of_bind_ok hrest
  obtain ⟨_, w₃, hopen, -⟩ := Act.exists_of_bind_ok hrest
  have hopened : process id s w = _ := run_of_opened hget hpending hopen
  refine ⟨d, w₁, steps, w₂, w₃, hget, hpending, hopen, ?_, fun I => ?_⟩
  · rw [← Act.followedBy_result _ closeScratch, ← hopened, h]
  · rw [hopened]
    exact has_followedBy_closeScratch _ _

/-- A pass that ends as completed has run all steps that waited, and settled the document. -/
theorem process_completed (h : (process id s w).1 = .ok .completed) :
    ∃ d w₁ steps w₂ w₃ desk w',
      Act.ask (.getDocument id) (·.getDocument id) s w = (.ok d, w₁) ∧
      pending id s w₁ = (.ok steps, w₂) ∧ openScratch s w₂ = (.ok (), w₃) ∧
      runSteps (Handler.ofStep s.scratch) id steps s ⟨w₃, d⟩ = (.ok none, desk) ∧
      settle id s desk.world = (.ok (), w') ∧
      (process id s w).2.moments = w'.moments ∧ (process id s w).2.store = w'.store := by
  obtain ⟨d, w₁, steps, w₂, w₃, hget, hpending, hopen, hwith, hsame⟩ := process_ok h
  rcases runWith_cases (Handler.ofStep s.scratch) d id steps s w₃ with
    ⟨i, desk, -, hends⟩ | ⟨t, reason, desk, -, hends⟩ | ⟨i, desk, w', -, -, hends⟩ |
    ⟨desk, w', hsteps, hsettle, hends⟩ <;> rw [hends] at hwith hsame
  case inr.inr.inr =>
    exact ⟨d, w₁, steps, w₂, w₃, desk, w', hget, hpending, hopen, hsteps, hsettle,
      (hsame fun past _ => past = w'.moments).mpr rfl, (hsame fun _ st => st = w'.store).mpr rfl⟩
  all_goals cases hwith

/-! What waits in the end. -/

variable {made : List Moment → Store → List Step} {base : List Moment} {st₀ : Store}

/-- After steps from all of which the pass goes on, a step waits exactly if others have made its
row. -/
theorem runSteps_waitsAnew (hfeeds : s.Feeds id made) {handlers : Step → Handler}
    (hhandlers : ∀ t, (handlers t).Minds s fun _ => True) {steps : List Step}
    (hdesk : ∀ t, World.Has (s.Recounts id made base st₀ (Store.WaitsAnew id steps t)) desk.world)
    (h : runSteps handlers id steps s desk = (.ok none, desk')) (t : Step) :
    World.Has (s.Recounts id made base st₀ (Store.WaitsAnew id [] t)) desk'.world := by
  induction steps generalizing desk with
  | nil =>
      cases h
      exact hdesk t
  | cons u rest ih =>
      obtain ⟨r, desk₁, hstep, h⟩ := Act.exists_of_bind_ok h
      cases r with
      | some reason => cases h
      | none =>
          refine ih (fun t => ?_) h
          by_cases ht : t = u
          · -- the row of the step itself was deleted, whatever it was before
            subst ht
            have hI : s.Maintains (Moment.OfStep (fun _ => True) id t)
                (s.Recounts id made base st₀ fun _ _ => True) :=
              fun past st m _ hpast => hpast.next fun _ _ => trivial
            obtain ⟨before, rfl, hbefore, hheed⟩ := runStep_cleared hI (hhandlers t)
              ⟨trivial, (hdesk t).imp fun _ _ => trivial⟩ hstep
            exact hbefore.2.clear hheed rest
          · have hI : s.Maintains (Moment.OfStep (fun _ => True) id u)
                (s.Recounts id made base st₀ (Store.WaitsAnew id (u :: rest) t)) :=
              (hfeeds.maintains_waitsAnew (u :: rest) t).mono fun _ hm => hm.sparesRow ht
            have hkept := (runStep_keeps (hhandlers u) hI desk ⟨trivial, hdesk t⟩).1.2
            rw [hstep] at hkept
            exact hkept.imp fun _ hanew hrest => hanew fun hmem =>
              (List.mem_cons.mp hmem).elim ht hrest

/-- When a pass has read which steps wait, those that do not wait exactly if others have made their
rows. -/
theorem pending_waitsAnew (hfeeds : s.Feeds id made) {steps : List Step} {w w₁ w₂ : World}
    {d : Document} (hget : Act.ask (.getDocument id) (·.getDocument id) s w = (.ok d, w₁))
    (hpending : pending id s w₁ = (.ok steps, w₂)) (t : Step) :
    World.Has (s.Recounts id made w.moments w.store (Store.WaitsAnew id steps t)) w₂ := by
  have hI : s.Maintains (Moment.Calls (StoreCall.SparesRow id t))
      (s.Recounts id made w.moments w.store fun events st =>
        stage t none events = some .pending → st.Waits id t) := hfeeds.maintains_made_waits t
  have hspares : ∀ c : StoreCall, c = .getDocument id ∨ c = .pendingSteps id → c.SparesRow id t := by
    rintro c (rfl | rfl) <;> exact ⟨by simp, by simp [StoreCall.job?]⟩
  have hw₁ := (Keeps.ask hI (hspares _ (.inl rfl)) (fun _ _ => rfl) (·.getDocument id) w
    ⟨[], rfl, rfl, fun h => by cases h⟩).1
  rw [hget] at hw₁
  have hw₂ := (pending_keeps hI (hspares _ (.inr rfl)) w₁ hw₁).1
  rw [hpending] at hw₂
  refine hw₂.imp fun events hmade ht => ⟨fun hwaits => absurd ?_ ht, hmade⟩
  obtain ⟨jobs, hjobs, rfl⟩ := pending_ok hpending
  rw [(pending_next hpending).2] at hwaits
  exact (Store.mem_pendingSteps_iff hjobs).mpr hwaits

/-- Before a document is settled it is not called ready. -/
theorem runSteps_unready {steps : List Step} {w w₁ w₂ w₃ : World} {d : Document}
    (hget : Act.ask (.getDocument id) (·.getDocument id) s w = (.ok d, w₁))
    (hpending : pending id s w₁ = (.ok steps, w₂)) (hopen : openScratch s w₂ = (.ok (), w₃))
    (hrun : runSteps (Handler.ofStep s.scratch) id steps s ⟨w₃, d⟩ = (.ok none, desk)) :
    Unready id w.moments desk.world.moments := by
  have hI := maintains_unready (s := s) id w.moments
  have hw₁ := (Keeps.ask hI (c := .getDocument id) (by simp) (fun _ _ => rfl) (·.getDocument id) w
    ⟨[], rfl, List.not_mem_nil⟩).1
  rw [hget] at hw₁
  have hasks : Keeps s (World.Has fun past _ => Unready id w.moments past) (pending id) :=
    pending_keeps hI (by simp)
  have hw₂ := (hasks w₁ hw₁).1
  rw [hpending] at hw₂
  have hw₃ := (openScratch_keeps (s := s) w₂ hw₂).1
  rw [hopen] at hw₃
  have hsteps : ∀ t ∈ steps, s.Maintains (Moment.OfStep (fun _ => True) id t)
      fun past _ => Unready id w.moments past := fun t _ => hI.mono fun _ hm => hm.ne_ready
  have hminds : ∀ t, (Handler.ofStep s.scratch t).Minds s fun _ => True :=
    fun t => Handler.ofStep_minds (Document.lasting_true _) _ t
  have hdesk := (runSteps_keeps hminds steps hsteps ⟨w₃, d⟩ ⟨trivial, hw₃⟩).1.2
  rw [hrun] at hdesk
  exact hdesk

/-- How a pass over a document has ended that ended as completed: what it did up to its last look at
the waiting steps, and which it saw there. -/
structure Concludes (made : List Moment → Store → List Step) (id : String) (s : Surroundings)
    (w : World) (since : List Moment) (jobs : List Job) : Prop where
  /-- What the last look has seen. -/
  seen : (s.others (since ++ w.moments) (s.replay w.moments w.store since)).pendingJobs id =
    .ok jobs
  /-- It has seen the steps whose rows others have made and the pass has not deleted. -/
  remade : ∀ t, t ∈ jobs.map (·.step) ↔
    stage t none ((made (since ++ w.moments) (s.replay w.moments w.store since)).map .made ++
      s.jobHistory id made w.moments w.store since) = some .pending
  /-- The document was not called ready before. -/
  unready : .call (.setStatus id .ready) ∉ since
  /-- It is called ready exactly if no step was seen. -/
  settled :
    jobs = [] ∧
        (process id s w).2.moments =
          .call (.setStatus id .ready) :: .call (.pendingSteps id) :: (since ++ w.moments) ∧
        (process id s w).2.store.statusOf? id = some DocumentStatus.ready.name ∨
      jobs ≠ [] ∧
        (process id s w).2.moments = .call (.pendingSteps id) :: (since ++ w.moments) ∧
        (process id s w).2.store =
          s.others (since ++ w.moments) (s.replay w.moments w.store since)

theorem process_concludes (hfeeds : s.Feeds id made) {w : World}
    (hdone : (process id s w).1 = .ok .completed) :
    ∃ since jobs, Concludes made id s w since jobs := by
  obtain ⟨d, w₁, steps, w₂, w₃, desk, w', hget, hpending, hopen, hrun, hsettle, hmoments,
    hstore⟩ := process_completed hdone
  have hopened : ∀ t, World.Has
      (s.Recounts id made w.moments w.store (Store.WaitsAnew id steps t)) w₃ := by
    intro t
    have hkept := (openScratch_keeps (s := s) w₂ (pending_waitsAnew hfeeds hget hpending t)).1
    rw [hopen] at hkept
    exact hkept
  have hminds : ∀ t, (Handler.ofStep s.scratch t).Minds s fun _ => True :=
    fun t => Handler.ofStep_minds (Document.lasting_true _) _ t
  have hanew : ∀ t, World.Has
      (s.Recounts id made w.moments w.store (Store.WaitsAnew id [] t)) desk.world :=
    runSteps_waitsAnew hfeeds hminds hopened hrun
  obtain ⟨since, hpast, hunready⟩ := runSteps_unready hget hpending hopen hrun
  obtain ⟨jobs, hjobs, hends⟩ := settle_ok hsettle
  -- all that is known of the desk is known of the same moments since the outset
  have hwaits : desk.world.store = s.replay w.moments w.store since ∧ ∀ t,
      desk.world.store.WaitsAnew id [] t (s.jobHistory id made w.moments w.store since) := by
    have hall : ∀ t, desk.world.store = s.replay w.moments w.store since ∧
        desk.world.store.WaitsAnew id [] t (s.jobHistory id made w.moments w.store since) := by
      intro t
      obtain ⟨since', hpast', hst, hwaits⟩ := hanew t
      obtain rfl := List.append_cancel_right (hpast.symm.trans hpast')
      exact ⟨hst, hwaits⟩
    exact ⟨(hall .hash).1, fun t => (hall t).2⟩
  refine ⟨since, jobs, ?_, fun t => ?_, hunready, ?_⟩
  · rw [← hwaits.1, ← hpast]
    exact hjobs
  · rw [Store.mem_pendingSteps_iff hjobs, ← hwaits.1, ← hpast]
    exact (hfeeds _ _).waitsAnew (hwaits.2 t) List.not_mem_nil
  · rw [← hwaits.1, ← hpast, hmoments, hstore]
    exact hends

/-- A pass announces its document as finished and ready exactly if it ends as completed.  Then a step
is read as waiting in the end exactly if others have made its row since the pass began and the pass
has not deleted it; and the pass has called the document ready exactly if no step is.  While others
make no rows, a pass that ends as completed has always called the document ready. -/
theorem process_ready_unless_remade (hfeeds : s.Feeds id made) (w : World) :
    Announces id s w.events (process id) w ∧
    ((process id s w).1 = .ok .completed → ∃ since jobs, Concludes made id s w since jobs) ∧
    ((∀ past st, made past st = []) → (process id s w).1 = .ok .completed →
      (process id s w).2.store.statusOf? id = some DocumentStatus.ready.name) := by
  refine ⟨process_announces id s w, process_concludes hfeeds, fun hmade hdone => ?_⟩
  obtain ⟨since, jobs, hend⟩ := process_concludes hfeeds hdone
  rcases hend.settled with ⟨-, -, hready⟩ | ⟨hne, -⟩
  · exact hready
  · obtain ⟨job, hjob⟩ := List.exists_mem_of_ne_nil jobs hne
    obtain ⟨first, later, earlier, hevents, -⟩ :=
      wasMade_of_stage ((hend.remade job.step).mp (List.mem_map_of_mem hjob))
    rw [hmade, List.map_nil, List.nil_append] at hevents
    have hmem : .made first ∈ s.jobHistory id made w.moments w.store since := by
      rw [hevents]
      exact List.mem_append_right later List.mem_cons_self
    exact absurd hmem (Surroundings.not_made_mem_jobHistory hmade since first)

/-! A document that is forced as soon as its last step has ended. -/

/-- The store after the document was forced, right after the row of its last step was deleted. -/
def reforced (past : List Moment) (st : Store) : Option Store :=
  if past.head? = some (.call (.clearJob "d" .ftsIndex)) then
    (st.forceDocument "d" .ftsIndex default).toOption
  else none

/-- Bare surroundings in which others do this, and nothing else. -/
def reforcing : Surroundings :=
  { Surroundings.bare with others := fun past st => (reforced past st).getD st }

/-- The first step of the rows that others make, where they make some. -/
def remade (past : List Moment) (st : Store) : List Step :=
  if (reforced past st).isSome then [.ftsIndex] else []

theorem feeds_reforcing : reforcing.Feeds "d" remade := by
  intro past st
  simp only [reforcing, remade]
  cases hforced : reforced past st with
  | none => exact .none
  | some st' =>
      simp only [reforced] at hforced
      split at hforced
      · cases hforce : st.forceDocument "d" .ftsIndex default with
        | error e =>
            rw [hforce] at hforced
            cases hforced
        | ok st₁ =>
            rw [hforce] at hforced
            cases hforced
            exact .force .none hforce
      · cases hforced

theorem opened_reforcing : ∃ w₁ w₂ w₃,
    Act.ask (.getDocument "d") (·.getDocument "d") reforcing busy = (.ok .stray, w₁) ∧
    pending "d" reforcing w₁ = (.ok [.ftsIndex], w₂) ∧
    openScratch reforcing w₂ = (.ok (), w₃) ∧
    let run := runSteps (Handler.ofStep "/scratch") "d" [.ftsIndex] reforcing ⟨w₃, .stray⟩
    run.1.toOption = some none ∧ run.2.world.moments = steppedCalls ∧
      run.2.world.store = (World.stray []).store := by
  obtain ⟨jobs, hjobs, hsteps⟩ := pendingJobs_busy
  let w₁ := busy.next reforcing (.call (.getDocument "d"))
  let w₂ := w₁.next reforcing (.call (.pendingSteps "d"))
  refine ⟨w₁, w₂, _, rfl, ?_, rfl, by decide +kernel⟩
  refine (Act.ask_of_go _ _ (fun _ _ => rfl) rfl).trans ?_
  change (((busy.store.pendingJobs "d").map _).mapError _, _) = _
  rw [hjobs, ← hsteps]
  rfl

/-- The last look of the pass sees the row that was made again. -/
theorem settle_reforcing {w : World} (hmoments : w.moments = steppedCalls)
    (hstore : w.store = (World.stray []).store) :
    ∃ w', settle "d" reforcing w = (.ok (), w') ∧ w'.store = busy.store := by
  have hothers : reforcing.others w.moments w.store = busy.store := by
    rw [hmoments, hstore]
    decide +kernel
  obtain ⟨jobs, hjobs, hsteps⟩ := pendingJobs_busy
  rw [← hothers] at hjobs
  have hasked : pending "d" reforcing w =
      (.ok [.ftsIndex], w.next reforcing (.call (.pendingSteps "d"))) := by
    refine (Act.ask_of_go _ _ (fun _ _ => rfl) rfl).trans ?_
    rw [hjobs, ← hsteps]
    rfl
  exact ⟨_, Act.bind_of_ok hasked, hothers⟩

/-- The pass runs to its end and leaves the row behind. -/
theorem process_reforcing : (process "d" reforcing busy).1 = .ok .completed ∧
    (process "d" reforcing busy).2.store = busy.store := by
  obtain ⟨w₁, w₂, w₃, hget, hpending, hopen, hdone, hmoments, hstore⟩ := opened_reforcing
  rcases hrun : runSteps (Handler.ofStep "/scratch") "d" [.ftsIndex] reforcing
    ⟨w₃, .stray⟩ with ⟨i | r, desk⟩
  · rw [hrun] at hdone
    cases hdone
  · rw [hrun] at hdone hmoments hstore
    cases hdone
    obtain ⟨w, hsettle, hleft⟩ := settle_reforcing hmoments hstore
    have hclosed := (runWith_of_none hrun).trans (Act.bind_of_ok hsettle)
    let ended : World := { w with events := .documentFinished "d" true :: w.events }
    have hprocess : process "d" reforcing busy =
        (.ok .completed, (closeScratch reforcing ended).2) := by
      refine (run_of_opened hget hpending hopen).trans ?_
      have hscratch : reforcing.scratch = "/scratch" := rfl
      simp only [Act.followedBy]
      rw [hscratch, hclosed]
      rfl
    rw [hprocess]
    exact ⟨rfl, hleft⟩

/-- The pass announces the document as finished and ready, and has come to its end as it should. -/
theorem process_ready_unless_remade_reforced :
    .documentFinished "d" true ∈ (process "d" reforcing busy).2.events ∧
      ∃ since jobs, Concludes remade "d" reforcing busy since jobs := by
  obtain ⟨⟨events, hevents, hannounced⟩, hends, -⟩ :=
    process_ready_unless_remade feeds_reforcing busy
  refine ⟨?_, hends process_reforcing.1⟩
  rw [hevents]
  exact List.mem_append_left _ (hannounced.mpr process_reforcing.1)

/-- A document that is not ready: the pass ends as completed and announces it as finished and ready,
while its last step waits again and its status has not changed. -/
theorem reforced_not_ready :
    reforcing.Feeds "d" remade ∧ busy.events = [] ∧
    (process "d" reforcing busy).1 = .ok .completed ∧
    .documentFinished "d" true ∈ (process "d" reforcing busy).2.events ∧
    (process "d" reforcing busy).2.store.Waits "d" .ftsIndex ∧
    (process "d" reforcing busy).2.store.statusOf? "d" = some DocumentStatus.processing.name := by
  obtain ⟨hdone, hstore⟩ := process_reforcing
  obtain ⟨events, hevents, hannounced⟩ := process_announces "d" reforcing busy
  refine ⟨feeds_reforcing, rfl, hdone, ?_, ?_, ?_⟩
  · rw [hevents]
    exact List.mem_append_left _ (hannounced.mpr hdone)
  · rw [hstore]
    decide
  · rw [hstore]
    decide

end Pass

end Docket
