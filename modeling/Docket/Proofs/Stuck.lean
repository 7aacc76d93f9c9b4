import Docket.Proofs.Deeds
import Docket.Proofs.Readiness

/-!
When a document gets stuck: it is in processing, and no step of it waits once the running rows are
reset, so that nothing takes it up again.  A pass or a quarantine that comes to its end leaves no
document stuck; one that is broken off may.
-/

namespace Docket

open Act (Keeps)

namespace Store

variable {s s' : Store} {id : String} {t : Step}

/-- A document is in processing, and no step of it waits once the running rows are reset. -/
def Stuck (s : Store) (id : String) : Prop :=
  s.statusOf? id = some DocumentStatus.processing.name ∧ ∀ t, ¬ s.resetRunning.2.Waits id t

theorem stuck_iff : s.Stuck id ↔
    s.statusOf? id = some DocumentStatus.processing.name ∧ ∀ t, ¬ s.Recoverable id t := by
  simp only [Stuck, waits_resetRunning]

theorem Recoverable.not_stuck (h : s.Recoverable id t) : ¬ s.Stuck id :=
  fun hstuck => (stuck_iff.mp hstuck).2 t h

theorem not_stuck_of_status {status : DocumentStatus}
    (hstatus : s.statusOf? id = some status.name) (hne : status ≠ .processing) :
    ¬ s.Stuck id := by
  intro hstuck
  have heq := Option.some.inj (hstatus.symm.trans hstuck.1)
  cases status with
  | processing => exact hne rfl
  | ready | error => exact absurd heq (by decide)

theorem stuck_congr (hrows : ∀ t, s.rowsOf id t = s'.rowsOf id t)
    (hstatus : s.statusOf? id = s'.statusOf? id) : s.Stuck id ↔ s'.Stuck id := by
  simp only [stuck_iff, hstatus, fun t => recoverable_congr (hrows t)]

/-- Others who make rows of a document take no hope away. -/
theorem Feeds.exists_recoverable {firsts : List Step} (hfeeds : Feeds id firsts s s')
    (h : ∃ t, s.Recoverable id t) : ∃ t, s'.Recoverable id t := by
  induction hfeeds with
  | none => exact h
  | spare _ hjobs ih =>
      obtain ⟨t, ht⟩ := ih h
      exact ⟨t, (recoverable_congr (by rw [rowsOf, hjobs, rowsOf])).mpr ht⟩
  | @force _ first _ _ _ _ _ hforce _ =>
      have hlast : .ftsIndex ∈ first.onward := by cases first <;> decide
      refine ⟨.ftsIndex, (stands_forceDocument hforce).recoverable_iff.mpr ?_⟩
      exact .inl (if_pos hlast)
  | queue _ hqueue _ =>
      refine ⟨.ftsIndex, (stands_queueDocument hqueue).recoverable_iff.mpr ?_⟩
      exact .inl (if_pos (by decide))

theorem Feeds.not_stuck {firsts : List Step} (hfeeds : Feeds id firsts s s')
    (hstatus : s'.statusOf? id = s.statusOf? id) (h : ¬ s.Stuck id) : ¬ s'.Stuck id := by
  rw [stuck_iff, not_and, not_forall] at h
  rintro hstuck
  obtain ⟨hprocessing, hnone⟩ := stuck_iff.mp hstuck
  obtain ⟨t, ht⟩ := h (hstatus ▸ hprocessing)
  obtain ⟨u, hu⟩ := hfeeds.exists_recoverable ⟨t, not_not.mp ht⟩
  exact hnone u hu

/-- A step has a row, or the last step waits: others may have taken the row of a step away, but only
while they made one of the last step. -/
def Holds (s : Store) (id : String) (t : Step) : Prop :=
  s.rowsOf id t ≠ [] ∨ t ≠ .ftsIndex ∧ s.Waits id .ftsIndex

theorem Waits.holds (h : s.Waits id t) : s.Holds id t := by
  obtain ⟨r, hr, -⟩ := h
  exact .inl (List.ne_nil_of_mem hr)

theorem holds_of_stands (h : s.Stands id .ftsIndex (some .pending)) : s.Holds id t := by
  have hwaits : s.Waits id .ftsIndex := h.waits_iff.mpr rfl
  by_cases ht : t = .ftsIndex
  · subst ht
    exact hwaits.holds
  · exact .inr ⟨ht, hwaits⟩

theorem Feeds.holds {firsts : List Step} (hfeeds : Feeds id firsts s s') (h : s.Holds id t) :
    s'.Holds id t := by
  induction hfeeds with
  | none => exact h
  | @spare _ _ st₁ st₂ _ hjobs ih =>
      have hrows : ∀ u, st₂.rowsOf id u = st₁.rowsOf id u := fun u => by
        rw [rowsOf, hjobs, rowsOf]
      rw [Holds, hrows, waits_congr (hrows _)]
      exact ih h
  | @force _ first _ _ _ _ _ hforce _ =>
      have hlast : .ftsIndex ∈ first.onward := by cases first <;> decide
      have hstands := stands_forceDocument (t := .ftsIndex) hforce
      rw [if_pos hlast] at hstands
      exact holds_of_stands hstands
  | queue _ hqueue _ => exact holds_of_stands (stands_queueDocument hqueue)

/-- A change of the row of a step leaves it its row. -/
theorem Holds.changeJob (h : s.Holds id t) {f : JobRow → JobRow} (hf : JobRow.KeepsKey f) :
    (s.changeJob id t f).Holds id t := by
  rcases h with hrow | ⟨ht, hwaits⟩
  · exact .inl fun hnil => hrow ((rowsOf_changeJob_eq_nil hf).mp hnil)
  · exact .inr ⟨ht, (waits_congr (rowsOf_changeJob_of_ne (Ne.symm ht) hf)).mpr hwaits⟩

/-- Letting a step wait again makes some step wait. -/
theorem Holds.requeueJob (h : s.Holds id t) : ∃ u, (s.requeueJob id t).Waits id u := by
  have hf : JobRow.KeepsKey JobRow.requeued := fun _ => ⟨rfl, rfl⟩
  rcases h with hrow | ⟨ht, hwaits⟩
  · obtain ⟨r, hr⟩ := List.exists_mem_of_ne_nil _ hrow
    refine ⟨t, r.requeued, ?_, rfl⟩
    rw [Store.requeueJob, rowsOf_changeJob hf]
    exact List.mem_map_of_mem hr
  · exact ⟨.ftsIndex, (waits_congr (rowsOf_changeJob_of_ne (Ne.symm ht) hf)).mpr hwaits⟩

/-- Among enough documents with waiting steps there is every one. -/
theorem Waits.mem_documentsPending (h : s.Waits id t) {limit : Nat}
    (hlimit : s.waitingDocuments.length ≤ limit) : id ∈ s.documentsPending limit := by
  obtain ⟨r, hr, hpending⟩ := h
  obtain ⟨hr, hfor⟩ := mem_rowsOf.mp hr
  rw [documentsPending, List.take_of_length_le (by simpa using hlimit), List.mem_mergeSort,
    waitingDocuments, List.mem_eraseDups]
  exact List.mem_map.mpr
    ⟨r, List.mem_filter.mpr ⟨hr, hpending⟩, (JobRow.isFor_iff.mp hfor).1⟩

/-- Where no step has two rows, the waiting steps are read in the order in which they run, each
once. -/
theorem pendingSteps_increasing_of_single {jobs : List Job}
    (hsingle : ∀ t, (s.rowsOf id t).length ≤ 1) (h : s.pendingJobs id = .ok jobs) :
    (jobs.map (·.step)).Pairwise fun t u => t.position < u.position := by
  obtain ⟨hperm, hsorted⟩ := readJobs_spec h
  rw [pendingRows_eq] at hperm
  have hnodup : (jobs.map (·.step.name)).Nodup := by
    refine List.nodup_iff_count_le_one.mpr fun name => ?_
    by_cases hname : name ∈ jobs.map (·.step.name)
    · obtain ⟨b, -, rfl⟩ := List.mem_map.mp hname
      rw [hperm.count_eq, List.count, List.countP_map, List.countP_filter, jobsFor,
        List.countP_filter, List.countP_eq_length_filter]
      refine Nat.le_trans (List.Sublist.length_le ?_) (hsingle b.step)
      rw [rowsOf_eq_filter]
      refine List.monotone_filter_right _ fun r hr => ?_
      simp only [Function.comp, Bool.and_eq_true, beq_iff_eq, decide_eq_true_eq] at hr
      exact JobRow.isFor_iff.mpr ⟨hr.2, hr.1.1⟩
    · rw [List.count_eq_zero.mpr hname]
      exact Nat.zero_le 1
  refine List.pairwise_map.mpr ?_
  refine (hsorted.and (List.pairwise_map.mp hnodup)).imp ?_
  rintro a b ⟨hle, hne⟩
  refine Nat.lt_of_le_of_ne hle fun heq => hne ?_
  rw [Step.position_injective heq]

end Store

namespace Surroundings

variable {s : Surroundings} {id : String} {t u : Step} {made : List Moment → Store → List Step}

/-- What another step brings about takes nothing from a step, unless it is the last one. -/
theorem Feeds.maintains_holds_of_ne (hfeeds : s.Feeds id made) (hne : t ≠ u)
    (hlast : u ≠ .ftsIndex) :
    s.Maintains (Moment.OfStep (fun _ => True) id u) fun _ st => st.Holds id t := by
  have hI : s.Maintains (Moment.Calls fun c => c.SparesRow id t ∧ c.SparesRow id .ftsIndex)
      fun _ st => st.Holds id t := by
    refine maintains_of_perform (fun past st h => (hfeeds past st).holds h) ?_
    rintro c now st st' ⟨hc, hclast⟩ hok h
    rw [Store.Holds, StoreCall.rowsOf_perform hc hok,
      Store.waits_congr (StoreCall.rowsOf_perform hclast hok)]
    exact h
  refine hI.mono fun m hm => ?_
  have hrow := hm.sparesRow hne
  have hlastRow := hm.sparesRow (Ne.symm hlast)
  cases m with
  | effect e => trivial
  | call c => exact ⟨hrow, hlastRow⟩

/-- What a step brings about under its job leaves it its row, as long as the row is not deleted. -/
theorem Feeds.maintains_holds (hfeeds : s.Feeds id made) (t : Step) :
    s.Maintains (fun m => m.OfStep (fun _ => True) id t ∧ m ≠ .call (.clearJob id t))
      fun _ st => st.Holds id t := by
  have hI : s.Maintains (Moment.Calls fun c =>
      (Moment.call c).OfStep (fun _ => True) id t ∧ c ≠ .clearJob id t)
      fun _ st => st.Holds id t := by
    refine maintains_of_perform (fun past st h => (hfeeds past st).holds h) ?_
    rintro c now st st' ⟨hc | ⟨_, ⟨⟩, hjob⟩, hclear⟩ hok h
    · have hrows : ∀ u, st'.rowsOf id u = st.rowsOf id u :=
        fun u => StoreCall.rowsOf_perform (hc.sparesRow id u) hok
      rw [Store.Holds, hrows, Store.waits_congr (hrows _)]
      exact h
    · cases c with
      | startJob | finishJob | requeueJob =>
          cases hjob
          cases hok
          exact h.changeJob fun _ => ⟨rfl, rfl⟩
      | clearJob =>
          cases hjob
          exact absurd rfl hclear
      | _ => cases hjob
  refine hI.mono fun m hm => ?_
  cases m with
  | effect e => trivial
  | call c => exact ⟨hm.1, fun heq => hm.2 (by rw [heq])⟩

/-- No step of a document ever gets a second row. -/
theorem Feeds.maintains_stands (hfeeds : s.Feeds id made) :
    s.Maintains (fun _ => True) fun _ st => ∀ t, ∃ outset, st.Stands id t outset := by
  intro past st m _ h t
  obtain ⟨outset, ht⟩ := h t
  exact ⟨stage t outset (s.jobEvents id made past st m), stands_after hfeeds ht⟩

end Surroundings

namespace Pass

variable {s : Surroundings} {id : String} {t : Step} {made : List Moment → Store → List Step}
  {desk desk' : Desk} {w : World}

/-- Where the pass cannot go on from a step, the step was let wait again. -/
theorem conclude_requeued {kind : Moment → Prop} {I : List Moment → Store → Prop}
    (hI : s.Maintains kind I) {message : Option String} {reason : String}
    (hfinish : kind (.call (.finishJob id t message))) (hdesk : World.Has I desk.world)
    (h : conclude id t message s desk = (.ok (some reason), desk')) :
    ∃ before : World, World.Has I before ∧
      s.refuses before.moments (.requeueJob id t) = none ∧
      desk'.world.store = s.after before.moments before.store (.call (.requeueJob id t)) := by
  have hnoted : Keeps s (Desk.Has (fun _ => True) I) (Act.onWorld (finish id t message)) :=
    .onWorld (.tell hI hfinish)
  rcases conclude_ok h with ⟨hnone, -⟩ | ⟨_, -, hheed, hstore⟩
  · cases hnone
  · exact ⟨_, (hnoted desk ⟨trivial, hdesk⟩).1.2, hheed, hstore⟩

/-- After a step from which the pass cannot go on some step waits. -/
theorem runStep_waits (hfeeds : s.Feeds id made) {handler : Handler}
    (hhandler : handler.Minds s fun _ => True) (hholds : desk.world.store.Holds id t)
    {reason : String} (h : runStep handler id t s desk = (.ok (some reason), desk')) :
    ∃ u, desk'.world.store.Waits id u := by
  have hI := hfeeds.maintains_holds t
  obtain ⟨_, began, hbegin, h⟩ := Act.exists_of_bind_ok h
  obtain ⟨result, ended, hattempt, h⟩ := Act.exists_of_bind_ok h
  have hbegins : Keeps s (Desk.Has (fun _ => True) fun _ st => st.Holds id t) (begin id t) :=
    .bind (.onWorld (.tell hI ⟨.start, by simp⟩)) fun _ _ => .onWorld (.report _)
  have hbegan := (hbegins desk ⟨trivial, hholds⟩).1
  rw [hbegin] at hbegan
  have hmind : Keeps s (Desk.Has (fun _ => True) fun _ st => st.Holds id t) handler := by
    refine hhandler _ (hI.mono fun m hm => ⟨.inl hm, ?_⟩)
    rintro rfl
    cases hm
  have hended := ((Keeps.attempt hmind) began hbegan).1
  rw [hattempt] at hended
  obtain ⟨before, hbefore, hheed, hstore⟩ :=
    conclude_requeued hI ⟨.finish _, by simp⟩ hended.2 h
  have hfed := (hfeeds before.moments before.store).holds hbefore
  rw [hstore, Surroundings.after_of_heeded hheed rfl]
  exact hfed.requeueJob

/-- After a run of steps from one of which the pass cannot go on some step waits. -/
theorem runSteps_waits (hfeeds : s.Feeds id made) {handlers : Step → Handler}
    (hhandlers : ∀ t, (handlers t).Minds s fun _ => True) {steps : List Step}
    (hsorted : steps.Pairwise fun t u => t.position < u.position)
    (hholds : ∀ t ∈ steps, desk.world.store.Holds id t) {reason : String}
    (h : runSteps handlers id steps s desk = (.ok (some (t, reason)), desk')) :
    ∃ u, desk'.world.store.Waits id u := by
  induction steps generalizing desk with
  | nil => cases h
  | cons u rest ih =>
      obtain ⟨hbehind, hrest⟩ := List.pairwise_cons.mp hsorted
      obtain ⟨r, desk₁, hstep, h⟩ := Act.exists_of_bind_ok h
      cases r with
      | some why =>
          cases h
          exact runStep_waits hfeeds (hhandlers _) (hholds _ List.mem_cons_self) hstep
      | none =>
          refine ih hrest (fun v hv => ?_) h
          -- a step with another behind it is not the last
          have hlt := hbehind v hv
          have hne : v ≠ u := fun heq => absurd (heq ▸ hlt) (Nat.lt_irrefl _)
          have hlast : u ≠ .ftsIndex := by
            rintro rfl
            cases v <;> exact absurd hlt (by decide)
          have hkept := (runStep_keeps (hhandlers u) (hfeeds.maintains_holds_of_ne hne hlast)
            desk ⟨trivial, hholds v (List.mem_cons_of_mem u hv)⟩).1.2
          rw [hstep] at hkept
          exact hkept

/-- When a pass ends as deferred some step of its document waits. -/
theorem process_deferred_waits (hfeeds : s.Feeds id made)
    (hsingle : ∀ t, ∃ outset, w.store.Stands id t outset) {reason : String}
    (h : (process id s w).1 = .ok (.deferred t reason)) :
    ∃ u, (process id s w).2.store.Waits id u := by
  obtain ⟨d, w₁, steps, w₂, w₃, hget, hpending, hopen, hwith, hsame⟩ := process_ok h
  have hminds : ∀ t, (Handler.ofStep s.scratch t).Minds s fun _ => True :=
    fun t => Handler.ofStep_minds (Document.lasting_true _) _ t
  have hw₁ := (Keeps.ask hfeeds.maintains_stands (c := .getDocument id) trivial
    (fun _ _ => rfl) (·.getDocument id) w hsingle).1
  rw [hget] at hw₁
  obtain ⟨jobs, hjobs, rfl⟩ := pending_ok hpending
  obtain ⟨-, hread⟩ := pending_next hpending
  have hsorted := Store.pendingSteps_increasing_of_single (fun t => by
    obtain ⟨outset, ht⟩ := hw₁ t
    exact ((hfeeds _ _).stands ht).length_le) hjobs
  have hholds : ∀ t ∈ jobs.map (·.step), w₃.store.Holds id t := by
    intro t ht
    have hw₂ : World.Has (fun _ st => st.Holds id t) w₂ := by
      rw [World.Has, hread]
      exact ((Store.mem_pendingSteps_iff hjobs).mp ht).holds
    have hw₃ := (openScratch_keeps (s := s) w₂ hw₂).1
    rw [hopen] at hw₃
    exact hw₃
  rcases runWith_cases (Handler.ofStep s.scratch) d id (jobs.map (·.step)) s w₃ with
    ⟨i, desk, -, hends⟩ | ⟨u, why, desk, hsteps, hends⟩ | ⟨i, desk, w', -, -, hends⟩ |
    ⟨desk, w', -, -, hends⟩ <;> rw [hends] at hwith hsame
  case inr.inl =>
    have hwaits : ∃ u, desk.world.store.Waits id u :=
      runSteps_waits hfeeds hminds hsorted hholds hsteps
    exact (hsame fun _ st => ∃ u, st.Waits id u).mpr hwaits
  all_goals cases hwith

/-- A pass that comes to its end leaves its document not stuck. -/
theorem process_not_stuck (hfeeds : s.Feeds id made)
    (hsingle : ∀ t, ∃ outset, w.store.Stands id t outset) {o : DocumentOutcome}
    (h : (process id s w).1 = .ok o) : ¬ (process id s w).2.store.Stuck id := by
  cases o with
  | deferred t reason =>
      obtain ⟨u, hwaits⟩ := process_deferred_waits hfeeds hsingle h
      exact hwaits.recoverable.not_stuck
  | completed =>
      obtain ⟨since, jobs, hend⟩ := process_concludes hfeeds h
      rcases hend.settled with ⟨-, -, hready⟩ | ⟨hne, -, hstore⟩
      · exact Store.not_stuck_of_status hready (by decide)
      · obtain ⟨job, hjob⟩ := List.exists_mem_of_ne_nil jobs hne
        have hwaits := (Store.mem_pendingSteps_iff hend.seen).mp (List.mem_map_of_mem hjob)
        rw [← hstore] at hwaits
        exact hwaits.recoverable.not_stuck

/-- A document that was taken out of processing is in error. -/
theorem quarantine_status {reason : String} (h : (quarantine id reason s w).1 = .ok ()) :
    (quarantine id reason s w).2.store.statusOf? id = some DocumentStatus.error.name := by
  obtain ⟨w', hrun⟩ : ∃ w', quarantine id reason s w = (.ok (), w') := ⟨_, Prod.ext h rfl⟩
  rw [hrun]
  obtain ⟨_, w₁, -, hrun⟩ := Act.exists_of_bind_ok hrun
  obtain ⟨d, w₂, hget, hrun⟩ := Act.exists_of_bind_ok hrun
  have hid := (status_of_getDocument (Act.ask_eq_ok (fun _ _ => rfl) hget).1).1
  obtain ⟨-, -, hperform⟩ := Act.tell_eq_ok hrun
  obtain ⟨hdoc, hst⟩ := orNoDocument_ok hperform
  rw [← hst, ← hid]
  exact Store.statusOf?_updateDocument_self hdoc

end Pass

/-- What is done to others takes no hope away. -/
theorem Surroundings.OnlyFeeds.maintains_not_stuck {s : Surroundings} {id : String}
    {made : List Moment → Store → List Step} (hfeeds : s.OnlyFeeds id made) :
    s.Maintains (Moment.Calls (StoreCall.Leaves id)) fun _ st => ¬ st.Stuck id := by
  refine maintains_of_perform
    (fun past st h => (hfeeds.feeds past st).not_stuck (hfeeds.status past st) h) ?_
  intro c now st st' hc hok h
  have hrows : ∀ t, st'.rowsOf id t = st.rowsOf id t := fun t => by
    rw [Store.rowsOf, StoreCall.jobsFor_perform hc.1 hok, Store.rowsOf]
  rwa [Store.stuck_congr hrows (StoreCall.statusOf?_perform_of_ne hc.2 hok)]

namespace Deed

variable {id : String} {made : Surroundings → List Moment → Store → List Step} {w : World}
  {deed : Deed} {deeds : List Deed}

/-- What is done to a document is broken off. -/
def BreaksOff (id : String) (w : World) : Deed → Prop
  | .pass i s => i = id ∧ ∃ why, (Pass.process i s w).1 = .error why
  | .quarantine i reason s => i = id ∧ ∃ why, (Pass.quarantine i reason s w).1 = .error why
  | _ => False

/-- A document that is let wait is not stuck, and others are no more than they were. -/
theorem not_stuck_of_made {i : String} {st : Store} {r : Except StoreError Store}
    (hmade : ∀ st', r = .ok st' → i = id → st'.Stands id .ftsIndex (some .pending))
    (hother : ∀ st', r = .ok st' → i ≠ id → ∀ t, st'.rowsOf id t = st.rowsOf id t)
    (hstatus : ∀ st', r = .ok st' → st'.statusOf? id = st.statusOf? id)
    (h : ¬ st.Stuck id) : ¬ (r.toOption.getD st).Stuck id := by
  cases r with
  | error e => exact h
  | ok st' =>
      by_cases hi : i = id
      · exact ((hmade st' rfl hi).recoverable_iff.mpr (.inl rfl)).not_stuck
      · exact mt (Store.stuck_congr (hother st' rfl hi) (hstatus st' rfl)).mp h

/-- A deed makes a document stuck only if it is a pass over it or a quarantine of it that is broken
off. -/
theorem breaksOff_of_stuck (hfair : deed.Fair id made)
    (hsingle : ∀ t, ∃ outset, w.store.Stands id t outset) (h : ¬ w.store.Stuck id)
    (hstuck : (deed.apply w).store.Stuck id) : deed.BreaksOff id w := by
  cases deed with
  | queue i now =>
      refine absurd hstuck (not_stuck_of_made (i := i) (fun st' hqueue hi => ?_)
        (fun st' hqueue hi t => ?_) (fun st' hqueue => ?_) h)
      · subst hi
        exact Store.stands_queueDocument hqueue
      · exact Store.rowsOf_queueDocument_of_ne (Ne.symm hi) hqueue
      · exact Store.statusOf?_queueDocument hqueue
  | force i first now =>
      refine absurd hstuck (not_stuck_of_made (i := i) (fun st' hforce hi => ?_)
        (fun st' hforce hi t => ?_) (fun st' hforce => ?_) h)
      · subst hi
        have hlast : .ftsIndex ∈ first.onward := by cases first <;> decide
        have hstands := Store.stands_forceDocument (t := .ftsIndex) hforce
        rwa [if_pos hlast] at hstands
      · exact Store.rowsOf_forceDocument_of_ne (Ne.symm hi) hforce
      · exact Store.statusOf?_forceDocument hforce
  | pass i s =>
      by_cases hi : i = id
      · subst hi
        cases hresult : (Pass.process i s w).1 with
        | error why => exact ⟨rfl, why, hresult⟩
        | ok o => exact absurd hstuck (Pass.process_not_stuck hfair.feeds hsingle hresult)
      · have hI := hfair.maintains_not_stuck.mono
          fun m (hm : m.OfOwnPass i) => hm.leaves (Ne.symm hi)
        exact absurd hstuck (Pass.process_keeps_own hfair.registry hI w h).1
  | quarantine i reason s =>
      by_cases hi : i = id
      · subst hi
        cases hresult : (Pass.quarantine i reason s w).1 with
        | error why => exact ⟨rfl, why, hresult⟩
        | ok u =>
            exact absurd hstuck
              (Store.not_stuck_of_status (Pass.quarantine_status hresult) (by decide))
      · have hI := hfair.maintains_not_stuck.mono
          fun m (hm : m.OfQuarantine i) => hm.leaves (Ne.symm hi)
        exact absurd hstuck (Pass.quarantine_keeps hI w h).1
  | reset =>
      refine absurd hstuck fun hstuck => h ?_
      obtain ⟨hprocessing, hnone⟩ := Store.stuck_iff.mp hstuck
      refine Store.stuck_iff.mpr ⟨hprocessing, fun t ht => hnone t ?_⟩
      exact (Store.waits_resetRunning.mpr ht).recoverable

/-- The deed that has made a document stuck, which was stuck ever since. -/
theorem exists_breaksOff (hfair : ∀ deed ∈ deeds, deed.Fair id made)
    (hsingle : ∀ t, ∃ outset, w.store.Stands id t outset) (h : ¬ w.store.Stuck id)
    (hstuck : (after w deeds).store.Stuck id) :
    ∃ later deed earlier, deeds = later ++ deed :: earlier ∧
      ¬ (after w earlier).store.Stuck id ∧ deed.BreaksOff id (after w earlier) ∧
      ∀ newer older, later = newer ++ older →
        (after w (older ++ deed :: earlier)).store.Stuck id := by
  induction deeds with
  | nil => exact absurd hstuck h
  | cons deed earlier ih =>
      have hearlier : ∀ d ∈ earlier, d.Fair id made :=
        fun d hd => hfair d (List.mem_cons_of_mem deed hd)
      by_cases hbefore : (after w earlier).store.Stuck id
      · obtain ⟨later, d, first, rfl, hnot, hbreaks, hsince⟩ := ih hearlier hbefore
        refine ⟨deed :: later, d, first, rfl, hnot, hbreaks, fun newer older hsplit => ?_⟩
        cases newer with
        | nil =>
            rw [List.nil_append] at hsplit
            rw [← hsplit]
            exact hstuck
        | cons e newer => exact hsince newer older (List.cons.inj hsplit).2
      · refine ⟨[], deed, earlier, rfl, hbefore, ?_, fun newer older hsplit => ?_⟩
        · refine breaksOff_of_stuck (hfair deed List.mem_cons_self) (fun t => ?_) hbefore hstuck
          obtain ⟨outset, ht⟩ := hsingle t
          exact ⟨_, stands_after hearlier ht⟩
        · obtain ⟨rfl, rfl⟩ := List.append_eq_nil_iff.mp hsplit.symm
          exact hstuck

/-- Whatever is done to documents after one of them was let wait, and whichever calls fail: the
document is stuck exactly if it is in processing and the events have left none of its steps waiting
or running; it has got stuck through a pass over it or a quarantine of it that was broken off, and
was so ever since; and if it is in processing and not stuck, it is among the documents with waiting
steps once the running rows are reset. -/
theorem stuck_by_breaking_off {st : Store} {now : Calendar.Instant}
    (hadded : st.queueDocument id now = .ok w.store)
    (hfair : ∀ deed ∈ deeds, deed.Fair id made) :
    ((after w deeds).store.Stuck id ↔
      (after w deeds).store.statusOf? id = some DocumentStatus.processing.name ∧
      ∀ t, stage t (some .pending) (history id made w deeds) ≠ some .pending ∧
        stage t (some .pending) (history id made w deeds) ≠ some .running) ∧
    ((after w deeds).store.Stuck id →
      ∃ later deed earlier, deeds = later ++ deed :: earlier ∧
        ¬ (after w earlier).store.Stuck id ∧ deed.BreaksOff id (after w earlier) ∧
        ∀ newer older, later = newer ++ older →
          (after w (older ++ deed :: earlier)).store.Stuck id) ∧
    ((after w deeds).store.statusOf? id = some DocumentStatus.processing.name →
      ¬ (after w deeds).store.Stuck id → ∀ limit,
      (after w deeds).store.resetRunning.2.waitingDocuments.length ≤ limit →
        id ∈ (after w deeds).store.resetRunning.2.documentsPending limit) := by
  have hstands : ∀ t, w.store.Stands id t (some .pending) := by
    intro t
    have ht : t ∈ Step.hash.onward := by cases t <;> decide
    have h := Store.stands_queueDocument (t := t) hadded
    rwa [if_pos ht] at h
  refine ⟨?_, fun hstuck => ?_, fun hprocessing hnot limit hlimit => ?_⟩
  · rw [Store.stuck_iff]
    refine and_congr_right fun _ => forall_congr' fun t => ?_
    rw [(stands_after hfair (hstands t)).recoverable_iff, not_or]
  · refine exists_breaksOff hfair (fun t => ⟨_, hstands t⟩) ?_ hstuck
    exact ((hstands .hash).recoverable_iff.mpr (.inl rfl)).not_stuck
  · have hwaits : ∃ t, (after w deeds).store.resetRunning.2.Waits id t := by
      by_contra hnone
      exact hnot ⟨hprocessing, not_exists.mp hnone⟩
    obtain ⟨t, ht⟩ := hwaits
    exact ht.mem_documentsPending hlimit

/-! A document whose quarantine is broken off. -/

/-- Bare surroundings in which the store refuses to read a document. -/
def unreadable : Surroundings :=
  { Surroundings.bare with
    refuses := fun _ c =>
      match c with
      | .getDocument _ => some (.corrupt "refused")
      | _ => none }

/-- A world in which a document waits for every step. -/
def added : World := .stray (Step.all.map fun t => .pending "d" t default)

theorem queueDocument_added : (World.stray []).store.queueDocument "d" default = .ok added.store :=
  rfl

/-- What is done to it: it is taken out of processing, after its rows were deleted. -/
def brokenOff : List Deed := [.quarantine "d" "fault" unreadable]

theorem fair_brokenOff : ∀ deed ∈ brokenOff, deed.Fair "d" fun _ _ _ => [] := by
  intro deed hdeed
  obtain rfl := List.mem_singleton.mp hdeed
  exact ⟨fun _ _ => .none, fun _ _ => rfl, Registry.builtin_keepsIdentity⟩

theorem after_brokenOff : (after added brokenOff).store = (World.stray []).store := by
  decide +kernel

/-- The quarantine has made the document stuck. -/
theorem stuck_by_breaking_off_quarantine :
    ∃ later deed earlier, brokenOff = later ++ deed :: earlier ∧
      ¬ (after added earlier).store.Stuck "d" ∧ deed.BreaksOff "d" (after added earlier) ∧
      ∀ newer older, later = newer ++ older →
        (after added (older ++ deed :: earlier)).store.Stuck "d" := by
  refine (stuck_by_breaking_off queueDocument_added fair_brokenOff).2.1 ?_
  rw [after_brokenOff]
  refine Store.stuck_iff.mpr ⟨by decide, fun t => ?_⟩
  rintro ⟨r, hr, -⟩
  cases hr

/-- A document that is stuck: it was added, its quarantine has deleted its rows and could not read
it, so that it is still in processing, and no document is left with waiting steps. -/
theorem quarantine_broken_off_sticks :
    (World.stray []).store.queueDocument "d" default = .ok added.store ∧
    (∀ deed ∈ brokenOff, deed.Fair "d" fun _ _ _ => []) ∧
    (after added brokenOff).store.statusOf? "d" = some DocumentStatus.processing.name ∧
    (∀ t, ¬ (after added brokenOff).store.resetRunning.2.Waits "d" t) ∧
    ∀ limit, (after added brokenOff).store.resetRunning.2.documentsPending limit = [] := by
  refine ⟨queueDocument_added, fair_brokenOff, ?_, fun t => ?_, fun limit => ?_⟩
  · rw [after_brokenOff]
    decide
  · rw [after_brokenOff]
    rintro ⟨r, hr, -⟩
    cases hr
  · rw [after_brokenOff]
    simp [Store.documentsPending, Store.waitingDocuments, Store.resetRunning, World.stray]

end Deed

end Docket
