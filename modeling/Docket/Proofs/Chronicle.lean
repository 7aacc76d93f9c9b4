import Docket.Proofs.Announcing
import Docket.Proofs.Catalog
import Docket.Proofs.Outcome

/-!
The events of a pass tell the run.  For each step that was started there are two lines, one right
behind the other, and the second says what the row of the step said when its end was noted; the last
line says whether the pass was completed.
-/

namespace Docket

open Act (Keeps)

/-- No call of the pipeline makes a document or takes one away. -/
theorem StoreCall.hasDocument_perform {c : StoreCall} {now : Calendar.Instant} {st st' : Store}
    (h : c.perform now st = .ok st') (id : String) : st'.hasDocument id = st.hasDocument id := by
  cases c with
  | setStatus | setContent | updateDocument =>
      obtain ⟨-, rfl⟩ := orNoDocument_ok h
      exact Store.hasDocument_changeDocument (by intro r; rfl) id
  | updateWithEntries d =>
      obtain ⟨r, hr, h⟩ := exists_of_bind_ok h
      obtain ⟨-, rfl⟩ := orNoDocument_ok h
      have hupdated : (st.updateDocument d now).2.hasDocument id = st.hasDocument id :=
        Store.hasDocument_changeDocument (by intro r; rfl) id
      rcases updateWithEntries_ok hr with heq | ⟨entries, heq⟩
      · rw [heq]
      · rw [heq]
        exact hupdated
  | _ =>
      cases h
      rfl

theorem StoreCall.ofPass_of_job {c : StoreCall} {id : String} {t : Step}
    (hjob : c.job? = some (id, t)) : c.OfPass id := by
  cases c <;> cases hjob <;> rfl

/-- The process does not stop, no call that a pass over a document makes itself is refused, and
others neither write the jobs of the document nor take it away. -/
structure Surroundings.Serves (s : Surroundings) (id : String) : Prop where
  goes : ∀ past, s.stops past = false
  heeds : ∀ past c, c.OfPass id → s.refuses past c = none
  spares : s.Spares id
  keeps : ∀ past st, st.hasDocument id = true → (s.others past st).hasDocument id = true

theorem Surroundings.bare_serves (id : String) : Surroundings.bare.Serves id where
  goes _ := rfl
  heeds _ _ _ := rfl
  spares _ _ := rfl
  keeps _ _ h := h

/-! The rows that a pass has still to see to. -/

/-- A document whose waiting rows are all of some steps, each of which has one row. -/
structure Store.Awaits (st : Store) (id : String) (left : List Step) : Prop where
  rows : ∀ t ∈ left, ∃ r, st.rowsOf id t = [r]
  waits : ∀ r ∈ st.jobsFor id, r.isPending = true → ∃ t ∈ left, r.isFor id t = true

namespace Store.Awaits

variable {st st' : Store} {id : String} {t : Step} {left : List Step}

theorem congr (h : st.Awaits id left) (hjobs : st'.jobsFor id = st.jobsFor id) :
    st'.Awaits id left where
  rows t ht := by
    rw [rowsOf, hjobs]
    exact h.rows t ht
  waits r hr hpending := h.waits r (hjobs ▸ hr) hpending

/-- A change of the row of a step that is still to be seen to. -/
theorem changeJob (h : st.Awaits id left) (ht : t ∈ left) {f : JobRow → JobRow}
    (hf : JobRow.KeepsKey f) : (st.changeJob id t f).Awaits id left where
  rows u hu := by
    obtain ⟨r, hr⟩ := h.rows u hu
    rw [rowsOf_changeJob_eq hf, hr]
    split
    · exact ⟨f r, rfl⟩
    · exact ⟨r, rfl⟩
  waits r hr hpending := by
    rw [jobsFor_changeJob hf] at hr
    obtain ⟨r₀, hr₀, rfl⟩ := List.mem_map.mp hr
    cases hfor : r₀.isFor id t with
    | true => exact ⟨t, ht, by simp [hfor, hf.isFor]⟩
    | false =>
        simp only [hfor, Bool.false_eq_true, ↓reduceIte] at hpending ⊢
        exact h.waits r₀ hr₀ hpending

/-- The row of a step that was seen to is deleted. -/
theorem clearJob (h : st.Awaits id (t :: left)) (ht : t ∉ left) :
    (st.clearJob id t).Awaits id left where
  rows u hu := by
    have hne : u ≠ t := fun heq => ht (heq ▸ hu)
    rw [rowsOf_clearJob_of_ne hne]
    exact h.rows u (List.mem_cons_of_mem t hu)
  waits r hr hpending := by
    rw [jobsFor_clearJob, List.mem_filter] at hr
    obtain ⟨u, hu, hfor⟩ := h.waits r hr.1 hpending
    rcases List.mem_cons.mp hu with rfl | hu
    · simp [hfor] at hr
    · exact ⟨u, hu, hfor⟩

/-- The steps that are read as those that wait are all that there is to see to. -/
theorem of_pendingJobs {jobs : List Job} (hkeyed : st.Keyed)
    (h : st.pendingJobs id = .ok jobs) : st.Awaits id (jobs.map (·.step)) where
  rows t ht := by
    obtain ⟨r, hr, -, hfor⟩ := (mem_pendingSteps h).mp ht
    have hmem : r ∈ st.rowsOf id t := List.mem_filter.mpr ⟨hr, hfor⟩
    have hone : (st.rowsOf id t).length ≤ 1 := by
      have hnodup : ((st.rowsOf id t).map (·.step)).Nodup :=
        (hkeyed.nodup_steps id).sublist (List.filter_sublist.map _)
      have hconst : (st.rowsOf id t).map (·.step) =
          List.replicate (st.rowsOf id t).length t.name := by
        rw [← List.map_const', List.map_inj_left]
        intro u hu
        exact (JobRow.isFor_iff.mp (mem_rowsOf.mp hu).2).2
      rw [hconst, List.nodup_replicate] at hnodup
      exact hnodup
    exact List.length_eq_one_iff.mp
      (Nat.le_antisymm hone (List.length_pos_of_mem hmem))
  waits r hr hpending := (isPending_iff hkeyed h hr).mp hpending

/-- Where there is nothing left to see to, no step is read as one that waits. -/
theorem pendingJobs_of_nil (h : st.Awaits id []) : st.pendingJobs id = .ok [] := by
  have hnone : (st.jobsFor id).filter (·.isPending) = [] := by
    rw [List.filter_eq_nil_iff]
    intro r hr hpending
    obtain ⟨t, ht, -⟩ := h.waits r hr hpending
    simp at ht
  rw [pendingJobs, pendingRows_eq, hnone, readJobs_nil]

end Store.Awaits

/-! The past of a pass. -/

/-- Since some past the end of a step was noted, and its row was left with this message. -/
def Surroundings.Notes (s : Surroundings) (id : String) (base : List Moment) (st₀ : Store)
    (t : Step) (message : Option String) (since : List Moment) : Prop :=
  ∃ later earlier, since = later ++ .call (.finishJob id t message) :: earlier ∧
    ((s.replay base st₀ (.call (.finishJob id t message) :: earlier)).rowsOf id t).map
      (·.message) = [message]

theorem Surroundings.Notes.cons {s : Surroundings} {id : String} {base : List Moment}
    {st₀ : Store} {t : Step} {message : Option String} {since : List Moment}
    (h : s.Notes id base st₀ t message since) (m : Moment) :
    s.Notes id base st₀ t message (m :: since) := by
  obtain ⟨later, earlier, rfl, hrow⟩ := h
  exact ⟨m :: later, earlier, rfl, hrow⟩

/-- Since some past just these steps were started, and of these the end was noted. -/
def Surroundings.Chronicle (s : Surroundings) (id : String) (base : List Moment) (st₀ : Store)
    (outcome : Step → Except PipelineError Unit) (started ended : List Step)
    (past : List Moment) (st : Store) : Prop :=
  ∃ since, past = since ++ base ∧ st = s.replay base st₀ since ∧
    startedSteps id since = started ∧
    ∀ t ∈ ended, s.Notes id base st₀ t (Pass.note (outcome t)) since

namespace Surroundings

variable {s : Surroundings} {id : String} {base past : List Moment} {st₀ st : Store} {t : Step}
  {outcome : Step → Except PipelineError Unit} {started ended left : List Step} {m : Moment}

theorem Chronicle.next (h : s.Chronicle id base st₀ outcome started ended past st) (m : Moment) :
    s.Chronicle id base st₀ outcome (started ++ (m.started? id).toList) ended (m :: past)
      (s.after past st m) := by
  obtain ⟨since, rfl, rfl, rfl, hended⟩ := h
  exact ⟨m :: since, rfl, rfl, startedSteps_cons id m since, fun t ht => (hended t ht).cons m⟩

theorem Chronicle.next_of_none (h : s.Chronicle id base st₀ outcome started ended past st)
    (hm : m.started? id = none) :
    s.Chronicle id base st₀ outcome started ended (m :: past) (s.after past st m) := by
  simpa [hm] using h.next m

namespace Serves

theorem after_eq (hserves : s.Serves id) {c : StoreCall} {st' : Store} (hc : c.OfPass id)
    (hperform : c.perform (s.clock past) (s.others past st) = .ok st') :
    s.after past st (.call c) = st' :=
  after_of_heeded (hserves.heeds past c hc) hperform

theorem ask_eq (hserves : s.Serves id) {c : StoreCall} {α : Type}
    {ask : Store → Except StoreError α} {a : α} {w : World} (hc : c.OfPass id)
    (hasks : ∀ now st, c.perform now st = .ok st)
    (ha : ask (s.others w.moments w.store) = .ok a) :
    Act.ask c ask s w = (.ok a, w.next s (.call c)) := by
  rw [Act.ask_of_go c ask hasks (hserves.goes _), hserves.heeds _ c hc]
  simp only [ha]
  rfl

/-- A call that writes a job of the document is carried out. -/
theorem tell_job (hserves : s.Serves id) {c : StoreCall} (hjob : c.job? = some (id, t))
    (desk : Desk) : Act.onWorld (Act.tell c) s desk = (.ok (), desk.next s (.call c)) := by
  have hc := StoreCall.ofPass_of_job hjob
  rcases Act.onWorld_tell_cases s hjob desk with ⟨hstop, -⟩ | ⟨-, ⟨e, he, -⟩⟩ | ⟨-, -, h⟩
  · simp [hserves.goes] at hstop
  · simp [hserves.heeds _ c hc] at he
  · exact h

theorem hasDocument_after (hserves : s.Serves id) (m : Moment)
    (hdoc : st.hasDocument id = true) : (s.after past st m).hasDocument id = true := by
  cases m with
  | call c =>
      rcases s.after_call_cases past st c with heq | ⟨-, hok⟩
      · rw [heq]
        exact hserves.keeps past st hdoc
      · rw [StoreCall.hasDocument_perform hok]
        exact hserves.keeps past st hdoc
  | effect e => exact hdoc

/-- What others write before a call is no row of the document. -/
theorem awaits_others (hserves : s.Serves id) (h : st.Awaits id left) :
    (s.others past st).Awaits id left :=
  h.congr (hserves.spares past st)

theorem awaits_after (hserves : s.Serves id) (hm : m.Calls (StoreCall.Spares id))
    (h : st.Awaits id left) : (s.after past st m).Awaits id left :=
  h.congr (hserves.spares.maintains_jobsFor (st.jobsFor id) past st m hm rfl)

/-- A call that changes the row of a step that is still to be seen to. -/
theorem awaits_change (hserves : s.Serves id) {c : StoreCall}
    {f : Calendar.Instant → JobRow → JobRow} (hjob : c.job? = some (id, t)) (ht : t ∈ left)
    (hperform : ∀ now st, c.perform now st = .ok (st.changeJob id t (f now)))
    (hf : ∀ now, JobRow.KeepsKey (f now)) (h : st.Awaits id left) :
    (s.after past st (.call c)).Awaits id left := by
  rw [hserves.after_eq (StoreCall.ofPass_of_job hjob) (hperform _ _)]
  exact (hserves.awaits_others h).changeJob ht (hf _)

/-- The row of a step holds the message that the end of the step was noted with. -/
theorem message_of_finish (hserves : s.Serves id) (message : Option String)
    (hrow : ∃ r, st.rowsOf id t = [r]) :
    ((s.after past st (.call (.finishJob id t message))).rowsOf id t).map (·.message) =
      [message] := by
  obtain ⟨r, hr⟩ := hrow
  have hafter : s.after past st (.call (.finishJob id t message)) =
      (s.others past st).finishJob id t message.isNone message (s.clock past) :=
    hserves.after_eq (c := .finishJob id t message) rfl rfl
  have hkeeps : JobRow.KeepsKey (.ended message.isNone message (s.clock past)) :=
    fun _ => ⟨rfl, rfl⟩
  rw [hafter, Store.finishJob, Store.rowsOf_changeJob hkeeps, hserves.spares.rowsOf, hr]
  rfl

end Serves

theorem Chronicle.finish (hserves : s.Serves id)
    (h : s.Chronicle id base st₀ outcome started ended past st)
    (hrow : ∃ r, st.rowsOf id t = [r]) :
    s.Chronicle id base st₀ outcome started (ended ++ [t])
      (.call (.finishJob id t (Pass.note (outcome t))) :: past)
      (s.after past st (.call (.finishJob id t (Pass.note (outcome t))))) := by
  obtain ⟨since, rfl, rfl, rfl, hended⟩ := h
  refine ⟨.call (.finishJob id t (Pass.note (outcome t))) :: since, rfl, rfl, ?_, ?_⟩
  · simp [startedSteps_cons, Moment.started?]
  · intro u hu
    rcases List.mem_append.mp hu with hu | hu
    · exact (hended u hu).cons _
    · rw [List.mem_singleton.mp hu]
      exact ⟨[], since, rfl, hserves.message_of_finish _ hrow⟩

end Surroundings

/-- What has come of a pass over a document so far: which steps were started and of which the end was
noted, which steps there are still to see to, and what was reported, the last first. -/
structure Desk.Recounts (s : Surroundings) (id : String) (base : List Moment) (st₀ : Store)
    (outcome : Step → Except PipelineError Unit) (started ended left : List Step)
    (events : List Event) (desk : Desk) : Prop where
  past : s.Chronicle id base st₀ outcome started ended desk.world.moments desk.world.store
  rows : desk.world.store.Awaits id left
  document : desk.world.store.hasDocument id = true
  events : desk.world.events = events

namespace Pass

/-- The lines about a step that was started and has ended. -/
def linesOf (id : String) (outcome : Step → Except PipelineError Unit) (t : Step) : List Event :=
  [.stepStarted id t, .stepFinished id t (note (outcome t))]

variable {s : Surroundings} {id : String} {base : List Moment} {st₀ : Store} {t : Step}
  {outcome : Step → Except PipelineError Unit} {ran started ended left : List Step}
  {events : List Event} {desk : Desk}

theorem begin_recounts (hserves : s.Serves id) (ht : t ∈ left)
    (hdesk : desk.Recounts s id base st₀ outcome started ended left events) :
    ∃ desk', begin id t s desk = (.ok (), desk') ∧
      desk'.Recounts s id base st₀ outcome (started ++ [t]) ended left
        (.stepStarted id t :: events) := by
  have hstart : Act.onWorld (start id t) s desk = (.ok (), desk.next s (.call (.startJob id t))) :=
    hserves.tell_job rfl desk
  have hpast := hdesk.past.next (.call (.startJob id t))
  simp only [Moment.started?, ↓reduceIte, Option.toList_some] at hpast
  refine ⟨_, begin_of_started hstart, hpast, ?_, hserves.hasDocument_after _ hdesk.document,
    congrArg (List.cons _) hdesk.events⟩
  exact hserves.awaits_change (c := .startJob id t) rfl ht (fun _ _ => rfl)
    (fun _ _ => ⟨rfl, rfl⟩) hdesk.rows

/-- A step neither reports anything nor touches the rows. -/
theorem handler_recounts (hserves : s.Serves id) (scratch : String) (t : Step)
    (hdesk : desk.Recounts s id base st₀ outcome started ended left events) :
    (Handler.ofStep scratch t s desk).2.Recounts s id base st₀ outcome started ended left
      events := by
  let I (past : List Moment) (st : Store) : Prop :=
    s.Chronicle id base st₀ outcome started ended past st ∧ st.Awaits id left ∧
      st.hasDocument id = true
  have hI : s.Maintains (Moment.OnBehalf fun _ => True) I := by
    rintro past st m hm ⟨hpast, hrows, hdoc⟩
    refine ⟨hpast.next_of_none ?_, hserves.awaits_after (hm.spares id) hrows,
      hserves.hasDocument_after m hdoc⟩
    cases m with
    | call c => cases c <;> first | rfl | cases hm
    | effect e => rfl
  have hkept := (Handler.ofStep_minds (Document.lasting_true s.registry) scratch t I hI desk
    ⟨trivial, hdesk.past, hdesk.rows, hdesk.document⟩).1
  have hsilent := (Handler.ofStep_announced (s := s) (P := (· = events)) scratch t desk
    hdesk.events).1
  exact ⟨hkept.2.1, hkept.2.2.1, hkept.2.2.2, hsilent⟩

/-- Of a step whose end is noted there is nothing left to see to unless the pass cannot go on. -/
theorem conclude_recounts (hserves : s.Serves id) (ht : t ∉ left)
    (hdesk : desk.Recounts s id base st₀ outcome started ended (t :: left) events) :
    ∃ desk' left', conclude id t (note (outcome t)) s desk =
        (.ok (obstacle t (outcome t)), desk') ∧
      desk'.Recounts s id base st₀ outcome started (ended ++ [t]) left'
        (.stepFinished id t (note (outcome t)) :: events) ∧
      (obstacle t (outcome t) = none → left' = left) := by
  let m : Moment := .call (.finishJob id t (note (outcome t)))
  have hfinish : Act.onWorld (finish id t (note (outcome t))) s desk =
      (.ok (), desk.next s m) := hserves.tell_job rfl desk
  have hnoted := hdesk.past.finish hserves (hdesk.rows.rows t List.mem_cons_self)
  have hrows : (desk.next s m).world.store.Awaits id (t :: left) :=
    hserves.awaits_change (c := .finishJob id t (note (outcome t))) rfl List.mem_cons_self
      (fun _ _ => rfl) (fun _ _ => ⟨rfl, rfl⟩) hdesk.rows
  have hdoc : (desk.next s m).world.store.hasDocument id = true :=
    hserves.hasDocument_after m hdesk.document
  let told := (desk.next s m).reported (.stepFinished id t (note (outcome t)))
  by_cases hfinal : t.mandatory = false ∨ note (outcome t) = none
  · have hobstacle : obstacle t (outcome t) = none := by
      rcases hfinal with hfinal | hfinal <;> simp [obstacle, hfinal]
    have hclear : Act.onWorld (clear id t) s told =
        (.ok (), told.next s (.call (.clearJob id t))) := hserves.tell_job rfl told
    rw [conclude_of_cleared hfinal hfinish, hobstacle]
    refine ⟨_, left, Act.bind_of_ok hclear,
      ⟨hnoted.next_of_none rfl, ?_, hserves.hasDocument_after _ hdoc, ?_⟩, fun _ => rfl⟩
    · rw [Desk.next_store, hserves.after_eq (c := .clearJob id t) rfl rfl]
      exact (hserves.awaits_others hrows).clearJob ht
    · exact congrArg (List.cons _) hdesk.events
  · obtain ⟨hmandatory, reason, hreason⟩ : t.mandatory = true ∧
        ∃ reason, note (outcome t) = some reason := by
      rw [not_or, Bool.not_eq_false] at hfinal
      exact ⟨hfinal.1, Option.ne_none_iff_exists'.mp hfinal.2⟩
    have hobstacle : obstacle t (outcome t) = some reason := by
      simp [obstacle, hmandatory, hreason]
    have hrequeue : Act.onWorld (requeue id t) s told =
        (.ok (), told.next s (.call (.requeueJob id t))) := hserves.tell_job rfl told
    simp only [told] at hrequeue
    rw [hreason] at hfinish hrequeue
    rw [hreason, conclude_of_deferred hmandatory hfinish, hobstacle]
    refine ⟨_, t :: left, Act.bind_of_ok hrequeue,
      ⟨?_, ?_, hserves.hasDocument_after _ hdoc, ?_⟩, by simp⟩
    · exact hnoted.next_of_none rfl
    · exact hserves.awaits_change (c := .requeueJob id t) rfl List.mem_cons_self
        (fun _ _ => rfl) (fun _ _ => ⟨rfl, rfl⟩) hrows
    · exact congrArg (List.cons _) hdesk.events

/-- A step that is run under its job reports that it was started and how it has ended. -/
theorem runStep_recounts (hserves : s.Serves id) (scratch : String) (ht : t ∉ left)
    (hdesk : desk.Recounts s id base st₀ outcome ran ran (t :: left) events)
    (houtcome : ∀ desk', begin id t s desk = (.ok (), desk') →
      (Handler.ofStep scratch t s desk').1 = (outcome t).mapError .error) :
    ∃ desk' left', runStep (Handler.ofStep scratch t) id t s desk =
        (.ok (obstacle t (outcome t)), desk') ∧
      desk'.Recounts s id base st₀ outcome (ran ++ [t]) (ran ++ [t]) left'
        ((linesOf id outcome t).reverse ++ events) ∧
      (obstacle t (outcome t) = none → left' = left) := by
  obtain ⟨began, hbegin, hbegun⟩ := begin_recounts hserves List.mem_cons_self hdesk
  have hends := houtcome began hbegin
  have hattempt : (Handler.ofStep scratch t).attempt s began =
      (.ok (outcome t), (Handler.ofStep scratch t s began).2) := by
    cases hresult : outcome t with
    | ok u =>
        rw [hresult] at hends
        exact Act.attempt_of_ok (Prod.ext hends rfl)
    | error e =>
        rw [hresult] at hends
        exact Act.attempt_of_fail (Prod.ext hends rfl)
  obtain ⟨desk', left', hconclude, hended, hleft⟩ :=
    conclude_recounts hserves ht (handler_recounts hserves scratch t hbegun)
  refine ⟨desk', left', ?_, hended, hleft⟩
  unfold runStep
  rw [Act.bind_of_ok hbegin, Act.bind_of_ok hattempt]
  exact hconclude

/-- A run of steps reports its steps one after the other, up to one that it cannot go on from. -/
theorem runSteps_recounts (hserves : s.Serves id) (scratch : String) {steps : List Step}
    (hnodup : steps.Nodup)
    (hdesk : desk.Recounts s id base st₀ outcome ran ran steps events)
    (houtcome : ∀ t desk', Begins (Handler.ofStep scratch) id s steps desk t desk' →
      (Handler.ofStep scratch t s desk').1 = (outcome t).mapError .error) :
    ∃ desk' now later left answer, steps = now ++ later ∧
      runSteps (Handler.ofStep scratch) id steps s desk = (.ok answer, desk') ∧
      desk'.Recounts s id base st₀ outcome (ran ++ now) (ran ++ now) left
        ((now.flatMap (linesOf id outcome)).reverse ++ events) ∧
      (answer = none → left = []) := by
  induction steps generalizing desk ran events with
  | nil => exact ⟨desk, [], [], [], none, rfl, rfl, by simpa using hdesk, fun _ => rfl⟩
  | cons t rest ih =>
      obtain ⟨ht, hrest⟩ := List.nodup_cons.mp hnodup
      obtain ⟨desk₁, left₁, hstep, hdesk₁, hleft₁⟩ := runStep_recounts hserves scratch ht hdesk
        fun desk' hbegin => houtcome t desk' (.here hbegin)
      cases hobstacle : obstacle t (outcome t) with
      | some reason =>
          rw [hobstacle] at hstep
          exact ⟨desk₁, [t], rest, left₁, some (t, reason), rfl, runSteps_of_some hstep,
            by simpa using hdesk₁, by simp⟩
      | none =>
          rw [hobstacle] at hstep
          rw [hleft₁ hobstacle] at hdesk₁
          obtain ⟨desk', now, later, left, answer, rfl, hrun, hdesk', hleft⟩ :=
            ih hrest hdesk₁ fun u desk' hu => houtcome u desk' (.later hstep hu)
          refine ⟨desk', t :: now, later, left, answer, rfl,
            (runSteps_of_none hstep).trans hrun, ?_, hleft⟩
          simpa [List.append_assoc] using hdesk'

/-- A document that has nothing left to see to is called ready, which reports nothing. -/
theorem settle_recounts (hserves : s.Serves id)
    (hdesk : desk.Recounts s id base st₀ outcome started ended [] events) :
    ∃ w', settle id s desk.world = (.ok (), w') ∧ w'.events = events ∧
      s.Chronicle id base st₀ outcome started ended w'.moments w'.store := by
  let w := desk.world
  have hread : (s.others w.moments w.store).pendingJobs id = .ok [] :=
    (hserves.awaits_others hdesk.rows).pendingJobs_of_nil
  let asked := w.next s (.call (.pendingSteps id))
  have hpending : pending id s w = (.ok [], asked) :=
    hserves.ask_eq rfl (fun _ _ => rfl) (by rw [hread]; rfl)
  have hasked := hdesk.past.next_of_none (m := .call (.pendingSteps id)) rfl
  have hdoc : (s.others asked.moments asked.store).hasDocument id = true :=
    hserves.keeps _ _ (hserves.hasDocument_after _ hdesk.document)
  have hperform : (StoreCall.setStatus id .ready).perform (s.clock asked.moments)
      (s.others asked.moments asked.store) =
        .ok ((s.others asked.moments asked.store).setStatus id .ready
          (s.clock asked.moments)).2 := by
    unfold StoreCall.perform Store.setStatus Store.changeDocument
    simp only [hdoc]
    rfl
  have htell : Act.tell (.setStatus id .ready) s asked =
      (.ok (), asked.next s (.call (.setStatus id .ready))) := by
    rw [Act.tell_of_go _ (hserves.goes _), Surroundings.verdict,
      hserves.heeds _ (.setStatus id .ready) rfl]
    simp only [hperform]
  exact ⟨_, (Act.bind_of_ok hpending).trans htell, hdesk.events, hasked.next_of_none rfl⟩

theorem runWith_recounts (hserves : s.Serves id) (scratch : String) (d : Document)
    {steps : List Step} {w : World} (hnodup : steps.Nodup)
    (hdesk : (⟨w, d⟩ : Desk).Recounts s id base st₀ outcome [] [] steps events)
    (houtcome : ∀ t desk', Begins (Handler.ofStep scratch) id s steps ⟨w, d⟩ t desk' →
      (Handler.ofStep scratch t s desk').1 = (outcome t).mapError .error) :
    ∃ w' now later o, steps = now ++ later ∧
      runWith (Handler.ofStep scratch) d id steps s w = (.ok o, w') ∧
      s.Chronicle id base st₀ outcome now now w'.moments w'.store ∧
      w'.events = .documentFinished id (decide (o = .completed)) ::
        ((now.flatMap (linesOf id outcome)).reverse ++ events) := by
  obtain ⟨desk', now, later, left, answer, hsplit, hrun, hdesk', hleft⟩ :=
    runSteps_recounts hserves scratch hnodup hdesk houtcome
  rcases answer with _ | ⟨t, reason⟩
  · rw [hleft rfl] at hdesk'
    obtain ⟨w', hsettle, hevents, hpast⟩ := settle_recounts hserves hdesk'
    refine ⟨{ w' with events := .documentFinished id true :: w'.events }, now, later, .completed,
      hsplit, (runWith_of_none hrun).trans (Act.bind_of_ok hsettle), hpast, ?_⟩
    exact congrArg (List.cons _) hevents
  · exact ⟨_, now, later, .deferred t reason, hsplit, runWith_of_deferred hrun, hdesk'.past,
      congrArg (List.cons _) hdesk'.events⟩

/-- A pass reads its document and the steps that wait for it, and nothing is told yet. -/
theorem opened_recounts (hserves : s.Serves id) (outcome : Step → Except PipelineError Unit)
    {w : World} {d : Document} {jobs : List Job}
    (hkeyed : w.store.Keyed)
    (hstored : (s.others w.moments w.store).getDocument id = .ok d)
    (hpending : w.store.pendingJobs id = .ok jobs) :
    ∃ w₁ w₂, Act.ask (.getDocument id) (·.getDocument id) s w = (.ok d, w₁) ∧
      pending id s w₁ = (.ok (jobs.map (·.step)), w₂) ∧ w₂.files = w.files ∧
      (⟨w₂, d⟩ : Desk).Recounts s id w.moments w.store outcome [] [] (jobs.map (·.step))
        w.events := by
  let w₁ := w.next s (.call (.getDocument id))
  let w₂ := w₁.next s (.call (.pendingSteps id))
  have hw₁ : w₁.store = s.others w.moments w.store :=
    hserves.after_eq (c := .getDocument id) rfl rfl
  have hw₂ : w₂.store = s.others w₁.moments w₁.store :=
    hserves.after_eq (c := .pendingSteps id) rfl rfl
  have hread : (s.others w₁.moments w₁.store).pendingJobs id = .ok jobs := by
    rw [Store.pendingJobs_congr (hserves.spares _ _), hw₁,
      Store.pendingJobs_congr (hserves.spares _ _), hpending]
  refine ⟨w₁, w₂, hserves.ask_eq rfl (fun _ _ => rfl) hstored,
    hserves.ask_eq rfl (fun _ _ => rfl) (by rw [hread]; rfl), rfl, ?_⟩
  constructor
  · exact ⟨[.call (.pendingSteps id), .call (.getDocument id)], rfl, rfl, rfl, by simp⟩
  · rw [hw₂, hw₁]
    exact hserves.awaits_others (hserves.awaits_others (.of_pendingJobs hkeyed hpending))
  · rw [hw₂, hw₁]
    obtain ⟨r, hr, -⟩ := row_of_getDocument hstored
    exact hserves.keeps _ _ (Store.hasDocument_of_documentRow? hr)
  · rfl

end Pass

end Docket
