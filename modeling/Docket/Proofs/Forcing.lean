import Docket.Proofs.Pass

/-!
Forcing a document while a pass over it goes on.  The calls that make a row of the
document, start its step or delete it are events, and the events decide which rows
there are.  A row that was forced is gone before its step has begun again only if a later
force call has put other rows in its place, or if the step had begun before the force
call and its row was deleted after it.
-/

namespace Docket

/-- What bears on the rows of a document. -/
inductive RowEvent where
  | forced (first : Step)
  | started (t : Step)
  | cleared (t : Step)
deriving DecidableEq, Repr

namespace RowEvent

variable {t : Step} {absent : Prop} {later earlier : List RowEvent}

/-- Whether no row of a step is there after some events, the last of which comes first. -/
def Missing (t : Step) (absent : Prop) : List RowEvent → Prop
  | [] => absent
  | .forced first :: _ => t ∉ first.onward
  | .started _ :: earlier => Missing t absent earlier
  | .cleared u :: earlier => u = t ∨ Missing t absent earlier

/-- The last force call among some events is one from a step behind `t`. -/
def Superseded (t : Step) : List RowEvent → Prop
  | [] => False
  | .forced first :: _ => t ∉ first.onward
  | .started _ :: earlier | .cleared _ :: earlier => Superseded t earlier

/-- The row of a step was deleted, and no force call came after that. -/
def Deleted (t : Step) : List RowEvent → Prop
  | [] | .forced _ :: _ => False
  | .started _ :: earlier => Deleted t earlier
  | .cleared u :: earlier => u = t ∨ Deleted t earlier

/-- What was started before a force call, and not since, was deleted after it, and after
every later one. -/
def Overtaken (t : Step) (later earlier : List RowEvent) : Prop :=
  .started t ∈ earlier ∧ .started t ∉ later ∧ Deleted t later

/-- No row is deleted before its step was started. -/
def Orderly : List RowEvent → Prop
  | [] => True
  | .forced _ :: earlier | .started _ :: earlier => Orderly earlier
  | .cleared t :: earlier => .started t ∈ earlier ∧ Orderly earlier

/-- A step was started. -/
def UnderWay (t : Step) (events : List RowEvent) : Prop :=
  Orderly events ∧ .started t ∈ events

theorem missing_append : Missing t absent (later ++ earlier) ↔
    Missing t (Missing t absent earlier) later := by
  induction later with
  | nil => rfl
  | cons e rest ih =>
      cases e with
      | forced first => rfl
      | started u => exact ih
      | cleared u => exact or_congr_right ih

/-- After a force call that was to make its row, a step has none exactly if the row was
replaced or deleted. -/
theorem missing_after_forced {first : Step} (ht : t ∈ first.onward) :
    Missing t absent (later ++ .forced first :: earlier) ↔
      Superseded t later ∨ Deleted t later := by
  induction later with
  | nil => simp [Missing, Superseded, Deleted, ht]
  | cons e rest ih =>
      cases e with
      | forced u => simp [Missing, Superseded, Deleted]
      | started u => exact ih
      | cleared u =>
          simp only [List.cons_append, Missing, Superseded, Deleted, ih]
          tauto

theorem Orderly.of_append (h : Orderly (later ++ earlier)) : Orderly earlier := by
  induction later with
  | nil => exact h
  | cons e rest ih =>
      cases e with
      | forced first => exact ih h
      | started u => exact ih h
      | cleared u => exact ih h.2

theorem Orderly.forced (h : Orderly earlier) (firsts : List Step) :
    Orderly (firsts.map .forced ++ earlier) := by
  induction firsts with
  | nil => exact h
  | cons first rest ih => exact ih

/-- What is deleted was started before. -/
theorem Orderly.started_mem (h : Orderly (later ++ earlier)) (hdeleted : Deleted t later) :
    .started t ∈ later ++ earlier := by
  induction later with
  | nil => cases hdeleted
  | cons e rest ih =>
      refine List.mem_cons_of_mem _ ?_
      cases e with
      | forced first => cases hdeleted
      | started u => exact ih h hdeleted
      | cleared u =>
          rcases hdeleted with rfl | hdeleted
          · exact h.1
          · exact ih h.2 hdeleted

/-- As long as a step has not been started again since a force call, its row is missing
exactly if a later force call has replaced it, or if the force call came while the step
was under way and the row was deleted when the step had ended. -/
theorem missing_iff {first : Step}
    (horderly : Orderly (later ++ .forced first :: earlier)) (ht : t ∈ first.onward)
    (hidle : .started t ∉ later) :
    Missing t absent (later ++ .forced first :: earlier) ↔
      Superseded t later ∨ Overtaken t later earlier := by
  rw [missing_after_forced ht]
  refine or_congr_right ⟨fun hdeleted => ⟨?_, hidle, hdeleted⟩, fun h => h.2.2⟩
  rcases List.mem_append.mp (horderly.started_mem hdeleted) with hlater | hearlier
  · exact absurd hlater hidle
  · simpa using hearlier

end RowEvent

/-- What others have made of a store, if they call nothing that changes the rows of a
document except to force it; the first steps of the force calls that were carried out,
the last call first. -/
inductive Store.Forces (id : String) : List Step → Store → Store → Prop
  | none {st : Store} : Forces id [] st st
  | spare {firsts : List Step} {st st₁ st₂ : Store} (h : Forces id firsts st st₁)
      (hjobs : st₂.jobsFor id = st₁.jobsFor id) : Forces id firsts st st₂
  | force {firsts : List Step} {first : Step} {now : Calendar.Instant} {st st₁ st₂ : Store}
      (h : Forces id firsts st st₁) (hforce : st₁.forceDocument id first now = .ok st₂) :
      Forces id (first :: firsts) st st₂

open RowEvent

theorem Store.Forces.rowsOf_eq_nil {id : String} {t : Step} {firsts : List Step}
    {st st' : Store} (h : Forces id firsts st st') :
    st'.rowsOf id t = [] ↔
      Missing t (st.rowsOf id t = []) (firsts.map RowEvent.forced) := by
  induction h with
  | none => rfl
  | spare _ hjobs ih => rwa [Store.rowsOf, hjobs, ← Store.rowsOf]
  | force _ hforce _ => exact rowsOf_forceDocument hforce

namespace StoreCall

variable {c : StoreCall} {now : Calendar.Instant} {st st' : Store} {id : String} {t : Step}

/-- The event of a call that is carried out. -/
def rowEvent? (id : String) : StoreCall → Option RowEvent
  | .startJob i t => if i = id then some (.started t) else none
  | .clearJob i t => if i = id then some (.cleared t) else none
  | _ => none

/-- What can fail is no event. -/
theorem rowEvent?_of_error {e : StoreError} (h : c.perform now st = .error e) :
    c.rowEvent? id = none := by
  cases c with
  | startJob | clearJob => cases h
  | _ => rfl

theorem eq_of_rowEvent?_cleared (h : c.rowEvent? id = some (.cleared t)) :
    c = .clearJob id t := by
  cases c with
  | startJob i u =>
      simp only [rowEvent?] at h
      split at h <;> cases h
  | clearJob i u =>
      simp only [rowEvent?] at h
      split at h
      · next hi =>
          cases h
          rw [hi]
      · cases h
  | _ => cases h

/-- The event of a call decides what it makes of the row of a step. -/
theorem rowsOf_perform_eq_nil (hc : c ≠ .cancelJobs id) (h : c.perform now st = .ok st') :
    st'.rowsOf id t = [] ↔
      Missing t (st.rowsOf id t = []) (c.rowEvent? id).toList := by
  have hspared : c.SparesRow id t → (st'.rowsOf id t = [] ↔ st.rowsOf id t = []) :=
    fun hspares => by rw [rowsOf_perform hspares h]
  cases c with
  | startJob i u =>
      cases h
      simp only [rowEvent?]
      split
      · exact Store.rowsOf_changeJob_eq_nil fun _ => ⟨rfl, rfl⟩
      · exact Store.rowsOf_changeJob_eq_nil fun _ => ⟨rfl, rfl⟩
  | finishJob | requeueJob =>
      cases h
      exact Store.rowsOf_changeJob_eq_nil fun _ => ⟨rfl, rfl⟩
  | clearJob i u =>
      by_cases hi : i = id
      · subst hi
        by_cases hu : u = t
        · cases h
          subst hu
          simp [rowEvent?, Missing, Store.rowsOf_clearJob]
        · rw [hspared ⟨hc, fun heq => hu (Prod.mk.inj (Option.some.inj heq)).2⟩]
          simp [rowEvent?, Missing, hu]
      · rw [hspared ⟨hc, fun heq => hi (Prod.mk.inj (Option.some.inj heq)).1⟩]
        simp [rowEvent?, Missing, hi]
  | _ => exact hspared ⟨hc, by simp [job?]⟩

end StoreCall

namespace Surroundings

variable {s : Surroundings} {id : String} {t : Step}
  {forces : List Moment → Store → List Step} {base past : List Moment} {st₀ st : Store}
  {m : Moment}

/-- The events that a moment adds: first what others force, then what is called. -/
def rowEvents (s : Surroundings) (id : String) (forces : List Moment → Store → List Step)
    (past : List Moment) (st : Store) : Moment → List RowEvent
  | .call c =>
      (if (s.refuses past c).isSome then [] else (c.rowEvent? id).toList) ++
        (forces past st).map .forced
  | .effect _ => []

/-- The events of the moments since some past, the last of which comes first. -/
def timeline (s : Surroundings) (id : String) (forces : List Moment → Store → List Step)
    (base : List Moment) (st₀ : Store) : List Moment → List RowEvent
  | [] => []
  | m :: since =>
      s.rowEvents id forces (since ++ base) (s.replay base st₀ since) m ++
        s.timeline id forces base st₀ since

/-- The events of a moment decide what it makes of the row of a step. -/
theorem rowsOf_after_eq_nil
    (hforces : ∀ past st, Store.Forces id (forces past st) st (s.others past st))
    (hm : m ≠ .call (.cancelJobs id)) :
    (s.after past st m).rowsOf id t = [] ↔
      Missing t (st.rowsOf id t = []) (s.rowEvents id forces past st m) := by
  cases m with
  | effect e => rfl
  | call c =>
      have hothers := (hforces past st).rowsOf_eq_nil (t := t)
      rw [rowEvents, missing_append, ← hothers]
      cases hrefuse : s.refuses past c with
      | some e =>
          rw [after_of_refused hrefuse]
          rfl
      | none =>
          cases hperform : c.perform (s.clock past) (s.others past st) with
          | ok st' =>
              rw [after_of_heeded hrefuse hperform]
              exact StoreCall.rowsOf_perform_eq_nil (fun heq => hm (by rw [heq])) hperform
          | error e =>
              simp only [after, hrefuse, hperform, StoreCall.rowEvent?_of_error hperform]
              rfl

/-- The events of a run decide which rows are there after it. -/
theorem rowsOf_replay_eq_nil
    (hforces : ∀ past st, Store.Forces id (forces past st) st (s.others past st))
    {since : List Moment} (hsince : ∀ m ∈ since, m ≠ .call (.cancelJobs id)) :
    (s.replay base st₀ since).rowsOf id t = [] ↔
      Missing t (st₀.rowsOf id t = []) (s.timeline id forces base st₀ since) := by
  induction since with
  | nil => rfl
  | cons m since ih =>
      rw [replay, rowsOf_after_eq_nil hforces (hsince m List.mem_cons_self), timeline,
        missing_append, ih fun m' hm' => hsince m' (List.mem_cons_of_mem m hm')]

theorem timeline_append (s : Surroundings) (id : String)
    (forces : List Moment → Store → List Step) (base : List Moment) (st₀ : Store)
    (newer since : List Moment) :
    ∃ events, s.timeline id forces base st₀ (newer ++ since) =
      events ++ s.timeline id forces base st₀ since := by
  induction newer with
  | nil => exact ⟨[], rfl⟩
  | cons m rest ih =>
      obtain ⟨events, hevents⟩ := ih
      exact ⟨_, by rw [List.cons_append, timeline, hevents, ← List.append_assoc]⟩

/-- A row is deleted only if its step was started. -/
theorem orderly_rowEvents {events : List RowEvent} (horderly : Orderly events)
    (hclear : ∀ t, m = .call (.clearJob id t) → .started t ∈ events) :
    Orderly (s.rowEvents id forces past st m ++ events) := by
  cases m with
  | effect e => exact horderly
  | call c =>
      have hforced := horderly.forced (forces past st)
      rw [rowEvents, List.append_assoc]
      split
      · exact hforced
      · cases hevent : c.rowEvent? id with
        | none => exact hforced
        | some e =>
            cases e with
            | forced first => exact hforced
            | started t => exact hforced
            | cleared t =>
                have hc := StoreCall.eq_of_rowEvent?_cleared hevent
                have hstarted := hclear t (by rw [hc])
                change Orderly (.cleared t :: ((forces past st).map .forced ++ events))
                exact ⟨List.mem_append_right _ hstarted, hforced⟩

/-- What a pass over a document has brought about since some past, and that its events
are as they should be. -/
def Traced (s : Surroundings) (id : String) (forces : List Moment → Store → List Step)
    (base : List Moment) (st₀ : Store) (P : List RowEvent → Prop) (past : List Moment)
    (st : Store) : Prop :=
  ∃ since, past = since ++ base ∧ (∀ m ∈ since, m.OfPass id) ∧
    st = s.replay base st₀ since ∧ P (s.timeline id forces base st₀ since)

theorem Traced.next {P P' : List RowEvent → Prop}
    (h : s.Traced id forces base st₀ P past st) (hm : m.OfPass id)
    (hP : ∀ events, P events → P' (s.rowEvents id forces past st m ++ events)) :
    s.Traced id forces base st₀ P' (m :: past) (s.after past st m) := by
  obtain ⟨since, rfl, hsince, rfl, hevents⟩ := h
  refine ⟨m :: since, rfl, ?_, rfl, hP _ hevents⟩
  intro m' hm'
  rcases List.mem_cons.mp hm' with rfl | hm'
  · exact hm
  · exact hsince m' hm'

theorem Traced.imp {P P' : List RowEvent → Prop}
    (h : s.Traced id forces base st₀ P past st) (himp : ∀ events, P events → P' events) :
    s.Traced id forces base st₀ P' past st := by
  obtain ⟨since, hpast, hsince, hst, hevents⟩ := h
  exact ⟨since, hpast, hsince, hst, himp _ hevents⟩

/-- Whatever deletes no row keeps events orderly. -/
theorem maintains_orderly :
    s.Maintains (fun m => m.OfPass id ∧ ∀ t, m ≠ .call (.clearJob id t))
      (s.Traced id forces base st₀ Orderly) :=
  fun _ _ _ hm h => h.next hm.1 fun _ horderly =>
    orderly_rowEvents horderly fun t heq => absurd heq (hm.2 t)

/-- Under its job, a step that was started may delete its row. -/
theorem maintains_underWay (t : Step) :
    s.Maintains (Moment.OfStep (fun _ => True) id t)
      (s.Traced id forces base st₀ (UnderWay t)) := by
  intro past st m hm h
  refine h.next (.inl ⟨t, hm⟩) fun events hevents => ⟨?_, List.mem_append_right _ hevents.2⟩
  refine orderly_rowEvents hevents.1 fun u heq => ?_
  rcases hm with hm | ⟨c, hc, hjob⟩
  · rw [heq] at hm
    cases hm
  · rw [heq] at hc
    cases hc
    cases hjob
    exact hevents.2

end Surroundings

namespace Pass

open Act (Keeps)

section

variable {s : Surroundings} {id : String} {t : Step}
  {forces : List Moment → Store → List Step} {base : List Moment} {st₀ : Store}

/-- A step begins only after it was noted as started. -/
theorem begin_underWay {desk : Desk}
    (h : World.Has (s.Traced id forces base st₀ Orderly) desk.world) :
    (∃ began, begin id t s desk = (.ok (), began) ∧
      World.Has (s.Traced id forces base st₀ (UnderWay t)) began.world) ∨
    ∃ i ended, begin id t s desk = (.error i, ended) ∧
      World.Has (s.Traced id forces base st₀ Orderly) ended.world := by
  have hpass : (Moment.call (.startJob id t)).OfPass id := .inl ⟨t, .start⟩
  have horderly : World.Has (s.Traced id forces base st₀ Orderly)
      (desk.next s (.call (.startJob id t))).world :=
    s.maintains_orderly _ _ _ ⟨hpass, by simp⟩ h
  rcases Act.onWorld_tell_cases s (c := .startJob id t) rfl desk with
    ⟨-, hstart⟩ | ⟨-, ⟨e, -, hstart⟩⟩ | ⟨-, hheed, hstart⟩
  · exact .inr ⟨_, _, Act.bind_of_error hstart, h⟩
  · exact .inr ⟨_, _, Act.bind_of_error hstart, horderly⟩
  · refine .inl ⟨_, begin_of_started hstart, ?_⟩
    refine Surroundings.Traced.next h hpass fun events hevents => ⟨?_, ?_⟩
    · exact Surroundings.orderly_rowEvents hevents fun u heq => by cases heq
    · simp [Surroundings.rowEvents, hheed, StoreCall.rowEvent?]

theorem runStep_orderly {handler : Handler} (hhandler : handler.Minds s fun _ => True) :
    Keeps s (Desk.Has (fun _ => True) (s.Traced id forces base st₀ Orderly))
      (runStep handler id t) := by
  intro desk hdesk
  refine ⟨?_, fun _ _ => trivial⟩
  rcases begin_underWay (t := t) hdesk.2 with
    ⟨began, hbegin, hbegan⟩ | ⟨i, ended, hbegin, hended⟩
  · -- from here on the step may delete its row, which was not so before
    have hI : s.Maintains (Moment.OfStep (fun _ => True) id t)
        (s.Traced id forces base st₀ (UnderWay t)) := Surroundings.maintains_underWay t
    have hrest : Keeps s
        (Desk.Has (fun _ => True) (s.Traced id forces base st₀ (UnderWay t)))
        (handler.attempt >>= fun result => conclude id t (note result)) :=
      .bind (.attempt (hhandler _ (hI.mono fun _ hm => .inl hm))) fun _ _ =>
        conclude_keeps hI _
    rw [runStep, Act.bind_of_ok hbegin]
    exact ⟨trivial, ((hrest began ⟨trivial, hbegan⟩).1.2).imp fun _ h => h.1⟩
  · rw [runStep, Act.bind_of_error hbegin]
    exact ⟨trivial, hended⟩

theorem process_keeps_orderly :
    Keeps s (World.Has (s.Traced id forces base st₀ Orderly)) (process id) := by
  refine run_keeps_of s.maintains_orderly (fun steps => ?_) ⟨.get, by simp⟩
    ⟨.pending, by simp⟩ ⟨.ready, by simp⟩
  exact runSteps_keeps_of steps fun t _ =>
    runStep_orderly (Handler.ofStep_minds (Document.lasting_true _) _ t)

/-- Passes over a document, one after the other. -/
inductive Passes (id : String) (s : Surroundings) (w : World) : World → Prop
  | none : Passes id s w w
  | next {w' : World} (h : Passes id s w w') : Passes id s w (process id s w').2

/-- Passes start every step before they delete its row. -/
theorem Passes.traced {w w' : World} (h : Passes id s w w')
    (forces : List Moment → Store → List Step) :
    World.Has (s.Traced id forces w.moments w.store Orderly) w' := by
  induction h with
  | none => exact ⟨[], rfl, by simp, rfl, trivial⟩
  | next _ ih => exact (process_keeps_orderly _ ih).1

variable {w w' : World} {newer since : List Moment} {last : List Step} {st : Store} {first : Step}
  {later earlier : List RowEvent}

/-- At every moment of passes, and between the force calls of others: the row of a step
that was forced, and that has not begun again since, is missing exactly if a later force
call has replaced it, or if the step was under way when it was forced and its row was
deleted at its end. -/
theorem rowsOf_eq_nil_iff_of_passes
    (hforces : ∀ past st, Store.Forces id (forces past st) st (s.others past st))
    (hpasses : Passes id s w w') (hpast : w'.moments = newer ++ (since ++ w.moments))
    (hlast : Store.Forces id last (s.replay w.moments w.store since) st)
    (hevents : last.map .forced ++ s.timeline id forces w.moments w.store since =
      later ++ .forced first :: earlier)
    (ht : first.position ≤ t.position) (hidle : .started t ∉ later) :
    st.rowsOf id t = [] ↔ Superseded t later ∨ Overtaken t later earlier := by
  -- the passes may have gone on since: what is orderly in the end is so at every moment
  obtain ⟨all, hall, hpass, -, horderly⟩ := hpasses.traced forces
  have hsplit : all = newer ++ since := by
    rw [hpast, ← List.append_assoc] at hall
    exact (List.append_cancel_right hall).symm
  subst hsplit
  have hcalls : ∀ m ∈ since, m ≠ .call (.cancelJobs id) :=
    fun m hm => (hpass m (List.mem_append_right newer hm)).ne_cancel
  have hevery : Orderly (last.map .forced ++
      s.timeline id forces w.moments w.store since) := by
    obtain ⟨events, hnewer⟩ :=
      s.timeline_append id forces w.moments w.store newer since
    rw [hnewer] at horderly
    exact horderly.of_append.forced last
  rw [hevents] at hevery
  rw [hlast.rowsOf_eq_nil, Surroundings.rowsOf_replay_eq_nil hforces hcalls,
    ← missing_append, hevents, missing_iff hevery (Step.mem_onward.mpr ht) hidle]

/-- A force call is not lost.  At every later moment of passes the step that was forced
has begun again, or its row is there exactly unless a later force call has replaced it;
but for a call that came while the step was under way. -/
theorem passes_keep_forced
    (hforces : ∀ past st, Store.Forces id (forces past st) st (s.others past st))
    (hpasses : Passes id s w w') (hpast : w'.moments = newer ++ (since ++ w.moments))
    (hlast : Store.Forces id last (s.replay w.moments w.store since) st)
    (hevents : last.map .forced ++ s.timeline id forces w.moments w.store since =
      later ++ .forced first :: earlier)
    (ht : first.position ≤ t.position) (hwhole : ¬ Overtaken t later earlier) :
    .started t ∈ later ∨ (st.rowsOf id t ≠ [] ↔ ¬ Superseded t later) := by
  by_cases hstarted : .started t ∈ later
  · exact .inl hstarted
  · have hmissing :=
      rowsOf_eq_nil_iff_of_passes hforces hpasses hpast hlast hevents ht hstarted
    exact .inr (not_congr (hmissing.trans (or_iff_left hwhole)))

end

/-! A document that is forced twice while its last step is under way. -/

/-- The store after the document was forced twice, as soon as its last step has begun. -/
def forcedTwice (past : List Moment) (st : Store) : Option Store :=
  if past.head? = some (.call (.startJob "d" .ftsIndex)) then
    match st.forceDocument "d" .hash default with
    | .ok st => (st.forceDocument "d" .ftsIndex default).toOption
    | .error _ => none
  else none

/-- Bare surroundings in which others do this, and nothing else. -/
def meddling : Surroundings :=
  { Surroundings.bare with others := fun past st => (forcedTwice past st).getD st }

/-- The first steps of the two force calls, where they are made. -/
def meddled (past : List Moment) (st : Store) : List Step :=
  if (forcedTwice past st).isSome then [.ftsIndex, .hash] else []

theorem forces_meddled (past : List Moment) (st : Store) :
    Store.Forces "d" (meddled past st) st (meddling.others past st) := by
  simp only [meddling, meddled]
  cases hforced : forcedTwice past st with
  | none => exact .none
  | some st' =>
      simp only [forcedTwice] at hforced
      split at hforced
      · split at hforced
        · next st₁ hfirst =>
            cases hsecond : st₁.forceDocument "d" .ftsIndex default with
            | error e =>
                rw [hsecond] at hforced
                cases hforced
            | ok st₂ =>
                rw [hsecond] at hforced
                cases hforced
                exact .force (.force .none hfirst) hsecond
        · cases hforced
      · cases hforced

/-- A world in which a document waits for its last step. -/
def busy : World := .stray [.pending "d" .ftsIndex default]

/-- What happens until the step has begun. -/
def begunCalls : List Moment :=
  [.call (.startJob "d" .ftsIndex), .call (.pendingSteps "d"), .call (.getDocument "d")]

/-- What happens until the row of the step is deleted. -/
def steppedCalls : List Moment :=
  [.call (.clearJob "d" .ftsIndex), .call (.finishJob "d" .ftsIndex none),
    .call (.documentTags "d"), .call (.documentEntries "d")] ++ begunCalls

theorem pendingJobs_busy : ∃ jobs, busy.store.pendingJobs "d" = .ok jobs ∧
    jobs.map (·.step) = [.ftsIndex] :=
  ⟨_, Store.readJobs_of_sorted (by decide) rfl (by decide), rfl⟩

theorem opened_busy : ∃ w₁ w₂ w₃,
    Act.ask (.getDocument "d") (·.getDocument "d") meddling busy = (.ok .stray, w₁) ∧
    pending "d" meddling w₁ = (.ok [.ftsIndex], w₂) ∧
    openScratch meddling w₂ = (.ok (), w₃) ∧
    let run := runSteps (Handler.ofStep "/scratch") "d" [.ftsIndex] meddling ⟨w₃, .stray⟩
    run.1.toOption = some none ∧ run.2.world.moments = steppedCalls ∧
      run.2.world.store = (World.stray []).store := by
  obtain ⟨jobs, hjobs, hsteps⟩ := pendingJobs_busy
  let w₁ := busy.next meddling (.call (.getDocument "d"))
  let w₂ := w₁.next meddling (.call (.pendingSteps "d"))
  refine ⟨w₁, w₂, _, rfl, ?_, rfl, by decide +kernel⟩
  refine (Act.ask_of_go _ _ (fun _ _ => rfl) rfl).trans ?_
  change (((busy.store.pendingJobs "d").map _).mapError _, _) = _
  rw [hjobs, ← hsteps]
  rfl

theorem settle_busy {w : World} (hmoments : w.moments = steppedCalls)
    (hstore : w.store = (World.stray []).store) :
    ∃ w', settle "d" meddling w = (.ok (), w') ∧
      w'.moments = [.call (.setStatus "d" .ready), .call (.pendingSteps "d")] ++ steppedCalls ∧
      w'.store.jobs = [] := by
  have hothers : meddling.others w.moments w.store = (World.stray []).store := by
    rw [hmoments, hstore]
    rfl
  have hnone : (meddling.others w.moments w.store).pendingJobs "d" = .ok [] := by
    rw [hothers, Store.pendingJobs]
    exact Store.readJobs_nil
  let asked := w.next meddling (.call (.pendingSteps "d"))
  have hasked : pending "d" meddling w = (.ok [], asked) := by
    refine (Act.ask_of_go _ _ (fun _ _ => rfl) rfl).trans ?_
    rw [hnone]
    rfl
  refine ⟨asked.next meddling (.call (.setStatus "d" .ready)),
    (Act.bind_of_ok hasked).trans ((Act.tell_of_go _ rfl).trans ?_), ?_, ?_⟩
  · have hverdict : meddling.verdict asked.moments asked.store (.setStatus "d" .ready) =
        .ok () := by
      simp only [asked, World.next_moments, World.next_store, hmoments, hstore]
      rfl
    rw [hverdict]
  · simp [asked, hmoments]
  · simp only [asked, World.next_moments, World.next_store, hmoments, hstore]
    decide +kernel

/-- The pass runs to its end. -/
theorem process_busy : (process "d" meddling busy).1 = .ok .completed ∧
    (process "d" meddling busy).2.moments =
      [.call (.setStatus "d" .ready), .call (.pendingSteps "d")] ++ steppedCalls ∧
    (process "d" meddling busy).2.store.jobs = [] := by
  obtain ⟨w₁, w₂, w₃, hget, hpending, hopen, hdone, hmoments, hstore⟩ := opened_busy
  rcases hrun : runSteps (Handler.ofStep "/scratch") "d" [.ftsIndex] meddling
    ⟨w₃, .stray⟩ with ⟨i | r, desk⟩
  · rw [hrun] at hdone
    cases hdone
  · rw [hrun] at hdone hmoments hstore
    cases hdone
    obtain ⟨w, hsettle, hcalls, hjobs⟩ := settle_busy hmoments hstore
    have hclosed := (runWith_of_none hrun).trans (Act.bind_of_ok hsettle)
    let ended : World := { w with events := .documentFinished "d" true :: w.events }
    have hprocess : process "d" meddling busy =
        (.ok .completed, (closeScratch meddling ended).2) := by
      refine (run_of_opened hget hpending hopen).trans ?_
      have hscratch : meddling.scratch = "/scratch" := rfl
      simp only [Act.followedBy]
      rw [hscratch, hclosed]
      rfl
    rw [hprocess]
    exact ⟨rfl, hcalls, hjobs⟩

/-- In the middle of the run, right after the force calls, the row of the last step is
there. -/
theorem passes_keep_forced_meddled :
    (meddling.others begunCalls (meddling.replay [] busy.store begunCalls)).rowsOf "d"
      .ftsIndex ≠ [] := by
  have hpast : (process "d" meddling busy).2.moments =
      [.call (.setStatus "d" .ready), .call (.pendingSteps "d"),
        .call (.clearJob "d" .ftsIndex), .call (.finishJob "d" .ftsIndex none),
        .call (.documentTags "d"), .call (.documentEntries "d")] ++
        (begunCalls ++ busy.moments) := process_busy.2.1
  have hevents : (meddled begunCalls (meddling.replay [] busy.store begunCalls)).map
      RowEvent.forced ++ meddling.timeline "d" meddled busy.moments busy.store begunCalls =
        [] ++ .forced .ftsIndex :: [.forced .hash, .started .ftsIndex] := by
    decide +kernel
  rcases passes_keep_forced (w := busy) (t := .ftsIndex) forces_meddled (.next .none) hpast
    (forces_meddled _ _) hevents (by decide) (fun h => h.2.2) with hstarted | hrows
  · cases hstarted
  · exact hrows.mpr id

/-- Forced steps that are lost: in the end no row of the document is left, and no step
has begun after the force calls.  The first call was superseded by the second, which has
put the row of the last step alone in place of those of all steps; and this row was
deleted when the step, which was under way, had ended. -/
theorem meddled_rows_lost :
    (∀ past st, Store.Forces "d" (meddled past st) st (meddling.others past st)) ∧
    (process "d" meddling busy).1 = .ok .completed ∧
    (∀ t, (process "d" meddling busy).2.store.rowsOf "d" t = []) ∧
    ∃ since, (process "d" meddling busy).2.moments = since ++ busy.moments ∧
      meddling.timeline "d" meddled busy.moments busy.store since =
        [.cleared .ftsIndex, .forced .ftsIndex, .forced .hash, .started .ftsIndex] := by
  obtain ⟨hresult, hmoments, hjobs⟩ := process_busy
  refine ⟨forces_meddled, hresult, fun t => ?_, _, hmoments.trans (List.append_nil _).symm,
    by decide +kernel⟩
  rw [Store.rowsOf, Store.jobsFor, hjobs]
  rfl

end Pass

end Docket
