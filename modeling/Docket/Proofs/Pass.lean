import Docket.Pipeline.Pass
import Docket.Proofs.Handlers
import Docket.Proofs.Jobs

/-!
What a pass leaves alone, and at which desks its steps begin.  A pass writes the
jobs of its own document only, and under the job of a step no job of another step.
-/

namespace Docket

/-- The job that a call writes. -/
def StoreCall.job? : StoreCall → Option (String × Step)
  | .startJob id t | .finishJob id t _ | .requeueJob id t | .clearJob id t => some (id, t)
  | _ => none

/-- A call that writes no job of a document. -/
def StoreCall.Spares (id : String) (c : StoreCall) : Prop :=
  c ≠ .cancelJobs id ∧ ∀ t, c.job? ≠ some (id, t)

/-- A call that does not write the job of a document and a step. -/
def StoreCall.SparesRow (id : String) (t : Step) (c : StoreCall) : Prop :=
  c ≠ .cancelJobs id ∧ c.job? ≠ some (id, t)

/-- Moments whose calls are of a kind. -/
def Moment.Calls (kind : StoreCall → Prop) : Moment → Prop
  | .call c => kind c
  | .effect _ => True

theorem orNoDocument_ok {id : String} {r : Bool × Store} {st : Store}
    (h : Store.orNoDocument id r = .ok st) : r.1 = true ∧ r.2 = st := by
  rcases r with ⟨_ | _, st'⟩
  · cases h
  · cases h
    exact ⟨rfl, rfl⟩

theorem updateWithEntries_ok {st st' : Store} {d : Document}
    {entries : List (Int × Int)} {now : Calendar.Instant} {b : Bool}
    (h : st.updateWithEntries d entries now = .ok (b, st')) :
    st' = st ∨ ∃ entries, st' = { (st.updateDocument d now).2 with entries := entries } := by
  unfold Store.updateWithEntries at h
  split at h
  · cases h
    exact .inl rfl
  · next updated hupdated =>
      have hupdated : (st.updateDocument d now).2 = updated := by rw [hupdated]
      cases hreplace : updated.replaceEntries d.id entries with
      | error e =>
          rw [hreplace] at h
          cases h
      | ok st₁ =>
          rw [hreplace] at h
          cases h
          obtain ⟨_, -, hreplace⟩ := exists_of_bind_ok hreplace
          cases hreplace
          exact .inr ⟨_, by rw [hupdated]⟩

namespace StoreCall

variable {c : StoreCall} {now : Calendar.Instant} {st st' : Store} {id : String}
  {t : Step} {Good : Document → Prop}

/-- What is done on behalf of a copy writes no job. -/
theorem job?_of_onBehalf (hc : Moment.OnBehalf Good (.call c)) :
    c.job? = none ∧ ∀ id, c ≠ .cancelJobs id := by
  cases c <;> simp_all [Moment.OnBehalf, job?]

/-- A call that writes no job leaves all jobs as they are. -/
theorem jobs_perform (hjob : c.job? = none) (hcancel : ∀ id, c ≠ .cancelJobs id)
    (h : c.perform now st = .ok st') : st'.jobs = st.jobs := by
  cases c with
  | startJob | finishJob | requeueJob | clearJob => cases hjob
  | cancelJobs id => exact absurd rfl (hcancel id)
  | setStatus | setContent | updateDocument =>
      obtain ⟨-, rfl⟩ := orNoDocument_ok h
      rfl
  | updateWithEntries d =>
      obtain ⟨r, hr, h⟩ := exists_of_bind_ok h
      obtain ⟨-, rfl⟩ := orNoDocument_ok h
      rcases updateWithEntries_ok hr with heq | ⟨entries, heq⟩
      · rw [heq]
      · rw [heq]
        rfl
  | getDocument | pendingSteps | activeRules | documentEntries | autoMatchValues
  | documentTags =>
      cases h
      rfl

theorem jobsFor_perform (hc : c.Spares id) (h : c.perform now st = .ok st') :
    st'.jobsFor id = st.jobsFor id := by
  cases c with
  | startJob i u | finishJob i u _ | requeueJob i u =>
      have hne : id ≠ i := fun heq => hc.2 u (by rw [heq]; rfl)
      cases h
      exact Store.jobsFor_changeJob_of_ne hne fun _ => ⟨rfl, rfl⟩
  | clearJob i u =>
      have hne : id ≠ i := fun heq => hc.2 u (by rw [heq]; rfl)
      cases h
      exact Store.jobsFor_clearJob_of_ne hne
  | cancelJobs i =>
      have hne : i ≠ id := fun heq => hc.1 (by rw [heq])
      cases h
      simp only [Store.jobsFor, Store.deleteJobs, List.filter_filter]
      apply List.filter_congr
      intro r _
      by_cases hr : r.documentId = id
      · simp [hr, hne.symm]
      · simp [hr]
  | _ => rw [Store.jobsFor, jobs_perform rfl (by simp) h, Store.jobsFor]

theorem rowsOf_perform (hc : c.SparesRow id t) (h : c.perform now st = .ok st') :
    st'.rowsOf id t = st.rowsOf id t := by
  by_cases hspares : c.Spares id
  · rw [Store.rowsOf, jobsFor_perform hspares h, Store.rowsOf]
  · obtain ⟨u, hjob⟩ : ∃ u, c.job? = some (id, u) := by
      by_contra hnone
      exact hspares ⟨hc.1, fun u hu => hnone ⟨u, hu⟩⟩
    have hne : t ≠ u := fun heq => hc.2 (heq ▸ hjob)
    cases c with
    | startJob | finishJob | requeueJob =>
        cases hjob
        cases h
        exact Store.rowsOf_changeJob_of_ne hne fun _ => ⟨rfl, rfl⟩
    | clearJob =>
        cases hjob
        cases h
        exact Store.rowsOf_clearJob_of_ne hne
    | _ => cases hjob

end StoreCall

namespace Surroundings

variable {s : Surroundings} {id : String} {t : Step} {Good : Document → Prop}

/-- Others leave the jobs of a document alone. -/
def Spares (s : Surroundings) (id : String) : Prop :=
  ∀ past st, (s.others past st).jobsFor id = st.jobsFor id

theorem Spares.rowsOf (hspares : s.Spares id) (t : Step) (past : List Moment)
    (st : Store) : (s.others past st).rowsOf id t = st.rowsOf id t := by
  rw [Store.rowsOf, hspares past st, Store.rowsOf]

/-- After a call the store is what others have left, or what the call has made of it. -/
theorem after_call_cases (s : Surroundings) (past : List Moment) (st : Store)
    (c : StoreCall) :
    s.after past st (.call c) = s.others past st ∨
      s.refuses past c = none ∧
        c.perform (s.clock past) (s.others past st) = .ok (s.after past st (.call c)) := by
  simp only [after]
  cases hrefuse : s.refuses past c with
  | some e => exact .inl rfl
  | none =>
      cases hperform : c.perform (s.clock past) (s.others past st) with
      | error e => exact .inl rfl
      | ok st' => exact .inr ⟨rfl, rfl⟩

theorem after_of_refused {s : Surroundings} {past : List Moment} {st : Store}
    {c : StoreCall} {e : StoreError} (hrefuse : s.refuses past c = some e) :
    s.after past st (.call c) = s.others past st := by
  simp only [after, hrefuse, Option.isSome_some, ↓reduceIte]

theorem after_of_heeded {s : Surroundings} {past : List Moment} {st st' : Store}
    {c : StoreCall} (hheed : s.refuses past c = none)
    (hperform : c.perform (s.clock past) (s.others past st) = .ok st') :
    s.after past st (.call c) = st' := by
  simp only [after, hheed, hperform, Option.isSome_none, Bool.false_eq_true, ↓reduceIte]
  rfl

/-- A call that writes a job fails only where it is refused. -/
theorem verdict_of_job {s : Surroundings} {past : List Moment} {st : Store}
    {c : StoreCall} {job : String × Step} (hjob : c.job? = some job) :
    s.verdict past st c = match s.refuses past c with
      | some e => .error (.error (.store e))
      | none => .ok () := by
  unfold verdict
  cases s.refuses past c with
  | some e => rfl
  | none =>
      cases c with
      | startJob | finishJob | requeueJob | clearJob => rfl
      | _ => cases hjob

/-- Calls of a kind keep an assertion about the store that others and each such call
keep. -/
theorem maintains_of_perform {kind : StoreCall → Prop} {I : Store → Prop}
    (hothers : ∀ past st, I st → I (s.others past st))
    (hperform : ∀ c now st st', kind c → c.perform now st = .ok st' → I st → I st') :
    s.Maintains (Moment.Calls kind) fun _ st => I st := by
  rintro past st (c | e) hkind hI
  · rcases s.after_call_cases past st c with heq | ⟨-, hok⟩
    · rw [heq]
      exact hothers past st hI
    · exact hperform c _ _ _ hkind hok (hothers past st hI)
  · exact hI

theorem Spares.maintains_jobsFor (hspares : s.Spares id) (rows : List JobRow) :
    s.Maintains (Moment.Calls (StoreCall.Spares id)) fun _ st => st.jobsFor id = rows := by
  apply maintains_of_perform
  · intro past st hrows
    rw [hspares past st, hrows]
  · intro c now st st' hc hok hrows
    rw [StoreCall.jobsFor_perform hc hok, hrows]

theorem Spares.maintains_rowsOf (hspares : s.Spares id) (rows : List JobRow) :
    s.Maintains (Moment.Calls (StoreCall.SparesRow id t)) fun _ st =>
      st.rowsOf id t = rows := by
  apply maintains_of_perform
  · intro past st hrows
    rw [hspares.rowsOf, hrows]
  · intro c now st st' hc hok hrows
    rw [StoreCall.rowsOf_perform hc hok, hrows]

end Surroundings

namespace Moment

variable {Good : Document → Prop} {id other : String} {t u : Step} {m : Moment}

/-- What a step brings about under its job. -/
def OfStep (Good : Document → Prop) (id : String) (t : Step) (m : Moment) : Prop :=
  m.OnBehalf Good ∨ ∃ c, m = .call c ∧ c.job? = some (id, t)

/-- What a pass over a document brings about. -/
def OfPass (id : String) (m : Moment) : Prop :=
  (∃ t, m.OfStep (fun _ => True) id t) ∨ m = .call (.getDocument id) ∨
    m = .call (.pendingSteps id) ∨ m = .call (.setStatus id .ready)

theorem OfPass.get : (call (.getDocument id)).OfPass id := .inr (.inl rfl)

theorem OfPass.pending : (call (.pendingSteps id)).OfPass id := .inr (.inr (.inl rfl))

theorem OfPass.ready : (call (.setStatus id .ready)).OfPass id := .inr (.inr (.inr rfl))

theorem OfStep.start : (call (.startJob id t)).OfStep Good id t := .inr ⟨_, rfl, rfl⟩

theorem OfStep.finish (message : Option String) :
    (call (.finishJob id t message)).OfStep Good id t := .inr ⟨_, rfl, rfl⟩

theorem OfStep.requeue : (call (.requeueJob id t)).OfStep Good id t := .inr ⟨_, rfl, rfl⟩

theorem OfStep.clear : (call (.clearJob id t)).OfStep Good id t := .inr ⟨_, rfl, rfl⟩

theorem OnBehalf.spares (hm : m.OnBehalf Good) (id : String) :
    m.Calls (StoreCall.Spares id) := by
  cases m with
  | call c =>
      obtain ⟨hjob, hcancel⟩ := StoreCall.job?_of_onBehalf hm
      exact ⟨hcancel id, by simp [hjob]⟩
  | effect e => trivial

theorem Calls.mono {kind kind' : StoreCall → Prop} (hm : m.Calls kind)
    (himp : ∀ c, kind c → kind' c) : m.Calls kind' := by
  cases m with
  | call c => exact himp c hm
  | effect e => trivial

theorem OnBehalf.sparesRow (hm : m.OnBehalf Good) (id : String) (t : Step) :
    m.Calls (StoreCall.SparesRow id t) :=
  (hm.spares id).mono fun _ hc => ⟨hc.1, hc.2 t⟩

theorem OfStep.spares (hm : m.OfStep Good id t) (hne : other ≠ id) :
    m.Calls (StoreCall.Spares other) := by
  rcases hm with hm | ⟨c, rfl, hjob⟩
  · exact hm.spares other
  · refine ⟨?_, ?_⟩
    · rintro rfl
      cases hjob
    · intro u hu
      rw [hjob] at hu
      exact hne (Prod.mk.inj (Option.some.inj hu)).1.symm

theorem OfStep.ne_ready (hm : m.OfStep Good id t) :
    m ≠ .call (.setStatus other .ready) := by
  rintro rfl
  rcases hm with hm | ⟨c, heq, hjob⟩
  · cases hm
  · cases heq
    cases hjob

theorem OfStep.sparesRow (hm : m.OfStep Good id u) (hne : t ≠ u) :
    m.Calls (StoreCall.SparesRow id t) := by
  rcases hm with hm | ⟨c, rfl, hjob⟩
  · exact hm.sparesRow id t
  · refine ⟨?_, ?_⟩
    · rintro rfl
      cases hjob
    · intro ht
      rw [hjob] at ht
      exact hne (Prod.mk.inj (Option.some.inj ht)).2.symm

theorem OfPass.spares (hm : m.OfPass id) (hne : other ≠ id) :
    m.Calls (StoreCall.Spares other) := by
  rcases hm with ⟨t, hm⟩ | rfl | rfl | rfl
  · exact hm.spares hne
  · exact ⟨by simp, by simp [StoreCall.job?]⟩
  · exact ⟨by simp, by simp [StoreCall.job?]⟩
  · exact ⟨by simp, by simp [StoreCall.job?]⟩

theorem OfPass.ne_cancel (hm : m.OfPass id) : m ≠ .call (.cancelJobs other) := by
  rintro rfl
  rcases hm with ⟨t, hm | ⟨c, heq, hjob⟩⟩ | heq | heq | heq
  · cases hm
  · cases heq
    cases hjob
  · cases heq
  · cases heq
  · cases heq

end Moment

/-- A step that brings about nothing but what is on behalf of its copy, and whose copy
keeps a property. -/
def Handler.Minds (handler : Handler) (s : Surroundings) (Good : Document → Prop) : Prop :=
  ∀ I, s.Maintains (Moment.OnBehalf Good) I → Act.Keeps s (Desk.Has Good I) handler

theorem Handler.ofStep_minds {s : Surroundings} {Good : Document → Prop}
    (hgood : Document.Lasting s.registry Good) (scratch : String) (t : Step) :
    (Handler.ofStep scratch t).Minds s Good :=
  fun _ hI => Handler.ofStep_keeps hgood hI scratch t

/-- A document whose hash is none has no file to be hashed. -/
theorem Handler.hash_of_noPath {s : Surroundings} {desk : Desk} {e : StorageError}
    (h : s.storage.documentPath desk.copy = .error e) :
    hash s desk = (.error (.error (.storage e)), desk) := by
  refine (Act.bind_of_ok (a := s) rfl).trans ?_
  refine (Act.bind_of_ok (a := desk.copy) rfl).trans ?_
  apply Act.bind_of_error
  rw [h]
  rfl

/-- Surroundings without files, programs and tools, in which no language is told. -/
def Surroundings.bare : Surroundings where
  storage := ⟨"/data"⟩
  machine := fun _ _ => .error .notFound
  pageTools := ⟨"", ""⟩
  extractors := []
  language := { enabled := false }
  scratch := "/scratch"
  identify := fun _ => none
  clock := fun _ => default

/-- A document whose hash is none. -/
def Document.stray : Document :=
  { (default : Document) with id := "d", hash := "?", status := .processing }

/-- A world that has a document whose hash is none, and some rows. -/
def World.stray (rows : List JobRow) : World where
  store := { documents := [.ofDocument .stray], jobs := rows }
  files := .empty

/-- A desk after an event was reported. -/
def Desk.reported (desk : Desk) (e : Event) : Desk :=
  { desk with world := { desk.world with events := e :: desk.world.events } }

@[simp] theorem Desk.reported_moments (desk : Desk) (e : Event) :
    (desk.reported e).world.moments = desk.world.moments := rfl

@[simp] theorem Desk.reported_store (desk : Desk) (e : Event) :
    (desk.reported e).world.store = desk.world.store := rfl

@[simp] theorem Desk.reported_copy (desk : Desk) (e : Event) :
    (desk.reported e).copy = desk.copy := rfl

/-- A desk after a moment that touched no file. -/
def Desk.next (desk : Desk) (s : Surroundings) (m : Moment) : Desk :=
  { desk with world := desk.world.next s m }

@[simp] theorem Desk.next_moments (desk : Desk) (s : Surroundings) (m : Moment) :
    (desk.next s m).world.moments = m :: desk.world.moments := rfl

@[simp] theorem Desk.next_store (desk : Desk) (s : Surroundings) (m : Moment) :
    (desk.next s m).world.store = s.after desk.world.moments desk.world.store m := rfl

@[simp] theorem Desk.next_copy (desk : Desk) (s : Surroundings) (m : Moment) :
    (desk.next s m).copy = desk.copy := rfl

/-- A call that writes a job happens not at all, or is refused, or is carried out. -/
theorem Act.onWorld_tell_cases (s : Surroundings) {c : StoreCall} {job : String × Step}
    (hjob : c.job? = some job) (desk : Desk) :
    s.stops desk.world.moments = true ∧ Act.onWorld (.tell c) s desk = (.error .stop, desk) ∨
    s.stops desk.world.moments = false ∧ (∃ e, s.refuses desk.world.moments c = some e ∧
      Act.onWorld (.tell c) s desk =
        (.error (.error (.store e)), desk.next s (.call c))) ∨
    s.stops desk.world.moments = false ∧ s.refuses desk.world.moments c = none ∧
      Act.onWorld (.tell c) s desk = (.ok (), desk.next s (.call c)) := by
  cases hstop : s.stops desk.world.moments with
  | true =>
      refine .inl ⟨rfl, ?_⟩
      simp only [Act.onWorld, Act.within, Act.tell_of_stop c hstop]
  | false =>
      refine .inr ?_
      have htell : Act.onWorld (.tell c) s desk =
          (s.verdict desk.world.moments desk.world.store c, desk.next s (.call c)) := by
        simp only [Act.onWorld, Act.within, Act.tell_of_go c hstop]
        rfl
      rw [htell, Surroundings.verdict_of_job hjob]
      cases s.refuses desk.world.moments c with
      | some e => exact .inl ⟨rfl, e, rfl, rfl⟩
      | none => exact .inr ⟨rfl, rfl, rfl⟩

theorem Act.onWorld_tell_ok {s : Surroundings} {c : StoreCall} {desk desk' : Desk} {u : Unit}
    (h : Act.onWorld (.tell c) s desk = (.ok u, desk')) :
    desk' = desk.next s (.call c) ∧ s.refuses desk.world.moments c = none := by
  obtain ⟨w', htell, rfl⟩ := Act.onWorld_ok h
  obtain ⟨rfl, hheed, -⟩ := Act.tell_eq_ok htell
  exact ⟨rfl, hheed⟩

namespace Pass

open Act (Keeps)

section

variable {s : Surroundings} {id : String} {t : Step} {message : Option String}
  {desk desk₁ : Desk}

theorem begin_of_started (hstart : Act.onWorld (start id t) s desk = (.ok (), desk₁)) :
    begin id t s desk = (.ok (), desk₁.reported (.stepStarted id t)) :=
  Act.bind_of_ok hstart

theorem conclude_of_error {e : PipelineError}
    (hfinish : Act.onWorld (finish id t message) s desk = (.error (.error e), desk₁)) :
    conclude id t message s desk = (do
      Act.onWorld (requeue id t)
      Act.onWorld (Act.report (.stepFinished id t (some (unrecorded e))))
      return some (unrecorded e)) s desk₁ :=
  Act.bind_of_ok (Act.attempt_of_fail hfinish)

theorem conclude_of_interrupt {i : Interruption PipelineError}
    (hfinish : Act.onWorld (finish id t message) s desk = (.error i, desk₁))
    (hi : ∀ e, i ≠ .error e) : conclude id t message s desk = (.error i, desk₁) := by
  apply Act.bind_of_error
  cases i with
  | error e => exact absurd rfl (hi e)
  | panic payload => simp only [Act.attempt, hfinish]
  | stop => simp only [Act.attempt, hfinish]

/-- The end of a step is noted, and the step waits again. -/
theorem conclude_of_deferred {reason : String} (hmandatory : t.mandatory = true)
    (hfinish : Act.onWorld (finish id t (some reason)) s desk = (.ok (), desk₁)) :
    conclude id t (some reason) s desk = (do
      Act.onWorld (requeue id t)
      return some reason) s (desk₁.reported (.stepFinished id t (some reason))) := by
  refine (Act.bind_of_ok (Act.attempt_of_ok hfinish)).trans ?_
  refine (Act.bind_of_ok rfl).trans ?_
  rw [hmandatory]
  rfl

/-- The end of a step is noted, and its row is deleted. -/
theorem conclude_of_cleared (hfinal : t.mandatory = false ∨ message = none)
    (hfinish : Act.onWorld (finish id t message) s desk = (.ok (), desk₁)) :
    conclude id t message s desk = (do
      Act.onWorld (clear id t)
      return none) s (desk₁.reported (.stepFinished id t message)) := by
  refine (Act.bind_of_ok (Act.attempt_of_ok hfinish)).trans ?_
  refine (Act.bind_of_ok rfl).trans ?_
  rcases hfinal with hfinal | rfl
  · rw [hfinal]
    rfl
  · cases t.mandatory <;> rfl

theorem begin_copy : (begin id t s desk).2.copy = desk.copy := by
  rcases hstart : Act.onWorld (start id t) s desk with ⟨i | u, desk₁⟩
  · rw [begin, Act.bind_of_error hstart]
    exact congrArg (fun r => r.2.copy) hstart.symm
  · rw [begin_of_started hstart]
    exact congrArg (fun r => r.2.copy) hstart.symm

/-- Where the pass is not broken off at the end of a step, either the end was noted and the row was
deleted, which a mandatory step that has failed excludes, or the step was let wait again, whether its
end could be noted or not. -/
theorem conclude_ok {answer : Option String}
    (h : conclude id t message s desk = (.ok answer, desk₁)) :
    (answer = none ∧ (t.mandatory = false ∨ message = none) ∧
      let noted := (Act.onWorld (finish id t message) s desk).2
      s.refuses noted.world.moments (.clearJob id t) = none ∧
        desk₁ = (noted.reported (.stepFinished id t message)).next s (.call (.clearJob id t))) ∨
    ∃ reason, answer = some reason ∧
      let noted := (Act.onWorld (finish id t message) s desk).2
      s.refuses noted.world.moments (.requeueJob id t) = none ∧
        desk₁.world.store =
          s.after noted.world.moments noted.world.store (.call (.requeueJob id t)) := by
  rcases hfinish : Act.onWorld (finish id t message) s desk with ⟨i | u, noted⟩
  · cases i with
    | error e =>
        rw [conclude_of_error hfinish] at h
        obtain ⟨_, _, hrequeue, h⟩ := Act.exists_of_bind_ok h
        obtain ⟨rfl, hheed⟩ := Act.onWorld_tell_ok hrequeue
        cases h
        exact .inr ⟨_, rfl, hheed, rfl⟩
    | panic payload =>
        rw [conclude_of_interrupt hfinish (by simp)] at h
        cases h
    | stop =>
        rw [conclude_of_interrupt hfinish (by simp)] at h
        cases h
  · by_cases hfinal : t.mandatory = false ∨ message = none
    · rw [conclude_of_cleared hfinal hfinish] at h
      obtain ⟨_, _, hclear, h⟩ := Act.exists_of_bind_ok h
      obtain ⟨rfl, hheed⟩ := Act.onWorld_tell_ok hclear
      cases h
      exact .inl ⟨rfl, hfinal, hheed, rfl⟩
    · obtain ⟨hmandatory, reason, rfl⟩ : t.mandatory = true ∧ ∃ reason, message = some reason := by
        rw [not_or, Bool.not_eq_false] at hfinal
        exact ⟨hfinal.1, Option.ne_none_iff_exists'.mp hfinal.2⟩
      rw [conclude_of_deferred hmandatory hfinish] at h
      obtain ⟨_, _, hrequeue, h⟩ := Act.exists_of_bind_ok h
      obtain ⟨rfl, hheed⟩ := Act.onWorld_tell_ok hrequeue
      cases h
      exact .inr ⟨reason, rfl, hheed, rfl⟩

theorem succeeded_of_runStep_none {handler : Handler} (hmandatory : t.mandatory = true)
    (h : runStep handler id t s desk = (.ok none, desk₁)) :
    ∃ began, begin id t s desk = (.ok (), began) ∧ (handler s began).1 = .ok () := by
  obtain ⟨_, began, hbegin, h⟩ := Act.exists_of_bind_ok h
  obtain ⟨r, ended, hattempt, h⟩ := Act.exists_of_bind_ok h
  refine ⟨began, hbegin, ?_⟩
  have hnote : note r = none := by
    rcases conclude_ok h with ⟨-, hfinal | hnote, -⟩ | ⟨reason, hsome, -⟩
    · rw [hmandatory] at hfinal
      cases hfinal
    · exact hnote
    · cases hsome
  cases r with
  | error e => cases hnote
  | ok u =>
      rcases Act.attempt_cases handler s began with ⟨r, hr, hresult⟩ | ⟨i, hi, -⟩
      · rw [hr] at hattempt
        cases hattempt
        exact hresult
      · rw [hi] at hattempt
        cases hattempt

theorem runSteps_of_none {handlers : Step → Handler} {rest : List Step}
    (hstep : runStep (handlers t) id t s desk = (.ok none, desk₁)) :
    runSteps handlers id (t :: rest) s desk = runSteps handlers id rest s desk₁ :=
  Act.bind_of_ok hstep

theorem runSteps_append {handlers : Step → Handler} {a : List Step} (b : List Step)
    (ha : runSteps handlers id a s desk = (.ok none, desk₁)) :
    runSteps handlers id (a ++ b) s desk = runSteps handlers id b s desk₁ := by
  induction a generalizing desk with
  | nil =>
      cases ha
      rfl
  | cons t rest ih =>
      obtain ⟨r, desk₂, hstep, ha⟩ := Act.exists_of_bind_ok ha
      cases r with
      | some reason => cases ha
      | none => exact (runSteps_of_none hstep).trans (ih ha)

theorem runSteps_of_some {handlers : Step → Handler} {rest : List Step} {reason : String}
    (hstep : runStep (handlers t) id t s desk = (.ok (some reason), desk₁)) :
    runSteps handlers id (t :: rest) s desk = (.ok (some (t, reason)), desk₁) :=
  Act.bind_of_ok hstep

theorem runSteps_of_error {handlers : Step → Handler} {rest : List Step}
    {i : Interruption PipelineError}
    (hstep : runStep (handlers t) id t s desk = (.error i, desk₁)) :
    runSteps handlers id (t :: rest) s desk = (.error i, desk₁) :=
  Act.bind_of_error hstep

end

variable {s : Surroundings} {Good Good' : Document → Prop} {I : List Moment → Store → Prop}
  {id : String} {t : Step}

theorem begin_keeps (hI : s.Maintains (Moment.OfStep Good' id t) I) :
    Keeps s (Desk.Has Good I) (begin id t) :=
  .bind (.onWorld (.tell hI .start)) fun _ _ => .onWorld (.report _)

theorem conclude_keeps (hI : s.Maintains (Moment.OfStep Good' id t) I)
    (message : Option String) : Keeps s (Desk.Has Good I) (conclude id t message) := by
  refine .bind (.attempt (.onWorld (.tell hI (.finish message)))) fun r _ => ?_
  cases r with
  | error e =>
      refine .bind (.onWorld (.tell hI .requeue)) fun _ _ => ?_
      exact .bind (.onWorld (.report _)) fun _ _ => .pure trivial
  | ok u =>
      refine .bind (.onWorld (.report _)) fun _ _ => ?_
      split
      · exact .bind (.onWorld (.tell hI .requeue)) fun _ _ => .pure trivial
      · exact .bind (.onWorld (.tell hI .clear)) fun _ _ => .pure trivial

/-- A step under its job keeps what its handler and the calls about the job keep. -/
theorem runStep_keeps_of {handler : Handler} (hhandler : Keeps s (Desk.Has Good I) handler)
    (hI : s.Maintains (Moment.OfStep Good' id t) I) :
    Keeps s (Desk.Has Good I) (runStep handler id t) := by
  refine .bind (begin_keeps hI) fun _ _ => ?_
  refine .bind (.attempt hhandler) fun result _ => ?_
  exact conclude_keeps hI _

theorem runStep_keeps {handler : Handler} (hhandler : handler.Minds s Good)
    (hI : s.Maintains (Moment.OfStep Good id t) I) :
    Keeps s (Desk.Has Good I) (runStep handler id t) :=
  runStep_keeps_of (hhandler I (hI.mono fun _ hm => .inl hm)) hI

theorem runSteps_keeps_of {handlers : Step → Handler} (steps : List Step)
    (hsteps : ∀ t ∈ steps, Keeps s (Desk.Has Good I) (runStep (handlers t) id t)) :
    Keeps s (Desk.Has Good I) (runSteps handlers id steps) := by
  induction steps with
  | nil => exact .pure trivial
  | cons t rest ih =>
      refine .bind (hsteps t List.mem_cons_self) fun r _ => ?_
      cases r with
      | some reason => exact .pure trivial
      | none => exact ih fun u hu => hsteps u (List.mem_cons_of_mem t hu)

theorem runSteps_keeps {handlers : Step → Handler}
    (hhandlers : ∀ t, (handlers t).Minds s Good) (steps : List Step)
    (hI : ∀ t ∈ steps, s.Maintains (Moment.OfStep Good id t) I) :
    Keeps s (Desk.Has Good I) (runSteps handlers id steps) :=
  runSteps_keeps_of steps fun t ht => runStep_keeps (hhandlers t) (hI t ht)

theorem pending_keeps {kind : Moment → Prop} (hI : s.Maintains kind I)
    (hpending : kind (.call (.pendingSteps id))) : Keeps s (World.Has I) (pending id) :=
  .ask hI hpending (fun _ _ => rfl) _

theorem settle_keeps {kind : Moment → Prop} (hI : s.Maintains kind I)
    (hpending : kind (.call (.pendingSteps id)))
    (hready : kind (.call (.setStatus id .ready))) :
    Keeps s (World.Has I) (settle id) := by
  refine .bind (pending_keeps hI hpending) fun steps _ => ?_
  split
  · exact .tell hI hready
  · exact .pure trivial

theorem withCopy_keeps {α : Type} {d : Document} {x : Act Desk α} (hd : Good d)
    (hx : Keeps s (Desk.Has Good I) x) : Keeps s (World.Has I) (withCopy d x) :=
  fun w hw => ⟨(hx ⟨w, d⟩ ⟨hd, hw⟩).1.2, fun _ _ => trivial⟩

theorem runWith_keeps_of {handlers : Step → Handler} {kind : Moment → Prop} {d : Document}
    (hd : Good d) (steps : List Step) (hI : s.Maintains kind I)
    (hsteps : Keeps s (Desk.Has Good I) (runSteps handlers id steps))
    (hpending : kind (.call (.pendingSteps id)))
    (hready : kind (.call (.setStatus id .ready))) :
    Keeps s (World.Has I) (runWith handlers d id steps) := by
  refine .bind (withCopy_keeps hd hsteps) fun r _ => ?_
  rcases r with _ | ⟨step, reason⟩
  · refine .bind (settle_keeps hI hpending hready) fun _ _ => ?_
    exact .bind (.report _) fun _ _ => .pure trivial
  · exact .bind (.report _) fun _ _ => .pure trivial

theorem pending_ok {w w' : World} {steps : List Step}
    (h : pending id s w = (.ok steps, w')) :
    ∃ jobs, (s.others w.moments w.store).pendingJobs id = .ok jobs ∧
      steps = jobs.map (·.step) := by
  obtain ⟨hread, -⟩ := Act.ask_eq_ok (fun _ _ => rfl) h
  cases hjobs : (s.others w.moments w.store).pendingJobs id with
  | error e =>
      rw [hjobs] at hread
      cases hread
  | ok jobs =>
      rw [hjobs] at hread
      cases hread
      exact ⟨jobs, rfl, rfl⟩

theorem openScratch_keeps : Keeps s (World.Has I) openScratch := by
  refine .bind .surroundings fun _ _ => ?_
  refine .bind .state fun w _ => ?_
  split
  · exact .changeRest (fun _ => rfl) fun _ => rfl
  · exact .fail _

theorem closeScratch_keeps : Keeps s (World.Has I) closeScratch :=
  .bind .surroundings fun _ _ => .changeRest (fun _ => rfl) fun _ => rfl

/-- A pass keeps what each run of steps and all else that it does keeps. -/
theorem run_keeps_of {handlers : String → Step → Handler} {kind : Moment → Prop}
    (hI : s.Maintains kind I)
    (hsteps : ∀ steps, Keeps s (Desk.Has (fun _ => True) I)
      (runSteps (handlers s.scratch) id steps))
    (hget : kind (.call (.getDocument id))) (hpending : kind (.call (.pendingSteps id)))
    (hready : kind (.call (.setStatus id .ready))) :
    Keeps s (World.Has I) (run handlers id) := by
  refine .bind .surroundings fun _ hs => ?_
  subst hs
  refine .bind (.ask hI hget (fun _ _ => rfl) _) fun d _ => ?_
  refine .bind (pending_keeps hI hpending) fun steps _ => ?_
  refine .bind openScratch_keeps fun _ _ => ?_
  exact .followedBy (runWith_keeps_of trivial steps hI (hsteps steps) hpending hready)
    closeScratch_keeps

/-- A pass keeps what the moments of a pass over its document keep. -/
theorem run_keeps {handlers : String → Step → Handler}
    (hhandlers : ∀ t, (handlers s.scratch t).Minds s fun _ => True)
    (hI : s.Maintains (Moment.OfPass id) I) :
    Keeps s (World.Has I) (run handlers id) :=
  run_keeps_of hI (fun steps => runSteps_keeps hhandlers steps
    fun t _ => hI.mono fun _ hm => .inl ⟨t, hm⟩) .get .pending .ready

theorem process_keeps (hI : s.Maintains (Moment.OfPass id) I) :
    Keeps s (World.Has I) (process id) :=
  run_keeps (fun t => Handler.ofStep_minds (Document.lasting_true _) _ t) hI

/-- A pass leaves the jobs of other documents alone. -/
theorem process_jobsFor_of_ne {other : String} (hne : other ≠ id)
    (hspares : s.Spares other) (w : World) :
    (process id s w).2.store.jobsFor other = w.store.jobsFor other := by
  have hI := (hspares.maintains_jobsFor (w.store.jobsFor other)).mono
    fun m (hm : m.OfPass id) => hm.spares hne
  exact (process_keeps hI w rfl).1

/-! The desks at which steps begin. -/

/-- In a run of steps from a desk, the job of a step is started and its handler is
handed the desk. -/
inductive Begins (handlers : Step → Handler) (id : String) (s : Surroundings) :
    List Step → Desk → Step → Desk → Prop
  | here {t : Step} {rest : List Step} {desk desk' : Desk}
      (hbegin : begin id t s desk = (.ok (), desk')) :
      Begins handlers id s (t :: rest) desk t desk'
  | later {t u : Step} {rest : List Step} {desk desk₁ desk' : Desk}
      (hstep : runStep (handlers u) id u s desk = (.ok none, desk₁))
      (hrest : Begins handlers id s rest desk₁ t desk') :
      Begins handlers id s (u :: rest) desk t desk'

/-- A step that is not the first begins after the first was settled. -/
theorem begins_cons_of_ne {handlers : Step → Handler} {u : Step} {rest : List Step}
    {desk began : Desk} (hne : u ≠ t) :
    Begins handlers id s (u :: rest) desk t began ↔
      ∃ desk', runStep (handlers u) id u s desk = (.ok none, desk') ∧
        Begins handlers id s rest desk' t began := by
  constructor
  · intro hbegins
    cases hbegins with
    | here => exact absurd rfl hne
    | later hstep hrest => exact ⟨_, hstep, hrest⟩
  · rintro ⟨desk', hstep, hrest⟩
    exact .later hstep hrest

/-- The only step of a run begins with the copy that the run began with. -/
theorem begins_single {handlers : Step → Handler} {u : Step} {desk began : Desk}
    (h : Begins handlers id s [u] desk t began) : t = u ∧ began.copy = desk.copy := by
  cases h with
  | here hbegin =>
      have hcopy := congrArg (fun r => r.2.copy) hbegin
      exact ⟨rfl, hcopy.symm.trans begin_copy⟩
  | later _ hrest => cases hrest

/-- In a pass, the job of a step is started and its handler is handed the desk. -/
def BeginsIn (handlers : String → Step → Handler) (id : String) (s : Surroundings)
    (w : World) (t : Step) (desk : Desk) : Prop :=
  ∃ d w₁ steps w₂ w₃,
    Act.ask (.getDocument id) (·.getDocument id) s w = (.ok d, w₁) ∧
    pending id s w₁ = (.ok steps, w₂) ∧ openScratch s w₂ = (.ok (), w₃) ∧
    Begins (handlers s.scratch) id s steps ⟨w₃, d⟩ t desk

section

variable {handlers : String → Step → Handler} {w w₁ w₂ w₃ : World} {d : Document}
  {steps : List Step} {desk : Desk}

/-- What a pass does once it has read the document and its waiting steps. -/
theorem run_of_opened
    (hget : Act.ask (.getDocument id) (·.getDocument id) s w = (.ok d, w₁))
    (hpending : pending id s w₁ = (.ok steps, w₂))
    (hopen : openScratch s w₂ = (.ok (), w₃)) :
    run handlers id s w =
      (runWith (handlers s.scratch) d id steps).followedBy closeScratch s w₃ :=
  (Act.bind_of_ok (a := s) rfl).trans ((Act.bind_of_ok hget).trans
    ((Act.bind_of_ok hpending).trans (Act.bind_of_ok hopen)))

/-- What begins in a pass begins in the run of its steps. -/
theorem beginsIn_iff_of_opened
    (hget : Act.ask (.getDocument id) (·.getDocument id) s w = (.ok d, w₁))
    (hpending : pending id s w₁ = (.ok steps, w₂))
    (hopen : openScratch s w₂ = (.ok (), w₃)) {began : Desk} :
    BeginsIn handlers id s w t began ↔
      Begins (handlers s.scratch) id s steps ⟨w₃, d⟩ t began := by
  constructor
  · rintro ⟨d', _, _, _, _, hget', hpending', hopen', hbegins⟩
    rw [hget] at hget'
    cases hget'
    rw [hpending] at hpending'
    cases hpending'
    rw [hopen] at hopen'
    cases hopen'
    exact hbegins
  · intro hbegins
    exact ⟨d, w₁, steps, w₂, w₃, hget, hpending, hopen, hbegins⟩

/-- A pass opens, or it ends before any of its steps begins.  Until then it asks only. -/
theorem run_cases (handlers : String → Step → Handler) (id : String) (s : Surroundings)
    (w : World) {kind : Moment → Prop} (hI : s.Maintains kind I) (hw : World.Has I w)
    (hget : kind (.call (.getDocument id))) (hpending : kind (.call (.pendingSteps id))) :
    (∃ d w₁ steps w₂ w₃,
      Act.ask (.getDocument id) (·.getDocument id) s w = (.ok d, w₁) ∧
      pending id s w₁ = (.ok steps, w₂) ∧ openScratch s w₂ = (.ok (), w₃) ∧
      World.Has I w₁ ∧ World.Has I w₃) ∨
    ∃ i w', run handlers id s w = (.error i, w') ∧ World.Has I w' ∧
      ∀ t began, ¬ BeginsIn handlers id s w t began := by
  have hw₁ := (Keeps.ask hI hget (fun _ _ => rfl) (·.getDocument id) w hw).1
  rcases hget' : Act.ask (.getDocument id) (·.getDocument id) s w with ⟨i | d, w₁⟩
  · refine .inr ⟨i, w₁, (Act.bind_of_ok (a := s) rfl).trans (Act.bind_of_error hget'), ?_, ?_⟩
    · rwa [hget'] at hw₁
    · rintro t began ⟨_, _, _, _, _, h, -⟩
      rw [hget'] at h
      cases h
  rw [hget'] at hw₁
  have hw₂ : World.Has I (pending id s w₁).2 := (pending_keeps hI hpending w₁ hw₁).1
  rcases hpending' : pending id s w₁ with ⟨i | steps, w₂⟩
  · refine .inr ⟨i, w₂, (Act.bind_of_ok (a := s) rfl).trans ((Act.bind_of_ok hget').trans
      (Act.bind_of_error hpending')), ?_, ?_⟩
    · rwa [hpending'] at hw₂
    · rintro t began ⟨_, _, _, _, _, h, h', -⟩
      rw [hget'] at h
      cases h
      rw [hpending'] at h'
      cases h'
  rw [hpending'] at hw₂
  have hw₃ := (openScratch_keeps (s := s) w₂ hw₂).1
  rcases hopen : openScratch s w₂ with ⟨i | u, w₃⟩
  · refine .inr ⟨i, w₃, (Act.bind_of_ok (a := s) rfl).trans ((Act.bind_of_ok hget').trans
      ((Act.bind_of_ok hpending').trans (Act.bind_of_error hopen))), ?_, ?_⟩
    · rwa [hopen] at hw₃
    · rintro t began ⟨_, _, _, _, _, h, h', h'', -⟩
      rw [hget'] at h
      cases h
      rw [hpending'] at h'
      cases h'
      rw [hopen] at h''
      cases h''
  · rw [hopen] at hw₃
    exact .inl ⟨d, w₁, steps, w₂, w₃, rfl, hpending', hopen, hw₁, hw₃⟩

theorem runWith_of_deferred {handlers : Step → Handler} {reason : String}
    (hrun : runSteps handlers id steps s ⟨w, d⟩ = (.ok (some (t, reason)), desk)) :
    runWith handlers d id steps s w =
      (.ok (.deferred t reason), (desk.reported (.documentFinished id false)).world) := by
  have hsteps : withCopy d (runSteps handlers id steps) s w =
      (.ok (some (t, reason)), desk.world) := by
    simp only [withCopy, hrun]
  exact Act.bind_of_ok hsteps

theorem runWith_of_none {handlers : Step → Handler}
    (hrun : runSteps handlers id steps s ⟨w, d⟩ = (.ok none, desk)) :
    runWith handlers d id steps s w = (do
      settle id
      Act.report (.documentFinished id true)
      return DocumentOutcome.completed) s desk.world := by
  have hsteps : withCopy d (runSteps handlers id steps) s w = (.ok none, desk.world) := by
    simp only [withCopy, hrun]
  exact Act.bind_of_ok hsteps

/-- Deleting the scratch directory is seen neither in the past nor in the store. -/
theorem has_followedBy_closeScratch {α : Type} (x : Act World α) (w : World) :
    World.Has I (x.followedBy closeScratch s w).2 ↔ World.Has I (x s w).2 := by
  rcases h : x s w with ⟨i | a, w'⟩
  · cases i <;> simp only [Act.followedBy, h] <;> rfl
  · simp only [Act.followedBy, h]
    rfl

theorem runWith_of_error {handlers : Step → Handler} {i : Interruption PipelineError}
    (hrun : runSteps handlers id steps s ⟨w, d⟩ = (.error i, desk)) :
    runWith handlers d id steps s w = (.error i, desk.world) := by
  have hsteps : withCopy d (runSteps handlers id steps) s w = (.error i, desk.world) := by
    simp only [withCopy, hrun]
  exact Act.bind_of_error hsteps

/-- How the run of the steps of a pass ends: it is broken off, it cannot go on from a step, it is
broken off while the document is settled, or it is completed. -/
theorem runWith_cases (handlers : Step → Handler) (d : Document) (id : String)
    (steps : List Step) (s : Surroundings) (w : World) :
    (∃ i desk, runSteps handlers id steps s ⟨w, d⟩ = (.error i, desk) ∧
      runWith handlers d id steps s w = (.error i, desk.world)) ∨
    (∃ t reason desk, runSteps handlers id steps s ⟨w, d⟩ = (.ok (some (t, reason)), desk) ∧
      runWith handlers d id steps s w =
        (.ok (.deferred t reason), (desk.reported (.documentFinished id false)).world)) ∨
    (∃ i desk w', runSteps handlers id steps s ⟨w, d⟩ = (.ok none, desk) ∧
      settle id s desk.world = (.error i, w') ∧
      runWith handlers d id steps s w = (.error i, w')) ∨
    ∃ desk w', runSteps handlers id steps s ⟨w, d⟩ = (.ok none, desk) ∧
      settle id s desk.world = (.ok (), w') ∧
      runWith handlers d id steps s w =
        (.ok .completed, { w' with events := .documentFinished id true :: w'.events }) := by
  rcases hsteps : runSteps handlers id steps s ⟨w, d⟩ with ⟨i | _ | ⟨t, reason⟩, desk⟩
  · exact .inl ⟨i, desk, rfl, runWith_of_error hsteps⟩
  · rcases hsettle : settle id s desk.world with ⟨i | u, w'⟩
    · exact .inr (.inr (.inl ⟨i, desk, w', rfl, hsettle,
        (runWith_of_none hsteps).trans (Act.bind_of_error hsettle)⟩))
    · exact .inr (.inr (.inr ⟨desk, w', rfl, hsettle,
        (runWith_of_none hsteps).trans (Act.bind_of_ok hsettle)⟩))
  · exact .inr (.inl ⟨t, reason, desk, rfl, runWith_of_deferred hsteps⟩)

end

end Pass

end Docket
