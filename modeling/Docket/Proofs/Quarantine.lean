import Docket.Proofs.Pulling
import Docket.Proofs.Stuck
import Docket.Worker.Manager

/-!
How long a document stays in error that was taken out of processing.  Only a pass over it takes it
out of error, one that ends as completed and sees no step waiting in the end.  Such a pass has run
every step that waited when it began; but where none did it has run nothing, and calls the document
ready all the same.  No pull hands such a document over, but whoever asks for it does.
-/

namespace Docket

open Act (Keeps)

theorem DocumentStatus.name_injective {a b : DocumentStatus} (h : a.name = b.name) : a = b := by
  have heq := congrArg DocumentStatus.ofName? h
  rw [ofName?_name, ofName?_name] at heq
  exact Option.some.inj heq

/-! The status of a document. -/

namespace Surroundings.OnlyFeeds

variable {s : Surroundings} {id : String} {made : List Moment → Store → List Step}
  {status : DocumentStatus} {column : Option String}

/-- What is done to others leaves the status of a document as it is. -/
theorem maintains_status_of_leaves (hfeeds : s.OnlyFeeds id made) :
    s.Maintains (Moment.Calls (StoreCall.Leaves id)) fun _ st => st.statusOf? id = column :=
  maintains_of_perform (fun past st h => (hfeeds.status past st).trans h)
    fun _ _ _ _ hc hok h => (StoreCall.statusOf?_perform_of_ne hc.2 hok).trans h

/-- What a pass does before it settles its document leaves the status as it is. -/
theorem maintains_status (hfeeds : s.OnlyFeeds id made) :
    s.Maintains (fun m => (∃ t, m.OfStep (Document.Is id status) id t) ∨
        m = .call (.getDocument id) ∨ m = .call (.pendingSteps id))
      fun _ st => st.statusOf? id = some status.name := by
  have hI : s.Maintains (Moment.Calls fun c =>
      Moment.OnBehalf (Document.Is id status) (.call c) ∨ c.writes? = none)
      fun _ st => st.statusOf? id = some status.name := by
    refine maintains_of_perform (fun past st h => (hfeeds.status past st).trans h) ?_
    rintro c now st st' (hc | hc) hok h
    · exact StoreCall.statusOf?_perform hc hok h
    · exact (StoreCall.statusOf?_perform_of_ne (by rw [hc]; simp) hok).trans h
  refine hI.mono ?_
  rintro m (⟨t, hbehalf | ⟨c, rfl, hjob⟩⟩ | rfl | rfl)
  · cases m with
    | effect e => trivial
    | call c => exact .inl hbehalf
  · refine .inr ?_
    cases c with
    | startJob | finishJob | requeueJob | clearJob => rfl
    | _ => cases hjob
  · exact .inr rfl
  · exact .inr rfl

/-- Taking a document out of processing leaves it in error if it is so already. -/
theorem maintains_error (hfeeds : s.OnlyFeeds id made) :
    s.Maintains (Moment.OfQuarantine id)
      fun _ st => st.statusOf? id = some DocumentStatus.error.name := by
  have hI : s.Maintains (Moment.Calls fun c => (Moment.call c).OfQuarantine id)
      fun _ st => st.statusOf? id = some DocumentStatus.error.name := by
    refine maintains_of_perform (fun past st h => (hfeeds.status past st).trans h) ?_
    rintro c now st st' (⟨⟨⟩⟩ | ⟨⟨⟩⟩ | ⟨d, ⟨⟨⟩⟩, hd⟩) hok h
    · exact (StoreCall.statusOf?_perform_of_ne (by simp [StoreCall.writes?]) hok).trans h
    · exact (StoreCall.statusOf?_perform_of_ne (by simp [StoreCall.writes?]) hok).trans h
    · have hbehalf : Moment.OnBehalf (Document.Is id .error) (.call (.updateDocument d)) := hd
      exact StoreCall.statusOf?_perform hbehalf hok h
  refine hI.mono fun m hm => ?_
  cases m with
  | effect e => trivial
  | call c => exact hm

end Surroundings.OnlyFeeds

namespace Pass

variable {s : Surroundings} {id : String} {t : Step} {made : List Moment → Store → List Step}
  {w w' : World} {desk desk' : Desk} {status : DocumentStatus} {steps : List Step}

/-- A pass that is broken off while it settles its document has not called it ready. -/
theorem settle_error (hfeeds : s.OnlyFeeds id made) {i : Interruption PipelineError}
    (hw : w.store.statusOf? id = some status.name) (h : settle id s w = (.error i, w')) :
    w'.store.statusOf? id = some status.name := by
  have hasks : Keeps s (World.Has fun _ st => st.statusOf? id = some status.name) (pending id) :=
    pending_keeps hfeeds.maintains_status (.inr (.inr rfl))
  have hkept := (hasks w hw).1
  rcases hpending : pending id s w with ⟨j | steps, w₁⟩
  · rw [hpending] at hkept
    cases (Act.bind_of_error hpending).symm.trans h
    exact hkept
  · rw [hpending] at hkept
    have h := (Act.bind_of_ok hpending).symm.trans h
    cases steps with
    | cons t rest => cases h
    | nil =>
        rcases Act.tell_eq_error h with rfl | ⟨-, hstore⟩
        · exact hkept
        · rw [hstore, hfeeds.status]
          exact hkept

/-- A pass has read some steps as waiting, has run them all, the mandatory ones with success, and has
called its document ready in the end. -/
structure Executes (id : String) (s : Surroundings) (w : World) (steps : List Step) : Prop where
  read : ∃ d w₁ w₂, Act.ask (.getDocument id) (·.getDocument id) s w = (.ok d, w₁) ∧
    pending id s w₁ = (.ok steps, w₂)
  ran : ∀ t ∈ steps, ∃ began, BeginsIn Handler.ofStep id s w t began ∧
    (t.mandatory = true → (Handler.ofStep s.scratch t s began).1 = .ok ())
  completed : (process id s w).1 = .ok .completed
  ready : (process id s w).2.store.statusOf? id = some DocumentStatus.ready.name

/-- A pass leaves its document the status that it had, or executes the steps that it has read. -/
theorem process_status (hfeeds : s.OnlyFeeds id made)
    (hw : w.store.statusOf? id = some status.name) :
    (process id s w).2.store.statusOf? id = some status.name ∨
      ∃ steps, Executes id s w steps := by
  have hI : s.Maintains _ fun _ st => st.statusOf? id = some status.name :=
    hfeeds.maintains_status
  rcases run_cases Handler.ofStep id s w hI hw (.inr (.inl rfl)) (.inr (.inr rfl)) with
    ⟨d, w₁, steps, w₂, w₃, hget, hpending, hopen, -, hw₃⟩ | ⟨i, w', hrun, hw', -⟩
  · -- the copy has the status that is stored, so what the steps write back does not change it
    have hd : d.Is id status := by
      obtain ⟨hid, hstatus⟩ := status_of_getDocument (Act.ask_eq_ok (fun _ _ => rfl) hget).1
      rw [hfeeds.status, hw] at hstatus
      exact ⟨hid, (DocumentStatus.name_injective (Option.some.inj hstatus)).symm⟩
    have hminds : ∀ t, (Handler.ofStep s.scratch t).Minds s (Document.Is id status) :=
      fun t => Handler.ofStep_minds (hfeeds.registry.lasting id status) _ t
    have hkept := (runSteps_keeps hminds steps (fun t _ => hI.mono fun _ hm => .inl ⟨t, hm⟩)
      ⟨w₃, d⟩ ⟨hd, hw₃⟩).1.2
    have hopened : process id s w =
        (runWith (Handler.ofStep s.scratch) d id steps).followedBy closeScratch s w₃ :=
      run_of_opened hget hpending hopen
    have hclosed : ∀ status' : DocumentStatus,
        (runWith (Handler.ofStep s.scratch) d id steps s w₃).2.store.statusOf? id =
          some status'.name →
        (process id s w).2.store.statusOf? id = some status'.name := by
      intro status' h
      rw [hopened]
      exact (has_followedBy_closeScratch (I := fun _ st => st.statusOf? id = some status'.name)
        _ w₃).mpr h
    rcases runWith_cases (Handler.ofStep s.scratch) d id steps s w₃ with
      ⟨i, desk, hsteps, hends⟩ | ⟨u, reason, desk, hsteps, hends⟩ |
      ⟨i, desk, w', hsteps, hsettle, hends⟩ | ⟨desk, w', hsteps, hsettle, hends⟩ <;>
      rw [hends] at hclosed <;> rw [hsteps] at hkept
    · exact .inl (hclosed status hkept)
    · exact .inl (hclosed status hkept)
    · exact .inl (hclosed status (settle_error hfeeds hkept hsettle))
    · obtain ⟨jobs, -, ⟨-, -, hready⟩ | ⟨-, -, hstore⟩⟩ := settle_ok hsettle
      · refine .inr ⟨steps, ⟨d, w₁, w₂, hget, hpending⟩, fun t ht => ?_, ?_,
          hclosed .ready hready⟩
        · obtain ⟨began, hbegins, hok⟩ := exists_begins_of_mem ht hsteps
          exact ⟨began, (beginsIn_iff_of_opened hget hpending hopen).mpr hbegins, hok⟩
        · rw [hopened, Act.followedBy_result, hends]
      · -- the last look has seen a step that waits, and nothing is settled
        refine .inl (hclosed status ?_)
        change w'.store.statusOf? id = some status.name
        rw [hstore, hfeeds.status]
        exact hkept
  · refine .inl ?_
    rw [process, hrun]
    exact hw'

/-- A pass over a document that can be read and none of whose steps waits executes no step, and calls
the document ready. -/
theorem executes_nil (hcalm : s.Calm id) (hregistry : s.registry.KeepsIdentity) {d : Document}
    (hstored : (s.others w.moments w.store).getDocument id = .ok d)
    (hpending : w.store.pendingJobs id = .ok [])
    (hscratch : ∃ files, w.files.makeDirectories s.scratch = .ok files) :
    Executes id s w [] := by
  obtain ⟨w₁, w₂, w₃, hget, hread, hopen, hw₃⟩ :=
    opened_of_calm hcalm hstored hpending hscratch
  have hnone : ∀ r ∈ w.store.jobsFor id, r.isPending = false := by
    obtain ⟨hperm, -⟩ := Store.readJobs_spec hpending
    have hrows := List.eq_nil_of_map_eq_nil (List.nil_perm.mp hperm)
    rw [Store.pendingRows_eq] at hrows
    intro r hr
    simpa using List.filter_eq_nil_iff.mp hrows r hr
  let outcome : Step → Except PipelineError Unit := fun _ => .ok ()
  have houtcome : ∀ t desk, BeginsIn Handler.ofStep id s w t desk →
      (Handler.ofStep s.scratch t s desk).1 = (outcome t).mapError .error := by
    intro t desk hbegins
    cases (beginsIn_iff_of_opened hget hread hopen).mp hbegins
  obtain ⟨hdone, hstands⟩ := process_of_clear hcalm hregistry hget hread hopen hw₃
    (status_of_getDocument hstored).1 houtcome (fun _ ht => (List.not_mem_nil ht).elim)
    fun r hr => hnone r (List.mem_filter.mp hr).1
  exact ⟨⟨d, w₁, w₂, hget, hread⟩, fun _ ht => (List.not_mem_nil ht).elim, hdone, hstands.status⟩

end Pass

/-! A pull. -/

namespace Pool

/-- Only what is offered is handed over. -/
theorem mem_of_mem_offerAll {between : Pool → Pool} {id : String} {ids : List String} {p : Pool}
    (h : id ∈ (offerAll between p ids).1.2) : id ∈ ids := by
  induction ids generalizing p with
  | nil => exact h
  | cons i rest ih =>
      unfold offerAll at h
      rcases hdispatch : p.dispatch i with ⟨e | _ | _ | _, q⟩ <;> simp only [hdispatch] at h
      case cons.ok.queued | cons.ok.alreadyQueued =>
        rcases List.mem_cons.mp h with rfl | h
        · exact List.mem_cons_self
        · exact List.mem_cons_of_mem i (ih h)
      case cons.error | cons.ok.deferred => exact List.mem_cons.mpr (.inl (List.mem_singleton.mp h))

end Pool

namespace Surroundings

variable {s : Surroundings} {id : String} {t : Step} {made : List Moment → Store → List Step}
  {base past : List Moment} {st₀ st : Store}

/-- What has come about decides at which stage the row of a step is, whatever comes next. -/
theorem Feeds.maintains_stage (hfeeds : s.Feeds id made) :
    s.Maintains (fun _ => True) (s.Recounts id made base st₀
      fun events st => st.Stands id t (stage t none events)) := by
  refine fun past st m _ h => h.next fun events hstands => ?_
  rw [stage_append]
  exact stands_after hfeeds hstands

/-- It does so once all rows of the document were deleted. -/
theorem Recounts.cancel {P : List JobEvent → Store → Prop}
    (h : s.Recounts id made base st₀ P past st)
    (hheed : s.refuses past (.cancelJobs id) = none) (t : Step) :
    s.Recounts id made base st₀ (fun events st => st.Stands id t (stage t none events))
      (.call (.cancelJobs id) :: past) (s.after past st (.call (.cancelJobs id))) := by
  refine h.next fun events _ => ?_
  rw [after_of_heeded hheed rfl, jobEvents, hheed]
  have hgone : ((s.others past st).deleteJobs id).2.Stands id t none := Store.rowsOf_deleteJobs
  simpa [StoreCall.jobEvent?, stage] using hgone

end Surroundings

/-! Deeds after a quarantine. -/

namespace Deed

variable {id reason : String} {t : Step} {s : Surroundings}
  {made : Surroundings → List Moment → Store → List Step} {w : World} {deed : Deed}
  {deeds : List Deed}

theorem after_append (w : World) (later earlier : List Deed) :
    after w (later ++ earlier) = after (after w earlier) later := by
  induction later with
  | nil => rfl
  | cons deed rest ih => rw [List.cons_append, after, ih, after]

theorem history_append (id : String) (made : Surroundings → List Moment → Store → List Step)
    (w : World) (later earlier : List Deed) :
    history id made w (later ++ earlier) =
      history id made (after w earlier) later ++ history id made w earlier := by
  induction later with
  | nil => rfl
  | cons deed rest ih =>
      rw [List.cons_append, history, ih, after_append, history, List.append_assoc]

/-- Once a document was taken out of processing its rows are what was made of them since. -/
theorem stands_quarantine (hfeeds : s.OnlyFeeds id (made s))
    (hdone : (Pass.quarantine id reason s w).1 = .ok ()) (t : Step) :
    ((Deed.quarantine id reason s).apply w).store.Stands id t
      (stage t none ((Deed.quarantine id reason s).events id made w)) := by
  obtain ⟨w', hrun⟩ : ∃ w', Pass.quarantine id reason s w = (.ok (), w') :=
    ⟨_, Prod.ext hdone rfl⟩
  obtain ⟨_, w₁, hcancel, hrest⟩ := Act.exists_of_bind_ok hrun
  obtain ⟨d, w₂, hget, hupdate⟩ := Act.exists_of_bind_ok hrest
  obtain ⟨rfl, hheed, -⟩ := Act.tell_eq_ok hcancel
  obtain ⟨-, rfl, -⟩ := Act.ask_eq_ok (fun _ _ => rfl) hget
  obtain ⟨rfl, -⟩ := Act.tell_eq_ok hupdate
  have houtset : s.Recounts id (made s) w.moments w.store (fun _ _ => True) w.moments w.store :=
    ⟨[], rfl, rfl, trivial⟩
  have hI : s.Maintains (fun _ => True) (s.Recounts id (made s) w.moments w.store
      fun events st => st.Stands id t (stage t none events)) := hfeeds.feeds.maintains_stage
  have hstands : World.Has (s.Recounts id (made s) w.moments w.store
      fun events st => st.Stands id t (stage t none events)) (Pass.quarantine id reason s w).2 := by
    rw [hrun]
    exact hI _ _ _ trivial (hI _ _ _ trivial (houtset.cancel hheed t))
  exact (since_of_recounts hstands).2

/-- What others make of the rows of a document until a pass over it has read which steps wait. -/
def opening (id : String) (made : Surroundings → List Moment → Store → List Step) (w : World)
    (s : Surroundings) : List JobEvent :=
  s.jobHistory id (made s) w.moments w.store [.call (.pendingSteps id), .call (.getDocument id)]

/-- A pass executes a step only if its row was made. -/
theorem wasMade_of_executes (hfeeds : s.OnlyFeeds id (made s)) {events : List JobEvent}
    (hstands : ∀ t, w.store.Stands id t (stage t none events)) {steps : List Step}
    (h : Pass.Executes id s w steps) (ht : t ∈ steps) :
    WasMade t (opening id made w s ++ events) := by
  obtain ⟨d, w₁, w₂, hget, hpending⟩ := h.read
  obtain ⟨-, rfl, -⟩ := Act.ask_eq_ok (fun _ _ => rfl) hget
  obtain ⟨jobs, hjobs, rfl⟩ := Pass.pending_ok hpending
  obtain ⟨rfl, hstore⟩ := Pass.pending_next hpending
  have hread := (Store.mem_pendingSteps_iff hjobs).mp ht
  rw [← hstore] at hread
  have hopened : (s.replay w.moments w.store
      [.call (.pendingSteps id), .call (.getDocument id)]).Stands id t
        (stage t none (opening id made w s ++ events)) := by
    rw [stage_append]
    exact Surroundings.stands_replay hfeeds.feeds (hstands t) _
  exact wasMade_of_stage (hopened.waits_iff.mp hread)

/-- A document in error stays so through a deed, unless it is a pass over it that executes what it
has read. -/
theorem error_apply (hfair : deed.Fair id made)
    (h : w.store.statusOf? id = some DocumentStatus.error.name) :
    (deed.apply w).store.statusOf? id = some DocumentStatus.error.name ∨
      ∃ s steps, deed = .pass id s ∧ s.OnlyFeeds id (made s) ∧ Pass.Executes id s w steps := by
  cases deed with
  | queue i now =>
      refine .inl ?_
      rw [apply]
      cases hqueue : w.store.queueDocument i now with
      | error e => exact h
      | ok st => exact (Store.statusOf?_queueDocument hqueue).trans h
  | force i first now =>
      refine .inl ?_
      rw [apply]
      cases hforce : w.store.forceDocument i first now with
      | error e => exact h
      | ok st => exact (Store.statusOf?_forceDocument hforce).trans h
  | pass i s =>
      by_cases hi : i = id
      · subst hi
        rcases Pass.process_status hfair h with hkept | ⟨steps, hexecutes⟩
        · exact .inl hkept
        · exact .inr ⟨s, steps, rfl, hfair, hexecutes⟩
      · have hI : s.Maintains (Moment.OfOwnPass i)
            fun _ st => st.statusOf? id = some DocumentStatus.error.name :=
          hfair.maintains_status_of_leaves.mono fun _ hm => hm.leaves (Ne.symm hi)
        exact .inl (Pass.process_keeps_own hfair.registry hI w h).1
  | quarantine i reason s =>
      refine .inl ?_
      by_cases hi : i = id
      · subst hi
        exact (Pass.quarantine_keeps hfair.maintains_error w h).1
      · have hI : s.Maintains (Moment.OfQuarantine i)
            fun _ st => st.statusOf? id = some DocumentStatus.error.name :=
          hfair.maintains_status_of_leaves.mono fun _ hm => hm.leaves (Ne.symm hi)
        exact (Pass.quarantine_keeps hI w h).1
  | reset => exact .inl h

end Deed

/-! A service. -/

/-- The pools of a service, and the world that they work on. -/
structure Bureau where
  manager : Manager
  world : World

/-- What happens in a service. -/
inductive Turn where
  /-- A document is handed to the pool. -/
  | hand (id : String)
  /-- The documents with waiting steps are handed to the pool, unless the store refuses to name
  them. -/
  | pull (refused : Option StoreError) (between : Pool → Pool)
  /-- Whatever else becomes of the pools: they are started and stopped, and their workers go on. -/
  | manage (change : Manager → Manager)
  | deed (deed : Deed)

/-- What a turn does to documents, if it does anything to them. -/
def Turn.deed? : Turn → Option Deed
  | .deed d => some d
  | _ => none

namespace Bureau

/-- What a pull is told about the documents with waiting steps. -/
def waiting (b : Bureau) (refused : Option StoreError) (limit : Nat) :
    Except StoreError (List String) :=
  match refused with
  | some e => .error e
  | none => .ok (b.world.store.documentsPending limit)

/-- A service after a turn. -/
def apply (b : Bureau) : Turn → Bureau
  | .hand id => { b with manager := (b.manager.add id).2 }
  | .pull refused between => { b with manager := (b.manager.pull (b.waiting refused) between).2 }
  | .manage change => { b with manager := change b.manager }
  | .deed deed => { b with world := deed.apply b.world }

/-- A service after some turns, the last of which comes first. -/
def after (b : Bureau) : List Turn → Bureau
  | [] => b
  | turn :: earlier => (b.after earlier).apply turn

/-- What bore on the rows of a document in some turns, the last of which comes first. -/
def history (id : String) (made : Surroundings → List Moment → Store → List Step) (b : Bureau)
    (turns : List Turn) : List JobEvent :=
  Deed.history id made b.world (turns.filterMap Turn.deed?)

/-- From the outset of some turns to their end a document is in error. -/
def InError (id : String) (b : Bureau) (turns : List Turn) : Prop :=
  ∀ later earlier, turns = later ++ earlier →
    (b.after earlier).world.store.statusOf? id = some DocumentStatus.error.name

variable {id reason : String} {t : Step} {s₀ : Surroundings}
  {made : Surroundings → List Moment → Store → List Step} {b : Bureau} {turn : Turn}
  {turns : List Turn}

theorem InError.at_end (h : b.InError id turns) :
    (b.after turns).world.store.statusOf? id = some DocumentStatus.error.name :=
  h [] turns rfl

theorem InError.cons (h : b.InError id turns)
    (hnow : (b.after (turn :: turns)).world.store.statusOf? id = some DocumentStatus.error.name) :
    b.InError id (turn :: turns) := by
  intro later earlier hsplit
  cases later with
  | nil =>
      rw [List.nil_append] at hsplit
      rw [← hsplit]
      exact hnow
  | cons _ later => exact h later earlier (List.cons.inj hsplit).2

/-- Only deeds change the world. -/
theorem world_after (b : Bureau) (turns : List Turn) :
    (b.after turns).world = Deed.after b.world (turns.filterMap Turn.deed?) := by
  induction turns with
  | nil => rfl
  | cons turn rest ih =>
      cases turn with
      | deed deed => exact congrArg (Deed.apply · deed) ih
      | hand | pull | manage => exact ih

/-- A pull hands a document over only if a row of it waits. -/
theorem exists_pending_of_offered {refused : Option StoreError} {between : Pool → Pool}
    (h : id ∈ (b.manager.pull (b.waiting refused) between).1.offered) :
    ∃ r ∈ b.world.store.jobs, r.documentId = id ∧ r.isPending = true := by
  obtain ⟨limit, hid⟩ : ∃ limit, id ∈ b.world.store.documentsPending limit := by
    unfold Manager.pull at h
    cases hpool : b.manager.pool with
    | none =>
        rw [hpool] at h
        cases h
    | some p =>
        rw [hpool] at h
        unfold Pool.pull at h
        by_cases hfull : p.queueFull = true
        · simp only [hfull, ↓reduceIte] at h
          cases h
        · rw [Bool.not_eq_true] at hfull
          cases refused with
          | some e =>
              simp only [hfull, waiting] at h
              cases h
          | none =>
              simp only [hfull, waiting] at h
              exact ⟨p.pullLimit, List.mem_of_mem_filter (Pool.mem_of_mem_offerAll h)⟩
  have hwaiting := List.mem_mergeSort.mp (List.mem_of_mem_take hid)
  obtain ⟨r, hr, hdoc⟩ := List.mem_map.mp (List.mem_eraseDups.mp hwaiting)
  obtain ⟨hr, hpending⟩ := List.mem_filter.mp hr
  exact ⟨r, hr, hdoc, hpending⟩

/-- A document in error stays so, up to the first pass over it that executes what it has read. -/
theorem inError_or_executes (hfair : ∀ deed, .deed deed ∈ turns → deed.Fair id made)
    (h : b.world.store.statusOf? id = some DocumentStatus.error.name) :
    b.InError id turns ∨ ∃ later s earlier steps,
      turns = later ++ .deed (.pass id s) :: earlier ∧ b.InError id earlier ∧
        Pass.Executes id s (b.after earlier).world steps := by
  induction turns with
  | nil =>
      refine .inl fun later earlier hsplit => ?_
      obtain ⟨-, rfl⟩ := List.append_eq_nil_iff.mp hsplit.symm
      exact h
  | cons turn rest ih =>
      rcases ih fun deed hdeed => hfair deed (List.mem_cons_of_mem turn hdeed) with
        herror | ⟨later, s, earlier, steps, rfl, hbefore, hexecutes⟩
      · cases turn with
        | hand | pull | manage => exact .inl (herror.cons herror.at_end)
        | deed deed =>
            rcases Deed.error_apply (hfair deed List.mem_cons_self) herror.at_end with
              hkept | ⟨s, steps, rfl, -, hexecutes⟩
            · exact .inl (herror.cons hkept)
            · exact .inr ⟨[], s, rest, steps, rfl, herror, hexecutes⟩
      · exact .inr ⟨turn :: later, s, earlier, steps, rfl, hbefore, hexecutes⟩

/-- After a quarantine the rows of a document are what was made of them since. -/
theorem stands_after_quarantine
    (hfair : ∀ deed, .deed deed ∈ turns ++ [.deed (.quarantine id reason s₀)] →
      deed.Fair id made)
    (hdone : (Pass.quarantine id reason s₀ b.world).1 = .ok ()) (t : Step) :
    (b.after (turns ++ [.deed (.quarantine id reason s₀)])).world.store.Stands id t
      (stage t none (b.history id made (turns ++ [.deed (.quarantine id reason s₀)]))) := by
  have hfair₀ : s₀.OnlyFeeds id (made s₀) :=
    hfair (.quarantine id reason s₀) (List.mem_append_right _ List.mem_cons_self)
  have hdeeds : ∀ deed ∈ turns.filterMap Turn.deed?, deed.Fair id made := by
    intro deed hdeed
    obtain ⟨turn, hturn, hsome⟩ := List.mem_filterMap.mp hdeed
    cases turn with
    | deed d =>
        cases hsome
        exact hfair _ (List.mem_append_left _ hturn)
    | hand | pull | manage => cases hsome
  rw [world_after, history, List.filterMap_append, Deed.after_append, Deed.history_append,
    stage_append]
  refine Deed.stands_after hdeeds ?_
  have hstands := Deed.stands_quarantine (t := t) hfair₀ hdone
  simpa [Turn.deed?, Deed.after, Deed.history] using hstands

theorem after_append (b : Bureau) (later earlier : List Turn) :
    b.after (later ++ earlier) = (b.after earlier).after later := by
  induction later with
  | nil => rfl
  | cons turn rest ih => rw [List.cons_append, after, ih, after]

/-- Once a document was taken out of processing it stays in error, however often it is let wait,
forced, handed to the pool and pulled, until a pass over it executes all steps that it reads as
waiting, each of which has got its row since; where it reads none, it has executed nothing, and yet
the document is ready.  A pull hands the document over only if a row of it waits; but a pass that
goes on undisturbed over a document without waiting rows calls it ready whenever it can read it. -/
theorem error_until_executed
    (hfair : ∀ deed, .deed deed ∈ turns ++ [.deed (.quarantine id reason s₀)] →
      deed.Fair id made)
    (hdone : (Pass.quarantine id reason s₀ b.world).1 = .ok ()) :
    let q : Bureau := b.apply (.deed (.quarantine id reason s₀))
    (q.InError id turns ∨ ∃ later s earlier steps,
      turns = later ++ .deed (.pass id s) :: earlier ∧ q.InError id earlier ∧
        Pass.Executes id s (q.after earlier).world steps ∧
        ∀ t ∈ steps, WasMade t (Deed.opening id made (q.after earlier).world s ++
          b.history id made (earlier ++ [.deed (.quarantine id reason s₀)]))) ∧
    (∀ refused between,
      id ∈ ((q.after turns).manager.pull ((q.after turns).waiting refused) between).1.offered →
        ∃ r ∈ (q.after turns).world.store.jobs, r.documentId = id ∧ r.isPending = true) ∧
    ∀ (s : Surroundings) (d : Document), s.Calm id → s.registry.KeepsIdentity →
      (s.others (q.after turns).world.moments (q.after turns).world.store).getDocument id =
        .ok d →
      (q.after turns).world.store.pendingJobs id = .ok [] →
      (∃ files, (q.after turns).world.files.makeDirectories s.scratch = .ok files) →
      Pass.Executes id s (q.after turns).world [] := by
  intro q
  have hq : ∀ earlier, b.after (earlier ++ [.deed (.quarantine id reason s₀)]) =
      q.after earlier := fun earlier => b.after_append earlier _
  refine ⟨?_, fun _ _ => exists_pending_of_offered, fun s d hcalm hregistry hstored hpending
    hscratch => Pass.executes_nil hcalm hregistry hstored hpending hscratch⟩
  have herror : q.world.store.statusOf? id = some DocumentStatus.error.name :=
    Pass.quarantine_status hdone
  rcases inError_or_executes (fun deed hdeed => hfair deed (List.mem_append_left _ hdeed))
    herror with hkept | ⟨later, s, earlier, steps, rfl, hbefore, hexecutes⟩
  · exact .inl hkept
  · refine .inr ⟨later, s, earlier, steps, rfl, hbefore, hexecutes, fun t ht => ?_⟩
    have hfeeds : s.OnlyFeeds id (made s) := by
      refine hfair (.pass id s) (List.mem_append_left _ ?_)
      exact List.mem_append_right later List.mem_cons_self
    refine Deed.wasMade_of_executes hfeeds (fun u => ?_) hexecutes ht
    rw [← hq]
    refine stands_after_quarantine (fun deed hdeed => hfair deed ?_) hdone u
    rcases List.mem_append.mp hdeed with hdeed | hdeed
    · refine List.mem_append_left _ (List.mem_append_right later ?_)
      exact List.mem_cons_of_mem _ hdeed
    · exact List.mem_append_right _ hdeed

/-! A document in error that is handed to the pool. -/

/-- A service whose document waits for every step, and its pool. -/
def running : Bureau :=
  ⟨⟨1, 1, 1, some (.start 1 1 1), []⟩, Deed.added⟩

/-- What it does after it has taken the document out of processing. -/
def handedOver : List Turn := [.deed (.pass "d" .bare), .hand "d"]

/-- The service after the document was taken out of processing. -/
def quarantined : Bureau := running.apply (.deed (.quarantine "d" "fault" .bare))

theorem bare_onlyFeeds : Surroundings.bare.OnlyFeeds "d" fun _ _ => [] :=
  ⟨fun _ _ => .none, fun _ _ => rfl, Registry.builtin_keepsIdentity⟩

theorem fair_handedOver (deed : Deed)
    (h : .deed deed ∈ handedOver ++ [.deed (.quarantine "d" "fault" .bare)]) :
    deed.Fair "d" fun _ _ _ => [] := by
  simp only [handedOver, List.cons_append, List.nil_append, List.mem_cons, Turn.deed.injEq,
    reduceCtorEq, List.not_mem_nil, or_false, false_or] at h
  rcases h with rfl | rfl <;> exact bare_onlyFeeds

theorem quarantine_running : (Pass.quarantine "d" "fault" .bare running.world).1 = .ok () := rfl

/-- What is stored then: the document with its fault, and no rows. -/
def faulty : Store := { documents := [.ofDocument (Pass.withFault .stray "fault")] }

theorem store_quarantined : quarantined.world.store = faulty := by decide +kernel

theorem executes_quarantined :
    Pass.Executes "d" .bare (quarantined.after [.hand "d"]).world [] := by
  have hstore : (quarantined.after [.hand "d"]).world.store = faulty := store_quarantined
  have hstored : faulty.getDocument "d" = .ok (Pass.withFault .stray "fault") := rfl
  have hpending : faulty.pendingJobs "d" = .ok [] := by
    rw [Store.pendingJobs, Store.pendingRows_eq]
    exact Store.readJobs_nil
  rw [← hstore] at hstored hpending
  exact Pass.executes_nil (Pass.bare_calm "d") Registry.builtin_keepsIdentity hstored hpending
    ⟨_, rfl⟩

/-- The pass over the document ends its error. -/
theorem error_until_executed_handedOver :
    ∃ later s earlier steps, handedOver = later ++ .deed (.pass "d" s) :: earlier ∧
      quarantined.InError "d" earlier ∧
      Pass.Executes "d" s (quarantined.after earlier).world steps := by
  have h := (error_until_executed fair_handedOver quarantine_running).1
  rcases h with herror | ⟨later, s, earlier, steps, hsplit, hbefore, hexecutes, -⟩
  · have hready := executes_quarantined.ready.symm.trans herror.at_end
    exact absurd hready (by decide)
  · exact ⟨later, s, earlier, steps, hsplit, hbefore, hexecutes⟩

/-- A document that does not stay in error: it was taken out of processing and has no rows since, and
a pass over it begins no step, but ends as completed and calls it ready. -/
theorem quarantined_ready_without_rows :
    (Pass.quarantine "d" "fault" .bare running.world).1 = .ok () ∧
    quarantined.world.store.statusOf? "d" = some DocumentStatus.error.name ∧
    (quarantined.after [.hand "d"]).world.store.jobs = [] ∧
    (∀ t began, ¬ Pass.BeginsIn Handler.ofStep "d" .bare (quarantined.after [.hand "d"]).world
      t began) ∧
    (quarantined.after handedOver).world.store.statusOf? "d" =
      some DocumentStatus.ready.name := by
  refine ⟨quarantine_running, Pass.quarantine_status quarantine_running,
    congrArg Store.jobs store_quarantined, ?_, executes_quarantined.ready⟩
  rintro t began ⟨d, w₁, steps, w₂, w₃, hget, hpending, -, hbegins⟩
  obtain ⟨d', w₁', w₂', hget', hpending'⟩ := executes_quarantined.read
  cases hget'.symm.trans hget
  cases hpending'.symm.trans hpending
  cases hbegins

end Bureau

end Docket
