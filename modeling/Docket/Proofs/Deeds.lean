import Docket.Proofs.Ledger
import Docket.Proofs.Stages

/-!
What is done to documents, one thing after the other: they are let wait, forced, passed over and
taken out of processing, and the running steps are let wait again.  What is done to one document
leaves the rows and the status of the others alone; what bears on the rows of a document is told
deed by deed.
-/

namespace Docket

open Act (Keeps)

/-! Calls about other documents. -/

/-- The document whose row a call may change. -/
def StoreCall.writes? : StoreCall → Option String
  | .setStatus i _ | .setContent i _ => some i
  | .updateDocument d | .updateWithEntries d => some d.id
  | _ => none

/-- A call that bears neither on the jobs of a document nor on its row. -/
def StoreCall.Leaves (id : String) (c : StoreCall) : Prop :=
  c.Spares id ∧ c.writes? ≠ some id

theorem Store.statusOf?_changeDocument_of_ne {s : Store} {i id : String}
    {f : DocumentRow → DocumentRow} (hf : ∀ r, (f r).id = r.id) (hne : i ≠ id) :
    (s.changeDocument i f).2.statusOf? id = s.statusOf? id := by
  rw [statusOf?_changeDocument hf, statusOf?]
  cases hr : s.documentRow? id with
  | none => rfl
  | some r =>
      have hother : r.id ≠ i := fun heq => hne (heq.symm.trans (id_of_documentRow? hr))
      simp [hother]

/-- A document that is stored has the status that it is stored with. -/
theorem Store.statusOf?_updateDocument_self {s : Store} {d : Document} {now : Calendar.Instant}
    (hdoc : s.hasDocument d.id = true) :
    (s.updateDocument d now).2.statusOf? d.id = some d.status.name := by
  refine (statusOf?_changeDocument (by intro r; rfl)).trans ?_
  obtain ⟨r, hr⟩ := exists_documentRow? hdoc
  rw [hr, Option.map_some, if_pos (id_of_documentRow? hr)]
  rfl

/-- A call about another document leaves the status of a document as it is. -/
theorem StoreCall.statusOf?_perform_of_ne {c : StoreCall} {now : Calendar.Instant}
    {st st' : Store} {id : String} (hc : c.writes? ≠ some id) (h : c.perform now st = .ok st') :
    st'.statusOf? id = st.statusOf? id := by
  have hne : ∀ i, c.writes? = some i → i ≠ id := fun i hi heq => hc (heq ▸ hi)
  cases c with
  | setStatus i status | setContent i content | updateDocument d =>
      obtain ⟨-, rfl⟩ := orNoDocument_ok h
      exact Store.statusOf?_changeDocument_of_ne (fun _ => rfl) (hne _ rfl)
  | updateWithEntries d =>
      obtain ⟨r, hr, h⟩ := exists_of_bind_ok h
      obtain ⟨-, rfl⟩ := orNoDocument_ok h
      rcases updateWithEntries_ok hr with heq | ⟨entries, heq⟩
      · rw [heq]
      · rw [heq]
        exact Store.statusOf?_changeDocument_of_ne (fun _ => rfl) (hne _ rfl)
  | _ =>
      cases h
      rfl

/-! What a pass and a quarantine bring about on behalf of their own document. -/

namespace Moment

variable {id other : String} {m : Moment}

/-- What a pass over a document brings about while its copy is one of that document. -/
def OfOwnPass (id : String) (m : Moment) : Prop :=
  (∃ t, m.OfStep (fun d => d.id = id) id t) ∨ m = .call (.getDocument id) ∨
    m = .call (.pendingSteps id) ∨ m = .call (.setStatus id .ready)

/-- What taking a document out of processing brings about. -/
def OfQuarantine (id : String) (m : Moment) : Prop :=
  m = .call (.cancelJobs id) ∨ m = .call (.getDocument id) ∨
    ∃ d, m = .call (.updateDocument d) ∧ d.Is id .error

theorem OfOwnPass.ofPass (hm : m.OfOwnPass id) : m.OfPass id := by
  rcases hm with ⟨t, hm | hm⟩ | hm
  · exact .inl ⟨t, .inl (hm.mono fun _ _ => trivial)⟩
  · exact .inl ⟨t, .inr hm⟩
  · exact .inr hm

theorem OfOwnPass.leaves (hm : m.OfOwnPass id) (hne : other ≠ id) :
    m.Calls (StoreCall.Leaves other) := by
  have hspares := hm.ofPass.spares hne
  have hid : some id ≠ some other := fun heq => hne (Option.some.inj heq).symm
  cases m with
  | effect e => trivial
  | call c =>
      refine ⟨hspares, ?_⟩
      rcases hm with ⟨t, hbehalf | ⟨c', heq, hjob⟩⟩ | heq | heq | heq
      · cases c with
        | updateDocument d | updateWithEntries d =>
            have hd : d.id = id := hbehalf
            rw [StoreCall.writes?, hd]
            exact hid
        | setContent i text =>
            obtain ⟨d, hd, rfl⟩ := hbehalf
            rw [StoreCall.writes?, hd]
            exact hid
        | setStatus => cases hbehalf
        | _ => simp [StoreCall.writes?]
      · cases heq
        cases c with
        | startJob | finishJob | requeueJob | clearJob => simp [StoreCall.writes?]
        | _ => cases hjob
      · cases heq
        simp [StoreCall.writes?]
      · cases heq
        simp [StoreCall.writes?]
      · cases heq
        exact hid

theorem OfQuarantine.leaves (hm : m.OfQuarantine id) (hne : other ≠ id) :
    m.Calls (StoreCall.Leaves other) := by
  rcases hm with rfl | rfl | ⟨d, rfl, hid, -⟩
  · exact ⟨⟨by simp [Ne.symm hne], by simp [StoreCall.job?]⟩, by simp [StoreCall.writes?]⟩
  · exact ⟨⟨by simp, by simp [StoreCall.job?]⟩, by simp [StoreCall.writes?]⟩
  · refine ⟨⟨by simp, by simp [StoreCall.job?]⟩, ?_⟩
    rw [StoreCall.writes?, hid]
    exact fun heq => hne (Option.some.inj heq).symm

end Moment

namespace Pass

variable {s : Surroundings} {id reason : String} {I : List Moment → Store → Prop}

/-- A pass keeps what its moments keep, whose copies are all copies of its document. -/
theorem process_keeps_own (hregistry : s.registry.KeepsIdentity)
    (hI : s.Maintains (Moment.OfOwnPass id) I) : Keeps s (World.Has I) (process id) := by
  refine .bind .surroundings fun s' hs => ?_
  subst s'
  refine .bind (.ask_of hI (.inr (.inl rfl)) (fun _ _ => rfl) _
    (Q := fun d => d.id = id) fun _ _ _ _ hget => (status_of_getDocument hget).1) fun d hd => ?_
  refine .bind (pending_keeps hI (.inr (.inr (.inl rfl)))) fun steps _ => ?_
  refine .bind openScratch_keeps fun _ _ => ?_
  have hminds : ∀ t, (Handler.ofStep s.scratch t).Minds s (Document.Is id d.status) :=
    fun t => Handler.ofStep_minds (hregistry.lasting id d.status) _ t
  have hsteps : ∀ t ∈ steps, s.Maintains (Moment.OfStep (Document.Is id d.status) id t) I := by
    refine fun t _ => hI.mono fun m hm => .inl ⟨t, ?_⟩
    exact hm.imp (fun hbehalf => hbehalf.mono fun _ h => h.1) fun h => h
  have hkeeps := runSteps_keeps hminds steps hsteps
  exact .followedBy (runWith_keeps_of ⟨hd, rfl⟩ steps hI hkeeps (.inr (.inr (.inl rfl)))
    (.inr (.inr (.inr rfl)))) closeScratch_keeps

theorem withFault_is {d : Document} (hd : d.id = id) (reason : String) :
    (withFault d reason).Is id .error := ⟨hd, rfl⟩

/-- Taking a document out of processing keeps what its moments keep. -/
theorem quarantine_keeps (hI : s.Maintains (Moment.OfQuarantine id) I) :
    Keeps s (World.Has I) (quarantine id reason) := by
  refine .bind (.tell hI (.inl rfl)) fun _ _ => ?_
  refine .bind (.ask_of hI (.inr (.inl rfl)) (fun _ _ => rfl) _
    (Q := fun d => d.id = id) fun _ _ _ _ hget => (status_of_getDocument hget).1) fun d hd => ?_
  exact .tell hI (.inr (.inr ⟨_, rfl, withFault_is hd reason⟩))

end Pass

/-! Letting documents wait. -/

namespace Store

variable {s s' : Store} {i id : String} {t first : Step} {now : Calendar.Instant}

theorem statusOf?_putPending (s : Store) (i id : String) (steps : List Step)
    (now : Calendar.Instant) : (s.putPending i steps now).statusOf? id = s.statusOf? id := by
  rw [statusOf?, documentRow?, putPending_documents, statusOf?, documentRow?]

theorem queueDocument_ok (h : s.queueDocument i now = .ok s') :
    s' = s.putPending i Step.all now := by
  obtain ⟨_, -, h⟩ := exists_of_bind_ok h
  cases h
  rfl

theorem forceDocument_ok (h : s.forceDocument i first now = .ok s') :
    s' = (s.deleteJobs i).2.putPending i first.onward now := by
  obtain ⟨found, -, h⟩ := exists_of_bind_ok h
  cases found with
  | none => cases h
  | some d =>
      obtain ⟨_, -, h⟩ := exists_of_bind_ok h
      cases h
      rfl

theorem statusOf?_queueDocument (h : s.queueDocument i now = .ok s') :
    s'.statusOf? id = s.statusOf? id := by
  rw [queueDocument_ok h, statusOf?_putPending]

theorem statusOf?_forceDocument (h : s.forceDocument i first now = .ok s') :
    s'.statusOf? id = s.statusOf? id := by
  rw [forceDocument_ok h, statusOf?_putPending]
  rfl

theorem rowsOf_queueDocument_of_ne (hne : id ≠ i) (h : s.queueDocument i now = .ok s') :
    s'.rowsOf id t = s.rowsOf id t := by
  rw [queueDocument_ok h, rowsOf_putPending_eq, if_neg fun heq => hne heq.1]

theorem rowsOf_forceDocument_of_ne (hne : id ≠ i) (h : s.forceDocument i first now = .ok s') :
    s'.rowsOf id t = s.rowsOf id t := by
  rw [forceDocument_ok h, rowsOf_putPending_eq, if_neg fun heq => hne heq.1,
    rowsOf_deleteJobs_eq, if_neg hne]

end Store

/-! Deeds. -/

/-- Others make rows of a document, change its rows in no other way and leave its status alone, and
no action changes the id or the status of a document. -/
structure Surroundings.OnlyFeeds (s : Surroundings) (id : String)
    (made : List Moment → Store → List Step) : Prop where
  feeds : s.Feeds id made
  status : ∀ past st, (s.others past st).statusOf? id = st.statusOf? id
  registry : s.registry.KeepsIdentity

/-- What is done to documents.  What fails to let a document wait changes nothing. -/
inductive Deed where
  /-- A document is let wait for every step. -/
  | queue (id : String) (now : Calendar.Instant)
  /-- A document is let wait for a step and all behind it. -/
  | force (id : String) (first : Step) (now : Calendar.Instant)
  | pass (id : String) (s : Surroundings)
  | quarantine (id reason : String) (s : Surroundings)
  /-- The running steps are let wait again. -/
  | reset

/-- The moments that have come about in a world since it was another. -/
def World.since (w base : World) : List Moment :=
  w.moments.take (w.moments.length - base.moments.length)

namespace Deed

/-- A world after a deed. -/
def apply (w : World) : Deed → World
  | .queue id now => { w with store := (w.store.queueDocument id now).toOption.getD w.store }
  | .force id first now =>
    { w with store := (w.store.forceDocument id first now).toOption.getD w.store }
  | .pass id s => (Pass.process id s w).2
  | .quarantine id reason s => (Pass.quarantine id reason s w).2
  | .reset => { w with store := w.store.resetRunning.2 }

/-- A world after some deeds, the last of which comes first. -/
def after (w : World) : List Deed → World
  | [] => w
  | deed :: earlier => deed.apply (after w earlier)

/-- Those who are about during a deed do nothing to a document but make rows of it. -/
def Fair (id : String) (made : Surroundings → List Moment → Store → List Step) : Deed → Prop
  | .pass _ s | .quarantine _ _ s => s.OnlyFeeds id (made s)
  | _ => True

/-- What letting a document wait from a step onward brings about among the rows of a document. -/
def madeBy (id i : String) (first : Step) : Except StoreError Store → List JobEvent
  | .ok _ => if i = id then [.made first] else []
  | .error _ => []

/-- The events that a deed adds. -/
def events (id : String) (made : Surroundings → List Moment → Store → List Step) (w : World) :
    Deed → List JobEvent
  | .queue i now => madeBy id i .hash (w.store.queueDocument i now)
  | .force i first now => madeBy id i first (w.store.forceDocument i first now)
  | .pass i s =>
    s.jobHistory id (made s) w.moments w.store (((Deed.pass i s).apply w).since w)
  | .quarantine i reason s =>
    s.jobHistory id (made s) w.moments w.store (((Deed.quarantine i reason s).apply w).since w)
  | .reset => [.reset]

/-- The events of some deeds, the last of which comes first. -/
def history (id : String) (made : Surroundings → List Moment → Store → List Step) (w : World) :
    List Deed → List JobEvent
  | [] => []
  | deed :: earlier => deed.events id made (after w earlier) ++ history id made w earlier

variable {id : String} {t : Step} {made : Surroundings → List Moment → Store → List Step}
  {w : World} {deed : Deed} {outset : Option JobStatus}

theorem since_of_recounts {s : Surroundings} {f : List Moment → Store → List Step}
    {P : List JobEvent → Store → Prop} {w' : World}
    (h : World.Has (s.Recounts id f w.moments w.store P) w') :
    w'.store = s.replay w.moments w.store (w'.since w) ∧
      P (s.jobHistory id f w.moments w.store (w'.since w)) w'.store := by
  obtain ⟨since, hpast, hst, hP⟩ := h
  have hsince : w'.since w = since := by simp [World.since, hpast]
  rw [hsince]
  exact ⟨hst, hP⟩

theorem recounts_process (id i : String) (s : Surroundings)
    (f : List Moment → Store → List Step) (w : World) :
    World.Has (s.Recounts id f w.moments w.store fun _ _ => True) (Pass.process i s w).2 := by
  have hkeeps : Keeps s (World.Has (s.Recounts id f w.moments w.store fun _ _ => True))
      (Pass.process i) := Pass.process_keeps fun _ _ _ _ h => h.next fun _ _ => trivial
  exact (hkeeps w ⟨[], rfl, rfl, trivial⟩).1

theorem stands_madeBy {i : String} {first : Step} {st : Store} {r : Except StoreError Store}
    (hmade : ∀ st', r = .ok st' → i = id →
      st'.Stands id t (if t ∈ first.onward then some .pending else none))
    (hother : ∀ st', r = .ok st' → i ≠ id → st'.rowsOf id t = st.rowsOf id t)
    (h : st.Stands id t outset) :
    (r.toOption.getD st).Stands id t (stage t outset (madeBy id i first r)) := by
  cases r with
  | error e => exact h
  | ok st' =>
      rw [madeBy]
      split
      · next hi => exact hmade st' rfl hi
      · next hi => exact (Store.stands_congr (hother st' rfl hi)).mpr h

/-- The events of a deed take the row of a step from one stage to the next. -/
theorem stands_apply (hfair : deed.Fair id made) (h : w.store.Stands id t outset) :
    (deed.apply w).store.Stands id t (stage t outset (deed.events id made w)) := by
  cases deed with
  | queue i now =>
      refine stands_madeBy (fun st' hqueue hi => ?_) (fun st' hqueue hi => ?_) h
      · subst hi
        exact Store.stands_queueDocument hqueue
      · exact Store.rowsOf_queueDocument_of_ne (Ne.symm hi) hqueue
  | force i first now =>
      refine stands_madeBy (fun st' hforce hi => ?_) (fun st' hforce hi => ?_) h
      · subst hi
        exact Store.stands_forceDocument hforce
      · exact Store.rowsOf_forceDocument_of_ne (Ne.symm hi) hforce
  | pass i s =>
      obtain ⟨hst, -⟩ := since_of_recounts (recounts_process id i s (made s) w)
      rw [apply, hst]
      exact Surroundings.stands_replay hfair.feeds h _
  | quarantine i reason s =>
      have hkeeps : Keeps s (World.Has (s.Recounts id (made s) w.moments w.store
          fun _ _ => True)) (Pass.quarantine i reason) :=
        Pass.quarantine_keeps fun _ _ _ _ h => h.next fun _ _ => trivial
      obtain ⟨hst, -⟩ := since_of_recounts (hkeeps w ⟨[], rfl, rfl, trivial⟩).1
      rw [apply, hst]
      exact Surroundings.stands_replay hfair.feeds h _
  | reset => exact Store.stands_resetRunning h

/-- The events of some deeds decide at which stage the row of a step is. -/
theorem stands_after {deeds : List Deed} (hfair : ∀ deed ∈ deeds, deed.Fair id made)
    (h : w.store.Stands id t outset) :
    (after w deeds).store.Stands id t (stage t outset (history id made w deeds)) := by
  induction deeds with
  | nil => exact h
  | cons deed earlier ih =>
      rw [after, history, stage_append]
      exact stands_apply (hfair deed List.mem_cons_self)
        (ih fun d hd => hfair d (List.mem_cons_of_mem deed hd))

end Deed

end Docket
