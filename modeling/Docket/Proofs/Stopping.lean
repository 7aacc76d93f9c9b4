import Docket.Proofs.Deeds
import Docket.Proofs.Exclusion
import Docket.Worker.Handle
import Docket.Worker.Manager

/-!
Stopping a pool.  A worker that asks whether to stop after the pool was told to begins nothing more,
so that each worker begins one document more at most; a worker that has begun a document ends only
once it has reported it; and a document that no worker takes out of its queue keeps its rows, since
workers write the rows of no documents but their own.
-/

namespace Docket

open Act (Keeps)
open Calendar (Instant)

/-! The rows that a worker writes. -/

/-- The document whose jobs a call writes, if it writes any. -/
def StoreCall.jobsOf? : StoreCall → Option String
  | .startJob id _ | .finishJob id _ _ | .requeueJob id _ | .clearJob id _ | .cancelJobs id => some id
  | _ => none

/-- A call that writes the jobs of no document but one. -/
def StoreCall.KeepsTo (id : String) (c : StoreCall) : Prop :=
  ∀ other ∈ c.jobsOf?, other = id

instance (id : String) (c : StoreCall) : Decidable (c.KeepsTo id) :=
  inferInstanceAs (Decidable (∀ other ∈ c.jobsOf?, other = id))

theorem StoreCall.spares_iff {id : String} {c : StoreCall} :
    c.Spares id ↔ c.jobsOf? ≠ some id := by
  cases c <;> simp [Spares, job?, jobsOf?]

theorem StoreCall.keepsTo_iff {id : String} {c : StoreCall} :
    c.KeepsTo id ↔ ∀ other, other ≠ id → c.Spares other := by
  simp only [spares_iff, KeepsTo, Option.mem_def]
  constructor
  · exact fun h other hne hother => hne (h other hother)
  · exact fun h other hother => by_contra fun hne => h other hne hother

theorem Act.handling_world (pass : Act World DocumentOutcome) (s : Surroundings) (w : World) :
    (handling pass s w).2 = (pass s w).2 := by
  rcases hpass : pass s w with ⟨result, w'⟩
  simp only [handling, hpass]
  cases Handled.ofResult result <;> rfl

/-- Whatever a worker does with a document, it writes the jobs of that document only. -/
theorem Act.handle_keepsTo (id : String) (s : Surroundings) (w : World) :
    ∃ since, (handle id s w).2.moments = since ++ w.moments ∧
      ∀ c, .call c ∈ since → c.KeepsTo id := by
  let I (past : List Moment) (_ : Store) : Prop :=
    ∃ since, past = since ++ w.moments ∧ ∀ c, Moment.call c ∈ since → c.KeepsTo id
  have hI : s.Maintains (Moment.Calls (StoreCall.KeepsTo id)) I := by
    rintro past st m hm ⟨since, rfl, hsince⟩
    refine ⟨m :: since, rfl, fun c hc => ?_⟩
    rcases List.mem_cons.mp hc with rfl | hc
    · exact hm
    · exact hsince c hc
  have hcalls : ∀ m : Moment, (∀ other, other ≠ id → m.Calls (StoreCall.Spares other)) →
      m.Calls (StoreCall.KeepsTo id) := by
    intro m hm
    cases m with
    | call c => exact StoreCall.keepsTo_iff.mpr hm
    | effect e => trivial
  have hpass : Keeps s (World.Has I) (handling (Pass.process id)) := by
    intro w hw
    have hkept := (Pass.process_keeps (hI.mono fun m (hm : m.OfPass id) =>
      hcalls m fun _ hne => hm.spares hne) w hw).1
    exact ⟨by rwa [handling_world], fun _ _ => trivial⟩
  have hquarantine : ∀ reason, Keeps s (World.Has I) (Pass.quarantine id reason) := fun reason =>
    Pass.quarantine_keeps (hI.mono fun m hm => hcalls m fun _ hne =>
      (hm.leaves hne).mono fun _ hc => hc.1)
  have hkeeps : Keeps s (World.Has I) (handle id) := by
    have htakeOut : ∀ h, Keeps s (World.Has I) (takeOut id h) := by
      intro h
      cases h with
      | panicked payload =>
          exact .bind (.report _) fun _ _ =>
            .bind (.attempt (hquarantine payload.reason)) fun _ _ => .pure trivial
      | outcome o => exact .pure trivial
      | failed message => exact .pure trivial
    exact .bind hpass fun h _ => .bind (htakeOut h) fun _ _ => .pure trivial
  exact (hkeeps w ⟨[], rfl, by simp⟩).1

namespace Store

variable {s : Store} {id : String}

/-- The documents with waiting rows after the running rows were reset. -/
theorem mem_waitingDocuments_resetRunning : id ∈ s.resetRunning.2.waitingDocuments ↔
    ∃ r ∈ s.jobsFor id, r.isPending = true ∨ r.status = JobStatus.running.name := by
  simp only [waitingDocuments, List.mem_eraseDups, List.mem_map, List.mem_filter, resetRunning,
    mem_jobsFor, decide_eq_true_eq]
  constructor
  · rintro ⟨_, ⟨⟨r, hr, rfl⟩, hpending⟩, hid⟩
    by_cases hrunning : r.status = JobStatus.running.name
    · simp only [hrunning, ↓reduceIte] at hid
      exact ⟨r, ⟨hr, hid⟩, .inr hrunning⟩
    · simp only [hrunning, ↓reduceIte] at hpending hid
      exact ⟨r, ⟨hr, hid⟩, .inl hpending⟩
  · rintro ⟨r, ⟨hr, hid⟩, hstatus⟩
    refine ⟨_, ⟨⟨r, hr, rfl⟩, ?_⟩, ?_⟩
    · by_cases hrunning : r.status = JobStatus.running.name
      · simp [hrunning, JobRow.requeued, JobRow.isPending]
      · simpa [hrunning] using hstatus
    · split <;> exact hid

end Store

/-! What a move does to one worker. -/

/-- The worker that makes a move. -/
def PoolMove.worker? : PoolMove → Option Nat
  | .check i | .take i | .present i | .finish i _ | .release i | .report i | .quit i => some i
  | .claim _ | .look | .send | .record | .digest | .askStop => none

/-- What becomes of a worker with a move: others may only add to its queue, and it goes on in its
loop with its own. -/
inductive Worker.Goes (stopping : Bool) (i : Nat) : Worker → PoolMove → Worker → Prop
  | stay {w : Worker} {m : PoolMove} (hm : m.worker? ≠ some i) (more : List String) :
      Goes stopping i w m { w with queue := w.queue ++ more }
  | check {queue : List String} (hgo : stopping = false) :
      Goes stopping i ⟨queue, .resting⟩ (.check i) ⟨queue, .willing⟩
  | stop {queue : List String} (hstop : stopping = true) :
      Goes stopping i ⟨queue, .resting⟩ (.check i) ⟨[], .ended⟩
  | quit {queue : List String} (hstop : stopping = true) :
      Goes stopping i ⟨queue, .willing⟩ (.quit i) ⟨[], .ended⟩
  | take {id : String} {queue : List String} :
      Goes stopping i ⟨id :: queue, .willing⟩ (.take i) ⟨queue, .received id⟩
  | present {id : String} {queue : List String} :
      Goes stopping i ⟨queue, .received id⟩ (.present i) ⟨queue, .busy id⟩
  | finish {id : String} {queue : List String} {later : Bool} :
      Goes stopping i ⟨queue, .busy id⟩ (.finish i later) ⟨queue, .leaving id later⟩
  | release {id : String} {queue : List String} {later : Bool} :
      Goes stopping i ⟨queue, .leaving id later⟩ (.release i) ⟨queue, .freed id later⟩
  | report {id : String} {queue : List String} {later : Bool} :
      Goes stopping i ⟨queue, .freed id later⟩ (.report i) ⟨queue, .resting⟩

/-- A worker has a new document at hand only after it has taken it out of its queue. -/
theorem Worker.Goes.held {stopping : Bool} {i : Nat} {w w' : Worker} {m : PoolMove} {id : String}
    (h : w.Goes stopping i m w') (hid : id ∈ w'.phase.held) :
    id ∈ w.phase.held ∨ m = .take i ∧ ∃ rest, w.queue = id :: rest := by
  cases h with
  | take => exact .inr ⟨rfl, _, by rw [List.mem_singleton.mp hid]⟩
  | stay | present | finish => exact .inl hid
  | check | stop | quit | release | report => cases hid

theorem Worker.mem_held_of_current {w : Worker} {id : String} (h : w.current? = some id) :
    id ∈ w.phase.held := by
  unfold current? at h
  split at h
  · next hphase =>
      cases h
      simp [hphase, WorkerPhase.held]
  · cases h

namespace Pool

variable {p q : Pool} {m : PoolMove} {n i : Nat} {w : Worker} {id : String}

/-- A worker that makes a move goes on in its loop, and gives up no claim but that on the document
that it has at hand. -/
theorem goes_of_workerMove (hmove : p.workerMove? i w m = some q) (hm : m.worker? = some i) :
    (∃ w', q.workers = p.workers.set i w' ∧ w.Goes p.stopping i m w') ∧
      q.stopping = p.stopping ∧ ∀ id ∈ p.pledged, id ∈ q.pledged ∨ id ∈ w.phase.held := by
  obtain ⟨queue, phase⟩ := w
  cases m with
  | check k =>
      cases hm
      cases phase <;> simp only [workerMove?] at hmove <;> cases hmove
      refine ⟨?_, rfl, fun _ hid => .inl hid⟩
      split
      · next hstop => exact ⟨_, rfl, .stop hstop⟩
      · next hgo => exact ⟨_, rfl, .check (by simpa using hgo)⟩
  | take k =>
      cases hm
      cases phase <;> cases queue <;> simp only [workerMove?] at hmove <;> cases hmove
      exact ⟨⟨_, rfl, .take⟩, rfl, fun _ hid => .inl hid⟩
  | present k =>
      cases hm
      cases phase <;> simp only [workerMove?] at hmove <;> cases hmove
      exact ⟨⟨_, rfl, .present⟩, rfl, fun _ hid => .inl hid⟩
  | quit k =>
      cases hm
      cases phase <;> simp only [workerMove?] at hmove <;> try cases hmove
      cases hstop : p.stopping <;> simp [hstop] at hmove
      subst hmove
      exact ⟨⟨_, rfl, .quit rfl⟩, hstop, fun _ hid => .inl hid⟩
  | finish k later =>
      cases hm
      cases phase <;> simp only [workerMove?] at hmove <;> cases hmove
      exact ⟨⟨_, rfl, .finish⟩, rfl, fun _ hid => .inl hid⟩
  | release k =>
      cases hm
      cases phase <;> cases hfree : p.dispatching <;>
        simp only [workerMove?, hfree] at hmove <;> cases hmove
      refine ⟨⟨_, rfl, .release⟩, rfl, fun a ha => ?_⟩
      simp only [pledged, setWorker, hfree, mem_withoutId, WorkerPhase.held,
        List.mem_singleton] at ha ⊢
      exact (ne_or_eq a _).imp_left fun hne => ⟨ha, hne⟩
  | report k =>
      cases hm
      cases phase <;> simp only [workerMove?] at hmove <;> cases hmove
      exact ⟨⟨_, rfl, .report⟩, rfl, fun _ hid => .inl hid⟩
  | claim | look | send | record | digest | askStop => cases hm

theorem move?_of_worker {k : Nat} (hm : m.worker? = some k) :
    p.move? m = (p.workers[k]?).bind fun w => p.workerMove? k w m := by
  cases m <;> cases hm <;> rfl

/-- All that others do to workers is to add a document to a queue, and they give up no claim. -/
theorem workers_of_move (hmove : p.move? m = some q) (hm : m.worker? = none) :
    (q.workers = p.workers ∨ ∃ k w id, p.workers[k]? = some w ∧
      q.workers = p.workers.set k { w with queue := w.queue ++ [id] }) ∧
    (p.stopping = true → q.stopping = true) ∧ ∀ id ∈ p.pledged, id ∈ q.pledged := by
  cases m with
  | claim id =>
      cases hfree : p.dispatching <;> simp only [move?, hfree] at hmove <;> cases hmove
      split
      · exact ⟨.inl rfl, fun h => h, fun _ h => h⟩
      · exact ⟨.inl rfl, fun h => h, fun _ h => by simpa [pledged, hfree] using h⟩
  | look =>
      simp only [move?] at hmove
      split at hmove
      · next hlooking =>
          obtain ⟨w, -, rfl⟩ := Option.map_eq_some_iff.mp hmove
          exact ⟨.inl rfl, fun h => h, fun _ h => by simpa [pledged, hlooking] using h⟩
      · cases hmove
  | send =>
      simp only [move?] at hmove
      split at hmove
      · next id seen hlooking =>
          have hclaims : p.pledged = p.claims := by simp only [pledged, hlooking]
          rw [hclaims]
          split at hmove
          · cases hmove
          · split at hmove <;> cases hmove
            · exact ⟨.inl rfl, fun h => h, fun _ h => h⟩
            · next hplace =>
                exact ⟨.inr ⟨_, _, id, (place_ok hplace).1, rfl⟩, fun h => h,
                  fun _ h => List.mem_cons_of_mem id h⟩
      · cases hmove
  | record =>
      simp only [move?] at hmove
      split at hmove <;> cases hmove
      next hsent =>
        exact ⟨.inl rfl, fun h => h, fun a ha => (mem_withId _ _ _).mpr (by
          simpa [pledged, hsent] using ha)⟩
  | digest =>
      simp only [move?] at hmove
      split at hmove
      · next later _ _ =>
          cases hmove
          cases later <;> exact ⟨.inl rfl, fun h => h, fun _ h => h⟩
      · cases hmove
  | askStop =>
      cases hmove
      exact ⟨.inl rfl, fun _ => rfl, fun _ h => h⟩
  | check | take | present | finish | release | report | quit => cases hm

/-- What a move does to each worker. -/
theorem goes_of_move (hmove : p.move? m = some q) (hw : p.workers[i]? = some w) :
    ∃ w', q.workers[i]? = some w' ∧ w.Goes p.stopping i m w' := by
  obtain ⟨hi, -⟩ := List.getElem?_eq_some_iff.mp hw
  have hstays : m.worker? ≠ some i → w.Goes p.stopping i m w := fun hm => by
    simpa using Worker.Goes.stay hm []
  cases hm : m.worker? with
  | some k =>
      rw [move?_of_worker hm] at hmove
      obtain ⟨v, hv, hmove⟩ := Option.bind_eq_some_iff.mp hmove
      obtain ⟨⟨v', hworkers, hgoes⟩, -⟩ := goes_of_workerMove hmove hm
      rw [hworkers]
      by_cases hk : k = i
      · subst hk
        obtain rfl := Option.some.inj (hw.symm.trans hv)
        exact ⟨v', List.getElem?_set_self hi, hgoes⟩
      · exact ⟨w, by rw [List.getElem?_set_ne hk, hw], hstays (by simp [hm, hk])⟩
  | none =>
      rcases (workers_of_move hmove hm).1 with hworkers | ⟨k, v, id, hv, hworkers⟩
      · exact ⟨w, by rw [hworkers, hw], hstays (by simp [hm])⟩
      · rw [hworkers]
        by_cases hk : k = i
        · subst hk
          obtain rfl := Option.some.inj (hw.symm.trans hv)
          exact ⟨_, List.getElem?_set_self hi, .stay (by simp [hm]) [id]⟩
        · exact ⟨w, by rw [List.getElem?_set_ne hk, hw], hstays (by simp [hm])⟩

/-- A move neither makes a worker nor takes one away. -/
theorem length_workers_of_move (hmove : p.move? m = some q) :
    q.workers.length = p.workers.length := by
  cases hm : m.worker? with
  | some k =>
      rw [move?_of_worker hm] at hmove
      obtain ⟨v, -, hmove⟩ := Option.bind_eq_some_iff.mp hmove
      obtain ⟨⟨v', hworkers, -⟩, -⟩ := goes_of_workerMove hmove hm
      rw [hworkers, List.length_set]
  | none =>
      rcases (workers_of_move hmove hm).1 with hworkers | ⟨k, v, id, hv, hworkers⟩
      · rw [hworkers]
      · rw [hworkers, List.length_set]

/-- A pool that was told to stop stays so. -/
theorem stopping_of_move (hmove : p.move? m = some q) (hstop : p.stopping = true) :
    q.stopping = true := by
  cases hm : m.worker? with
  | some k =>
      rw [move?_of_worker hm] at hmove
      obtain ⟨v, -, hmove⟩ := Option.bind_eq_some_iff.mp hmove
      exact (goes_of_workerMove hmove hm).2.1.trans hstop
  | none => exact (workers_of_move hmove hm).2.1 hstop

/-- A document stays pledged until the worker that has it at hand gives up the claim. -/
theorem pledged_of_move (hmove : p.move? m = some q) (hid : id ∈ p.pledged)
    (hnone : ∀ w ∈ p.workers, id ∉ w.phase.held) : id ∈ q.pledged := by
  cases hm : m.worker? with
  | some k =>
      rw [move?_of_worker hm] at hmove
      obtain ⟨v, hv, hmove⟩ := Option.bind_eq_some_iff.mp hmove
      exact ((goes_of_workerMove hmove hm).2.2 id hid).resolve_right
        (hnone v (List.mem_of_getElem? hv))
  | none => exact (workers_of_move hmove hm).2.2 id hid

/-- A document that was sent to the workers and that none of them has at hand. -/
structure Parked (p : Pool) (id : String) : Prop where
  pledged : id ∈ p.pledged
  spared : ∀ w ∈ p.workers, id ∉ w.phase.held

/-- A document in a queue is parked. -/
theorem Sound.parked (hp : p.Sound n) (hw : w ∈ p.workers) (hid : id ∈ w.queue) :
    p.Parked id where
  pledged := hp.pledged_of_held id (List.mem_flatMap.mpr ⟨w, hw, List.mem_append_left _ hid⟩)
  spared v hv hheld := by
    obtain ⟨i, hi⟩ := List.getElem?_of_mem hw
    obtain ⟨j, hj⟩ := List.getElem?_of_mem hv
    obtain rfl := hp.worker_unique hi hj (List.mem_append_left _ hid)
      (List.mem_append_right _ hheld)
    obtain rfl := Option.some.inj (hi.symm.trans hj)
    have hnodup : (w.queue ++ w.phase.held).Nodup := (List.nodup_flatMap.mp hp.nodup).1 w hw
    exact List.disjoint_of_nodup_append hnodup hid hheld

/-- A document that is parked stays so until a worker takes it out of its queue. -/
theorem Parked.move (hp : p.Parked id) (hmove : p.move? m = some q) :
    q.Parked id ∨ ∃ i w rest, m = .take i ∧ p.workers[i]? = some w ∧ w.queue = id :: rest := by
  by_cases htaken : ∃ i w rest, m = .take i ∧ p.workers[i]? = some w ∧ w.queue = id :: rest
  · exact .inr htaken
  · refine .inl ⟨pledged_of_move hmove hp.pledged hp.spared, fun w' hw' hheld => htaken ?_⟩
    obtain ⟨i, hi⟩ := List.getElem?_of_mem hw'
    obtain ⟨hlt, -⟩ := List.getElem?_eq_some_iff.mp hi
    rw [length_workers_of_move hmove] at hlt
    have hw := List.getElem?_eq_getElem hlt
    obtain ⟨v, hv, hgoes⟩ := goes_of_move hmove hw
    obtain rfl := Option.some.inj (hi.symm.trans hv)
    rcases hgoes.held hheld with hold | ⟨rfl, rest, hrest⟩
    · exact absurd hold (hp.spared _ (List.getElem_mem hlt))
    · exact ⟨i, _, rest, rfl, hw, hrest⟩

end Pool

/-! What a worker has still to do with the document that it is at. -/

namespace WorkerPhase

/-- How many documents a worker begins at most once its pool was told to stop. -/
def further : WorkerPhase → Nat
  | .willing | .received _ => 1
  | .resting | .busy _ | .leaving _ _ | .freed _ _ | .ended => 0

/-- The document that a worker has begun and not yet reported. -/
def begun? : WorkerPhase → Option String
  | .busy id | .leaving id _ | .freed id _ => some id
  | .resting | .willing | .received _ | .ended => none

/-- The moves that a worker makes before it is done with a document that it has begun. -/
def remaining (i : Nat) (later : Bool) : WorkerPhase → List PoolMove
  | .busy _ => [.finish i later, .release i, .report i]
  | .leaving _ _ => [.release i, .report i]
  | .freed _ _ => [.report i]
  | .resting | .willing | .received _ | .ended => []

theorem further_le (phase : WorkerPhase) : phase.further ≤ 1 := by
  cases phase <;> simp [further]

end WorkerPhase

/-- To begin a document uses up what a worker may still begin, and once the pool was told to stop
nothing brings it back. -/
theorem Worker.Goes.further {i : Nat} {w w' : Worker} {m : PoolMove} (h : w.Goes true i m w') :
    w'.phase.further + (if m = .present i then 1 else 0) ≤ w.phase.further := by
  cases h with
  | stay hm more =>
      have hne : m ≠ .present i := by
        rintro rfl
        exact hm rfl
      simp [hne]
  | check hgo => cases hgo
  | stop | quit | take | present | finish | release | report => simp [WorkerPhase.further]

/-! A pool beside the job store. -/

/-- A pool and the job store that its workers write to. -/
structure Shift where
  pool : Pool
  store : Store

/-- What may happen next. -/
inductive ShiftEvent where
  /-- A thread of the pool moves, somebody hands it a document, or it is told to stop. -/
  | move (m : PoolMove)
  /-- A worker makes a call about the document that it is at. -/
  | call (worker : Nat) (c : StoreCall) (now : Instant)
deriving DecidableEq

/-- The move that a worker makes with an event. -/
def ShiftEvent.ownMove? (i : Nat) : ShiftEvent → Option PoolMove
  | .move m => if m.worker? = some i then some m else none
  | .call _ _ _ => none

namespace Shift

/-- A pool that has just been started on a store. -/
def opening (workers capacity batch : Nat) (s : Store) : Shift :=
  ⟨.start workers capacity batch, s⟩

/-- The shift after an event; `none` if that cannot happen now.  A call that fails changes
nothing. -/
def step? (t : Shift) : ShiftEvent → Option Shift
  | .move m => (t.pool.move? m).map fun p => { t with pool := p }
  | .call i c now =>
    ((t.pool.workers[i]?).bind Worker.current?).bind fun id =>
      if c.KeepsTo id then
        some { t with store := (c.perform now t.store).toOption.getD t.store }
      else none

/-- The shift after events in order; `none` if one of them cannot happen. -/
def run? (t : Shift) (events : List ShiftEvent) : Option Shift := events.foldlM step? t

/-- The moves that a worker makes in a run. -/
def ownMoves (i : Nat) (events : List ShiftEvent) : List PoolMove :=
  events.filterMap (ShiftEvent.ownMove? i)

/-- In a run a worker takes a document out of its queue. -/
def Takes (t : Shift) (events : List ShiftEvent) (id : String) : Prop :=
  ∃ before after i v w rest, events = before ++ .move (.take i) :: after ∧
    t.run? before = some v ∧ v.pool.workers[i]? = some w ∧ w.queue = id :: rest

variable {t u v : Shift} {n i : Nat} {w : Worker} {id : String} {m : PoolMove} {e : ShiftEvent}
  {events : List ShiftEvent}

theorem run?_cons (t : Shift) (e : ShiftEvent) (events : List ShiftEvent) :
    t.run? (e :: events) = (t.step? e).bind (·.run? events) :=
  rfl

theorem ownMoves_of_worker {m : PoolMove} (hm : m.worker? = some i) :
    ownMoves i (.move m :: events) = m :: ownMoves i events := by
  simp [ownMoves, ShiftEvent.ownMove?, hm]

theorem ownMoves_of_other {m : PoolMove} (hm : m.worker? ≠ some i) :
    ownMoves i (.move m :: events) = ownMoves i events := by
  simp [ownMoves, ShiftEvent.ownMove?, hm]

theorem Takes.cons (hstep : t.step? e = some v) (h : v.Takes events id) :
    t.Takes (e :: events) id := by
  obtain ⟨before, after, i, v', w, rest, rfl, hrun, hw⟩ := h
  refine ⟨e :: before, after, i, v', w, rest, rfl, ?_, hw⟩
  rw [run?_cons, hstep]
  exact hrun

/-- An event is a move of the pool, or a call about a document that a worker is at. -/
theorem step_cases (hstep : t.step? e = some v) :
    (∃ m, e = .move m ∧ t.pool.move? m = some v.pool ∧ v.store = t.store) ∨
    ∃ i c now w id, e = .call i c now ∧ v.pool = t.pool ∧ t.pool.workers[i]? = some w ∧
      w.current? = some id ∧ c.KeepsTo id ∧
      v.store = (c.perform now t.store).toOption.getD t.store := by
  cases e with
  | move m =>
      obtain ⟨p, hmove, rfl⟩ := Option.map_eq_some_iff.mp hstep
      exact .inl ⟨m, rfl, hmove, rfl⟩
  | call i c now =>
      obtain ⟨id, hcurrent, hstep⟩ := Option.bind_eq_some_iff.mp hstep
      obtain ⟨w, hw, hid⟩ := Option.bind_eq_some_iff.mp hcurrent
      split at hstep
      · next hkeeps =>
          cases hstep
          exact .inr ⟨i, c, now, w, id, rfl, rfl, hw, hid, hkeeps, rfl⟩
      · cases hstep

theorem sound_run (ht : t.pool.Sound n) (hrun : t.run? events = some u) : u.pool.Sound n := by
  induction events generalizing t with
  | nil =>
      cases hrun
      exact ht
  | cons e rest ih =>
      obtain ⟨v, hstep, hlater⟩ := Option.bind_eq_some_iff.mp hrun
      refine ih ?_ hlater
      rcases step_cases hstep with ⟨m, -, hmove, -⟩ | ⟨_, _, _, _, _, -, hpool, -⟩
      · exact ht.move hmove
      · rwa [hpool]

/-- Once the pool was told to stop, a worker begins no more than it may in its phase. -/
theorem count_present_le (hstop : t.pool.stopping = true) (hw : t.pool.workers[i]? = some w)
    (hrun : t.run? events = some u) :
    events.count (.move (.present i)) ≤ w.phase.further := by
  induction events generalizing t w with
  | nil => exact Nat.zero_le _
  | cons e rest ih =>
      obtain ⟨v, hstep, hlater⟩ := Option.bind_eq_some_iff.mp hrun
      rcases step_cases hstep with ⟨m, rfl, hmove, -⟩ | ⟨_, _, _, _, _, rfl, hpool, -⟩
      · obtain ⟨w', hw', hgoes⟩ := Pool.goes_of_move hmove hw
        rw [hstop] at hgoes
        have hrest := ih (Pool.stopping_of_move hmove hstop) hw' hlater
        have hnow := hgoes.further
        simp only [List.count_cons, beq_iff_eq, ShiftEvent.move.injEq]
        omega
      · rw [List.count_cons_of_ne (by simp)]
        exact ih (hpool ▸ hstop) (hpool ▸ hw) hlater

/-- A worker that has begun a document is still at it, or has gone through all that remained. -/
theorem begun_run (hw : t.pool.workers[i]? = some w) (hbegun : w.phase.begun? = some id)
    (hrun : t.run? events = some u) :
    (∃ w', u.pool.workers[i]? = some w' ∧ w'.phase.begun? = some id) ∨
      ∃ later, w.phase.remaining i later <+: ownMoves i events := by
  induction events generalizing t w with
  | nil =>
      cases hrun
      exact .inl ⟨w, hw, hbegun⟩
  | cons e rest ih =>
      obtain ⟨v, hstep, hlater⟩ := Option.bind_eq_some_iff.mp hrun
      rcases step_cases hstep with ⟨m, rfl, hmove, -⟩ | ⟨_, _, _, _, _, rfl, hpool, -⟩
      · obtain ⟨w', hw', hgoes⟩ := Pool.goes_of_move hmove hw
        cases hgoes with
        | stay hm more =>
            have hrest := ih hw' hbegun hlater
            rwa [ownMoves_of_other hm]
        | @finish a queue later =>
            rw [ownMoves_of_worker rfl]
            refine (ih hw' hbegun hlater).imp_right fun ⟨_, hrest⟩ => ⟨later, ?_⟩
            exact (List.prefix_cons_inj _).mpr hrest
        | release =>
            rw [ownMoves_of_worker rfl]
            refine (ih hw' hbegun hlater).imp_right fun ⟨later', hrest⟩ => ⟨later', ?_⟩
            exact (List.prefix_cons_inj _).mpr hrest
        | report =>
            rw [ownMoves_of_worker rfl]
            exact .inr ⟨true, (List.prefix_cons_inj _).mpr List.nil_prefix⟩
        | check | stop | quit | take | present => cases hbegun
      · exact ih (hpool ▸ hw) hbegun hlater

/-- The rows of a document that is parked stay as they are until a worker takes it. -/
theorem parked_run (ht : t.pool.Parked id) (hrun : t.run? events = some u) :
    t.Takes events id ∨ u.store.jobsFor id = t.store.jobsFor id := by
  induction events generalizing t with
  | nil =>
      cases hrun
      exact .inr rfl
  | cons e rest ih =>
      obtain ⟨v, hstep, hlater⟩ := Option.bind_eq_some_iff.mp hrun
      rcases step_cases hstep with ⟨m, rfl, hmove, hstore⟩ |
        ⟨i, c, now, w, other, rfl, hpool, hw, hcurrent, hkeeps, hstore⟩
      · rw [← hstore]
        rcases ht.move hmove with hparked | ⟨i, w, queue, rfl, hw, hqueue⟩
        · exact (ih hparked hlater).imp_left (·.cons hstep)
        · exact .inl ⟨[], rest, i, t, w, queue, rfl, rfl, hw, hqueue⟩
      · have hne : id ≠ other := by
          rintro rfl
          exact ht.spared w (List.mem_of_getElem? hw) (w.mem_held_of_current hcurrent)
        have hsame : v.store.jobsFor id = t.store.jobsFor id := by
          rw [hstore]
          cases hperform : c.perform now t.store with
          | error e => rfl
          | ok st => exact StoreCall.jobsFor_perform (StoreCall.keepsTo_iff.mp hkeeps id hne) hperform
        rw [← hsame]
        exact (ih (hpool ▸ ht) hlater).imp_left (·.cons hstep)

/-- Stopping is prompt and loses nothing.  From any point of a run on, whoever moves and whatever
the workers make of their documents: once the pool was told to stop, each worker begins one document
more at most, and none unless it has not yet asked whether to stop again; a worker that has begun a
document is still at it, or it has handled it, released the claim and reported it; and a document
that is in a queue is taken out of it by a worker, or its rows stay as they are, so that after the
next start it is among the documents with waiting rows if it had a row that waited or was
running. -/
theorem stopping_prompt_and_lossless {workers capacity batch : Nat} {st₀ : Store}
    {past : List ShiftEvent} (hpast : (opening workers capacity batch st₀).run? past = some t)
    (hrun : t.run? events = some u) :
    (t.pool.stopping = true → ∀ i w, t.pool.workers[i]? = some w →
      events.count (.move (.present i)) ≤ w.phase.further ∧ w.phase.further ≤ 1) ∧
    (∀ i w id, t.pool.workers[i]? = some w → w.phase.begun? = some id →
      (∃ w', u.pool.workers[i]? = some w' ∧ w'.phase.begun? = some id) ∨
        ∃ later, w.phase.remaining i later <+: ownMoves i events) ∧
    ∀ w ∈ t.pool.workers, ∀ id ∈ w.queue, t.Takes events id ∨
      u.store.jobsFor id = t.store.jobsFor id ∧
      ∀ (m m' : Manager) (s : Store), m.start (.ok u.store.resetRunning) = .ok (m', s) →
        (id ∈ s.waitingDocuments ↔ ∃ r ∈ t.store.jobsFor id,
          r.isPending = true ∨ r.status = JobStatus.running.name) := by
  have hsound : t.pool.Sound (max capacity 1) := sound_run (Pool.sound_start _ _ _) hpast
  refine ⟨fun hstop i w hw => ⟨count_present_le hstop hw hrun, w.phase.further_le⟩,
    fun i w id hw hbegun => begun_run hw hbegun hrun, fun w hw id hid => ?_⟩
  refine (parked_run (hsound.parked hw hid) hrun).imp_right fun hrows => ⟨hrows, ?_⟩
  intro m m' s hstart
  have hs : s = u.store.resetRunning.2 := by
    unfold Manager.start at hstart
    split at hstart
    · cases hstart
    · cases hstart
      rfl
  rw [hs, Store.mem_waitingDocuments_resetRunning, hrows]

/-- One worker and two documents, of which the second is queued behind the first when the pool is
told to stop.  The worker has asked whether to stop just before. -/
def beforeStop : List ShiftEvent :=
  [.claim "d", .look, .send, .record, .claim "e", .look, .send, .record, .check 0, .askStop].map
    .move

/-- The worker takes the first document all the same, and then asks again. -/
def afterStop : List ShiftEvent :=
  [.move (.take 0), .move (.present 0), .call 0 (.startJob "d" .hash) default,
    .move (.finish 0 true), .move (.release 0), .move (.report 0), .move (.check 0)]

/-- The document that is left in the queue is lost from the pool, and waits as before. -/
theorem stopping_prompt_and_lossless_queued :
    ∃ t u, (opening 1 2 1 (World.stray [.pending "d" .hash default,
        .pending "e" .hash default]).store).run? beforeStop = some t ∧
      t.run? afterStop = some u ∧ t.pool.stopping = true ∧
      t.pool.workers = [⟨["d", "e"], .willing⟩] ∧ u.pool.workers = [⟨[], .ended⟩] ∧
      afterStop.count (.move (.present 0)) ≤ 1 ∧
      u.store.jobsFor "e" = [.pending "e" .hash default] := by
  obtain ⟨t, u, hpast, hrun, hstop, hworkers, hended, hrows⟩ : ∃ t u,
      (opening 1 2 1 (World.stray [.pending "d" .hash default,
        .pending "e" .hash default]).store).run? beforeStop = some t ∧
      t.run? afterStop = some u ∧ t.pool.stopping = true ∧
      t.pool.workers = [⟨["d", "e"], .willing⟩] ∧ u.pool.workers = [⟨[], .ended⟩] ∧
      t.store.jobsFor "e" = [.pending "e" .hash default] :=
    ⟨_, _, rfl, rfl, rfl, rfl, rfl, rfl⟩
  obtain ⟨hprompt, -, hkept⟩ := stopping_prompt_and_lossless hpast hrun
  have hw : t.pool.workers[0]? = some ⟨["d", "e"], .willing⟩ := by rw [hworkers]; rfl
  have hnot : ¬ t.Takes afterStop "e" := by
    rintro ⟨before, after, i, v, w, rest, hsplit, hbefore, hv, hqueue⟩
    cases before with
    | nil =>
        cases hsplit
        cases hbefore
        obtain rfl := Option.some.inj (hw.symm.trans hv)
        simp at hqueue
    | cons e before =>
        have htail : afterStop.tail = before ++ .move (.take i) :: after :=
          congrArg List.tail hsplit
        have htake : ShiftEvent.move (.take i) ∈ afterStop.tail := by simp [htail]
        simp [afterStop] at htake
  obtain ⟨hcount, hone⟩ := hprompt hstop 0 _ hw
  obtain ⟨hsame, -⟩ := (hkept _ (List.mem_of_getElem? hw) "e" (by decide)).resolve_left hnot
  exact ⟨t, u, hpast, hrun, hstop, hworkers, hended, Nat.le_trans hcount hone,
    hsame.trans hrows⟩

end Shift

end Docket
