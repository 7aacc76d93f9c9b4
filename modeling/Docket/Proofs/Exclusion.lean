import Mathlib.Data.List.Nodup
import Docket.Worker.Pool

/-!
No document is in a pool twice.  The documents that a pool holds are those that it
has pledged: the claimed ones, and the one that a dispatch has sent and not yet
recorded.  Every move of every thread keeps this.
-/

namespace Docket

/-- The document that a worker has taken out of its queue and not yet released. -/
def WorkerPhase.held : WorkerPhase → List String
  | .received id | .busy id | .leaving id _ => [id]
  | .resting | .willing | .freed _ _ | .ended => []

/-- The documents in the queue of a worker and the one that it has not released. -/
def Worker.held (w : Worker) : List String := w.queue ++ w.phase.held

/-- The document that a worker works on is one that it holds. -/
theorem Worker.current_mem_held {w : Worker} {id : String}
    (hid : w.current? = some id) : id ∈ w.held := by
  have hphase : w.phase = .busy id := by
    unfold Worker.current? at hid
    split at hid
    · next id' heq =>
        cases hid
        exact heq
    · cases hid
  simp [Worker.held, hphase, WorkerPhase.held]

namespace Pool

variable {p q : Pool} {n i j : Nat} {w w' : Worker} {id : String}

/-- All documents in queues, and those that workers have not released. -/
def held (p : Pool) : List String := p.workers.flatMap Worker.held

/-- The document that a dispatch under way is for. -/
def dispatched? (p : Pool) : Option String :=
  match p.dispatching with
  | some (.looking id _) | some (.sent id _) => some id
  | none => none

/-- The claimed documents, and the one that was sent and is not yet recorded. -/
def pledged (p : Pool) : List String :=
  match p.dispatching with
  | some (.sent id _) => id :: p.claims
  | _ => p.claims

/-- Whether no worker has ended, so that no queue is lost. -/
def Whole (p : Pool) : Prop := ∀ w ∈ p.workers, w.phase ≠ .ended

/-- What every move keeps of a pool whose queues have some capacity. -/
structure Sound (capacity : Nat) (p : Pool) : Prop where
  nodup : p.held.Nodup
  pledged_of_held : ∀ id ∈ p.held, id ∈ p.pledged
  held_of_pledged : p.Whole → ∀ id ∈ p.pledged, id ∈ p.held
  unclaimed : ∀ id, p.dispatched? = some id → id ∉ p.claims
  room : ∀ w ∈ p.workers, w.queue.length ≤ p.capacity
  whole : p.stopping = false → p.Whole
  size : p.capacity = capacity

theorem mem_withId (ids : List String) (a b : String) :
    a ∈ withId ids b ↔ a = b ∨ a ∈ ids := by
  unfold withId
  split
  · next hb =>
      have hb : b ∈ ids := by simpa using hb
      constructor
      · exact .inr
      · rintro (rfl | ha)
        · exact hb
        · exact ha
  · simp [or_comm]

theorem mem_withoutId (ids : List String) (a b : String) :
    a ∈ withoutId ids b ↔ a ∈ ids ∧ a ≠ b := by
  simp [withoutId]

/-- A worker among its pool, and what becomes of the list when it changes. -/
theorem exists_split {ws : List Worker} (hw : ws[i]? = some w) :
    ∃ before after, ws = before ++ w :: after ∧
      ∀ w', ws.set i w' = before ++ w' :: after := by
  obtain ⟨hi, rfl⟩ := List.getElem?_eq_some_iff.mp hw
  refine ⟨ws.take i, ws.drop (i + 1), ?_, ?_⟩
  · rw [List.getElem_cons_drop, List.take_append_drop]
  · intro w'
    rw [List.set_eq_take_append_cons_drop, if_pos hi]

/-- What a pool holds is what one worker holds and the rest, which does not change
with the worker. -/
theorem exists_rest (hw : p.workers[i]? = some w) :
    ∃ rest, p.held.Perm (w.held ++ rest) ∧
      ∀ w', (p.setWorker i w').held.Perm (w'.held ++ rest) := by
  obtain ⟨before, after, hworkers, hset⟩ := exists_split hw
  have hperm : ∀ v : Worker, ((before ++ v :: after).flatMap Worker.held).Perm
      (v.held ++ (before ++ after).flatMap Worker.held) := by
    intro v
    rw [List.flatMap_append, List.flatMap_cons, List.flatMap_append,
      ← List.append_assoc, ← List.append_assoc]
    exact List.perm_append_comm.append_right _
  refine ⟨(before ++ after).flatMap Worker.held, ?_, ?_⟩
  · rw [held, hworkers]
    exact hperm w
  · intro w'
    rw [held, setWorker, hset]
    exact hperm w'

theorem mem_workers_setWorker {v : Worker} (hv : v ∈ (p.setWorker i w').workers) :
    v = w' ∨ v ∈ p.workers :=
  (List.mem_or_eq_of_mem_set hv).symm

/-- Whoever is whole after a worker has changed was whole before, if the worker had
not ended. -/
theorem whole_of_setWorker (hw : p.workers[i]? = some w) (hphase : w.phase ≠ .ended)
    (hwhole : (p.setWorker i w').Whole) : p.Whole := by
  obtain ⟨before, after, hworkers, hset⟩ := exists_split hw
  intro v hv
  rw [hworkers] at hv
  rw [Whole, setWorker, hset] at hwhole
  rcases List.mem_append.mp hv with hv | hv
  · exact hwhole v (by simp [hv])
  · rcases List.mem_cons.mp hv with rfl | hv
    · exact hphase
    · exact hwhole v (by simp [hv])

theorem whole_setWorker (hphase : w'.phase ≠ .ended) (hwhole : p.Whole) :
    (p.setWorker i w').Whole := by
  intro v hv
  rcases mem_workers_setWorker hv with rfl | hv
  · exact hphase
  · exact hwhole v hv

/-! One lemma for each kind of move. -/

/-- A worker goes on and holds what it held. -/
theorem Sound.goOn (hp : p.Sound n) (hw : p.workers[i]? = some w)
    (hphase : w.phase ≠ .ended) (hphase' : w'.phase ≠ .ended)
    (hheld : w'.held.Perm w.held) (hqueue : w'.queue.length ≤ w.queue.length) :
    (p.setWorker i w').Sound n := by
  obtain ⟨rest, hbefore, hafter⟩ := exists_rest hw
  have hsame : (p.setWorker i w').held.Perm p.held :=
    (hafter w').trans ((hheld.append_right rest).trans hbefore.symm)
  refine ⟨?_, ?_, ?_, hp.unclaimed, ?_, ?_, hp.size⟩
  · exact hsame.nodup_iff.mpr hp.nodup
  · intro id hid
    exact hp.pledged_of_held id (hsame.mem_iff.mp hid)
  · intro hwhole id hid
    have hold := hp.held_of_pledged (whole_of_setWorker hw hphase hwhole) id hid
    exact hsame.mem_iff.mpr hold
  · intro v hv
    rcases mem_workers_setWorker hv with rfl | hv
    · exact Nat.le_trans hqueue (hp.room w (List.mem_of_getElem? hw))
    · exact hp.room v hv
  · intro hstop
    exact whole_setWorker hphase' (hp.whole hstop)

/-- A worker ends, and its queue is lost. -/
theorem Sound.endWorker (hp : p.Sound n) (hw : p.workers[i]? = some w)
    (hstop : p.stopping = true) : (p.setWorker i ⟨[], .ended⟩).Sound n := by
  obtain ⟨rest, hbefore, hafter⟩ := exists_rest hw
  have hrest : (p.setWorker i ⟨[], .ended⟩).held.Perm rest := hafter ⟨[], .ended⟩
  have hnodup := (List.nodup_append.mp (hbefore.nodup_iff.mp hp.nodup)).2.1
  obtain ⟨before, after, -, hset⟩ := exists_split hw
  refine ⟨hrest.nodup_iff.mpr hnodup, ?_, ?_, hp.unclaimed, ?_, ?_, hp.size⟩
  · intro id hid
    apply hp.pledged_of_held id
    exact hbefore.mem_iff.mpr (List.mem_append_right _ (hrest.mem_iff.mp hid))
  · intro hwhole
    exact absurd rfl (hwhole ⟨[], .ended⟩ (by simp [setWorker, hset]))
  · intro v hv
    rcases mem_workers_setWorker hv with rfl | hv
    · exact Nat.zero_le _
    · exact hp.room v hv
  · intro hgo
    exact absurd (hgo.symm.trans hstop) (by simp)

/-- A worker releases the claim on its document.  It holds that document nowhere
else, so that no claim is lost. -/
theorem Sound.release {later : Bool} (hp : p.Sound n) (hw : p.workers[i]? = some w)
    (hphase : w.phase = .leaving id later) (hfree : p.dispatching = none) :
    ({ p.setWorker i { w with phase := .freed id later } with
        claims := withoutId p.claims id } : Pool).Sound n := by
  obtain ⟨rest, hbefore, hafter⟩ := exists_rest hw
  have hpledged : p.pledged = p.claims := by simp only [pledged, hfree]
  have hwheld : w.held = w.queue ++ [id] := by
    simp only [Worker.held, hphase, WorkerPhase.held]
  have hafter := hafter { w with phase := .freed id later }
  have hfreed : Worker.held { w with phase := .freed id later } = w.queue :=
    List.append_nil _
  have hheld : p.held.Perm
      (id :: (p.setWorker i { w with phase := .freed id later }).held) := by
    rw [hfreed] at hafter
    rw [hwheld] at hbefore
    exact hbefore.trans
      ((List.perm_append_comm.append_right rest).trans (hafter.symm.cons id))
  have hnodup := List.nodup_cons.mp (hheld.nodup_iff.mp hp.nodup)
  refine ⟨hnodup.2, ?_, ?_, ?_, ?_, ?_, hp.size⟩
  · intro a ha
    change a ∈ (p.setWorker i { w with phase := .freed id later }).held at ha
    have hclaimed := hp.pledged_of_held a (hheld.mem_iff.mpr (List.mem_cons_of_mem _ ha))
    rw [hpledged] at hclaimed
    simp only [pledged, setWorker, hfree]
    refine (mem_withoutId _ _ _).mpr ⟨hclaimed, ?_⟩
    rintro rfl
    exact hnodup.1 ha
  · intro hwhole a ha
    simp only [pledged, setWorker, hfree] at ha
    obtain ⟨hclaimed, hne⟩ := (mem_withoutId _ _ _).mp ha
    have hwhole : p.Whole :=
      whole_of_setWorker (i := i) hw (by simp [hphase]) hwhole
    have hold := hp.held_of_pledged hwhole a (hpledged ▸ hclaimed)
    exact (List.mem_cons.mp (hheld.mem_iff.mp hold)).resolve_left hne
  · intro a ha
    simp only [dispatched?, setWorker, hfree] at ha
    cases ha
  · intro v hv
    rcases mem_workers_setWorker hv with rfl | hv
    · exact hp.room w (List.mem_of_getElem? hw)
    · exact hp.room v hv
  · intro hgo
    exact whole_setWorker (by simp) (hp.whole hgo)

/-- A dispatch finds its document unclaimed and keeps the lock. -/
theorem Sound.claim (hp : p.Sound n) (hfree : p.dispatching = none)
    (hid : id ∉ p.claims) :
    ({ p with dispatching := some (.looking id []) } : Pool).Sound n := by
  have hpledged : p.pledged = p.claims := by simp only [pledged, hfree]
  refine ⟨hp.nodup, hpledged ▸ hp.pledged_of_held, hpledged ▸ hp.held_of_pledged, ?_,
    hp.room, hp.whole, hp.size⟩
  rintro a ⟨⟩
  exact hid

/-- A dispatch looks at one more load. -/
theorem Sound.look {seen seen' : List WorkerLoad} (hp : p.Sound n)
    (hlooking : p.dispatching = some (.looking id seen)) :
    ({ p with dispatching := some (.looking id seen') } : Pool).Sound n := by
  have hpledged : p.pledged = p.claims := by simp only [pledged, hlooking]
  have hdispatched : p.dispatched? = some id := by simp only [dispatched?, hlooking]
  refine ⟨hp.nodup, hpledged ▸ hp.pledged_of_held, hpledged ▸ hp.held_of_pledged, ?_,
    hp.room, hp.whole, hp.size⟩
  rintro a ⟨⟩
  exact hp.unclaimed id hdispatched

/-- A dispatch gives up. -/
theorem Sound.giveUp {seen : List WorkerLoad} (hp : p.Sound n)
    (hlooking : p.dispatching = some (.looking id seen)) :
    ({ p with dispatching := none } : Pool).Sound n := by
  have hpledged : p.pledged = p.claims := by simp only [pledged, hlooking]
  refine ⟨hp.nodup, hpledged ▸ hp.pledged_of_held, hpledged ▸ hp.held_of_pledged, ?_,
    hp.room, hp.whole, hp.size⟩
  rintro a ⟨⟩

/-- A dispatch sends its document, which no worker holds: what is held is claimed. -/
theorem Sound.send {seen : List WorkerLoad} (hp : p.Sound n)
    (hlooking : p.dispatching = some (.looking id seen))
    (hw : p.workers[i]? = some w) (hphase : w.phase ≠ .ended)
    (hroom : w.queue.length < p.capacity) :
    ({ p.enqueue i w id with dispatching := some (.sent id i) } : Pool).Sound n := by
  have hpledged : p.pledged = p.claims := by simp only [pledged, hlooking]
  have hdispatched : p.dispatched? = some id := by simp only [dispatched?, hlooking]
  have hunclaimed := hp.unclaimed id hdispatched
  obtain ⟨rest, hbefore, hafter⟩ := exists_rest hw
  have hafter := hafter { w with queue := w.queue ++ [id] }
  have hadded : Worker.held { w with queue := w.queue ++ [id] } =
      w.queue ++ id :: w.phase.held := by
    simp only [Worker.held, List.append_assoc, List.singleton_append]
  have hheld : (p.enqueue i w id).held.Perm (id :: p.held) := by
    rw [hadded] at hafter
    exact hafter.trans ((List.perm_middle.append_right rest).trans (hbefore.symm.cons id))
  refine ⟨?_, ?_, ?_, ?_, ?_, ?_, hp.size⟩
  · refine hheld.nodup_iff.mpr (List.nodup_cons.mpr ⟨?_, hp.nodup⟩)
    intro hid
    exact hunclaimed (hpledged ▸ hp.pledged_of_held id hid)
  · intro a ha
    rcases List.mem_cons.mp (hheld.mem_iff.mp ha) with rfl | ha
    · exact List.mem_cons_self
    · exact List.mem_cons_of_mem _ (hpledged ▸ hp.pledged_of_held a ha)
  · intro hwhole a ha
    have hwhole : p.Whole := whole_of_setWorker (i := i) hw hphase hwhole
    apply hheld.mem_iff.mpr
    rcases List.mem_cons.mp ha with rfl | ha
    · exact List.mem_cons_self
    · exact List.mem_cons_of_mem _ (hp.held_of_pledged hwhole a (hpledged ▸ ha))
  · rintro a ⟨⟩
    exact hunclaimed
  · intro v hv
    rcases mem_workers_setWorker hv with rfl | hv
    · change (w.queue ++ [id]).length ≤ p.capacity
      rw [List.length_append]
      exact hroom
    · exact hp.room v hv
  · intro hgo
    exact whole_setWorker hphase (hp.whole hgo)

/-- A dispatch records the claim on the document that it has sent. -/
theorem Sound.record (hp : p.Sound n) (hsent : p.dispatching = some (.sent id i)) :
    ({ p with dispatching := none, claims := withId p.claims id } : Pool).Sound n := by
  have hpledged : ∀ a, a ∈ p.pledged ↔ a ∈ withId p.claims id := by
    intro a
    rw [mem_withId, pledged, hsent]
    exact List.mem_cons
  refine ⟨hp.nodup, ?_, ?_, ?_, hp.room, hp.whole, hp.size⟩
  · intro a ha
    exact (hpledged a).mp (hp.pledged_of_held a ha)
  · intro hwhole a ha
    exact hp.held_of_pledged hwhole a ((hpledged a).mpr ha)
  · rintro a ⟨⟩

/-- What a worker does on its own keeps the pool sound. -/
theorem Sound.workerMove {m : PoolMove} (hp : p.Sound n) (hw : p.workers[i]? = some w)
    (hmove : p.workerMove? i w m = some q) : q.Sound n := by
  cases m with
  | check k =>
      cases hphase : w.phase <;> simp only [workerMove?, hphase] at hmove <;> cases hmove
      split
      · next hstop => exact hp.endWorker hw hstop
      · refine hp.goOn hw (by simp [hphase]) (by simp) ?_ (Nat.le_refl _)
        simp [Worker.held, hphase, WorkerPhase.held]
  | take k =>
      cases hphase : w.phase <;> cases hqueue : w.queue <;>
        simp only [workerMove?, hphase, hqueue] at hmove <;> cases hmove
      refine hp.goOn hw (by simp [hphase]) (by simp) ?_ (by simp [hqueue])
      simp only [Worker.held, hphase, hqueue, WorkerPhase.held, List.append_nil]
      exact List.perm_append_comm
  | present k =>
      cases hphase : w.phase <;> simp only [workerMove?, hphase] at hmove <;> cases hmove
      refine hp.goOn hw (by simp [hphase]) (by simp) ?_ (Nat.le_refl _)
      simp [Worker.held, hphase, WorkerPhase.held]
  | quit k =>
      cases hphase : w.phase <;> simp only [workerMove?, hphase] at hmove <;> try cases hmove
      cases hstop : p.stopping <;> simp [hstop] at hmove
      subst hmove
      exact hp.endWorker hw hstop
  | finish k later =>
      cases hphase : w.phase <;> simp only [workerMove?, hphase] at hmove <;> cases hmove
      refine hp.goOn hw (by simp [hphase]) (by simp) ?_ (Nat.le_refl _)
      simp [Worker.held, hphase, WorkerPhase.held]
  | release k =>
      cases hphase : w.phase <;> cases hfree : p.dispatching <;>
        simp only [workerMove?, hphase, hfree] at hmove <;> cases hmove
      exact hp.release hw hphase hfree
  | report k =>
      cases hphase : w.phase <;> simp only [workerMove?, hphase] at hmove <;> cases hmove
      have hnext : (p.setWorker i { w with phase := .resting }).Sound n := by
        refine hp.goOn hw (by simp [hphase]) (by simp) ?_ (Nat.le_refl _)
        simp [Worker.held, hphase, WorkerPhase.held]
      exact ⟨hnext.nodup, hnext.pledged_of_held, hnext.held_of_pledged,
        hnext.unclaimed, hnext.room, hnext.whole,
        hnext.size⟩
  | _ => cases hmove

theorem place_ok {seen : List WorkerLoad} (hplace : p.place seen = .ok (i, w)) :
    p.workers[i]? = some w ∧ w.phase ≠ .ended ∧ w.queue.length < p.capacity := by
  unfold place at hplace
  split at hplace
  · cases hplace
  · split at hplace
    · cases hplace
    · next hw =>
        split at hplace
        · cases hplace
        · next hphase =>
            split at hplace
            · cases hplace
            · next hroom =>
                cases hplace
                exact ⟨hw, hphase, Nat.lt_of_not_le hroom⟩

/-- Every move keeps a pool sound. -/
theorem Sound.move {m : PoolMove} (hp : p.Sound n) (hmove : p.move? m = some q) :
    q.Sound n := by
  cases m with
  | claim id =>
      cases hfree : p.dispatching <;> simp only [move?, hfree] at hmove <;> cases hmove
      split
      · exact hp
      · next hid => exact hp.claim hfree (by simpa using hid)
  | look =>
      simp only [move?] at hmove
      split at hmove
      · next id seen hlooking =>
          obtain ⟨w, -, rfl⟩ := Option.map_eq_some_iff.mp hmove
          exact hp.look hlooking
      · cases hmove
  | send =>
      simp only [move?] at hmove
      split at hmove
      · next id seen hlooking =>
          split at hmove
          · cases hmove
          · split at hmove
            · cases hmove
              exact hp.giveUp hlooking
            · next hplace =>
                cases hmove
                obtain ⟨hw, hphase, hroom⟩ := place_ok hplace
                exact hp.send hlooking hw hphase hroom
      · cases hmove
  | record =>
      simp only [move?] at hmove
      split at hmove
      · next hsent =>
          cases hmove
          exact hp.record hsent
      · cases hmove
  | digest =>
      simp only [move?] at hmove
      split at hmove
      · next id later rest _ =>
          cases hmove
          cases later <;> exact ⟨hp.nodup, hp.pledged_of_held, hp.held_of_pledged,
            hp.unclaimed, hp.room, hp.whole, hp.size⟩
      · cases hmove
  | askStop =>
      cases hmove
      refine ⟨hp.nodup, hp.pledged_of_held, hp.held_of_pledged, hp.unclaimed, hp.room,
        ?_, hp.size⟩
      rintro ⟨⟩
  | check k | take k | present k | finish k later | release k | report k | quit k =>
      obtain ⟨w, hw, hmove⟩ := Option.bind_eq_some_iff.mp hmove
      exact hp.workerMove hw hmove

theorem sound_start (workers capacity batch : Nat) : (start workers capacity batch).Sound (max capacity 1) := by
  have hfresh : ∀ w ∈ (start workers capacity batch).workers, w = {} := by
    intro w hw
    exact (List.mem_replicate.mp hw).2
  have hheld : (start workers capacity batch).held = [] := by
    refine List.flatMap_eq_nil_iff.mpr fun w hw => ?_
    rw [hfresh w hw]
    rfl
  refine ⟨by simp [hheld], by simp [hheld], by simp [pledged, start], by
    simp [dispatched?, start], ?_, ?_, rfl⟩
  · intro w hw
    rw [hfresh w hw]
    exact Nat.zero_le _
  · intro _ w hw
    rw [hfresh w hw]
    simp

/-- Every run keeps a pool sound. -/
theorem Sound.run {moves : List PoolMove} (hp : p.Sound n)
    (hrun : p.run? moves = some q) : q.Sound n := by
  induction moves generalizing p with
  | nil =>
      cases hrun
      exact hp
  | cons m rest ih =>
      obtain ⟨p', hmove, hrest⟩ := Option.bind_eq_some_iff.mp hrun
      exact ih (hp.move hmove) hrest

theorem Sound.worker_unique {v w : Worker} (hp : p.Sound n)
    (hv : p.workers[i]? = some v) (hw : p.workers[j]? = some w)
    (hidv : id ∈ v.held) (hidw : id ∈ w.held) : i = j := by
  obtain ⟨hi, rfl⟩ := List.getElem?_eq_some_iff.mp hv
  obtain ⟨hj, rfl⟩ := List.getElem?_eq_some_iff.mp hw
  have hpairs := List.pairwise_iff_getElem.mp (List.nodup_flatMap.mp hp.nodup).2
  rcases Nat.lt_trichotomy i j with hlt | heq | hgt
  · exact absurd hidw (List.disjoint_left.mp (hpairs i j hi hj hlt) hidv)
  · exact heq
  · exact absurd hidv (List.disjoint_left.mp (hpairs j i hj hi hgt) hidw)

/-! What a dispatch answers. -/

theorem answer_claim (hfree : p.dispatching = none) :
    p.answer? (.claim id) = some (.ok .alreadyQueued) ↔ id ∈ p.claims := by
  simp [answer?, hfree]

theorem place_ne_alreadyQueued (p : Pool) (seen : List WorkerLoad) :
    p.place seen ≠ .error (.ok .alreadyQueued) := by
  intro hplace
  unfold place at hplace
  repeat' split at hplace
  all_goals cases hplace

/-- Only a dispatch that finds its document claimed answers that it is queued
already, and it changes nothing. -/
theorem unchanged_of_alreadyQueued {m : PoolMove}
    (hanswer : p.answer? m = some (.ok .alreadyQueued)) :
    p.move? m = some p ∧ ∃ id ∈ p.claims, m = .claim id := by
  cases m with
  | claim id =>
      cases hfree : p.dispatching with
      | none =>
          have hid := (answer_claim hfree).mp hanswer
          refine ⟨?_, id, hid, rfl⟩
          simp [move?, hfree, hid]
      | some d => simp [answer?, hfree] at hanswer
  | send =>
      simp only [answer?] at hanswer
      split at hanswer
      · split at hanswer
        · cases hanswer
        · split at hanswer
          · next hplace =>
              cases hanswer
              exact absurd hplace (place_ne_alreadyQueued p _)
          · cases hanswer
      · cases hanswer
  | record =>
      simp only [answer?] at hanswer
      split at hanswer <;> cases hanswer
  | _ => cases hanswer

/-- A claim is gone once it is released. -/
theorem not_mem_claims_release {later : Bool} (hw : p.workers[i]? = some w)
    (hphase : w.phase = .leaving id later) (hmove : p.move? (.release i) = some q) :
    id ∉ q.claims := by
  cases hfree : p.dispatching <;>
    simp only [move?, hw, Option.bind_some, workerMove?, hphase, hfree] at hmove <;>
    cases hmove
  intro hid
  exact ((mem_withoutId _ _ _).mp hid).2 rfl

theorem run?_append (p : Pool) (before after : List PoolMove) :
    p.run? (before ++ after) = (p.run? before).bind (·.run? after) :=
  List.foldlM_append

/-- The loads that a dispatch has seen after some looks, if nobody else moves. -/
theorem run_looks (hfree : p.dispatching = none) (hid : id ∉ p.claims) :
    ∀ k ≤ p.workers.length, p.run? (.claim id :: List.replicate k .look) =
      some { p with dispatching := some (.looking id (p.loads.take k)) } := by
  intro k
  induction k with
  | zero =>
      intro _
      simp [run?, move?, hfree, hid]
  | succ k ih =>
      intro hk
      have hlength : (p.loads.take k).length = k := by
        simp only [List.length_take, loads, List.length_map]
        omega
      have hnext : p.loads.take (k + 1) = p.loads.take k ++ [p.loadOf p.workers[k]] := by
        rw [List.take_add_one, loads, List.getElem?_map, List.getElem?_eq_getElem hk]
        rfl
      rw [List.replicate_succ', ← List.cons_append, run?_append, ih (by omega),
        Option.bind_some, hnext]
      simp [run?, move?, hlength, List.getElem?_eq_getElem hk, loadOf]

/-- The loads that a dispatch has seen when it has looked at all workers. -/
theorem run_all_looks (hfree : p.dispatching = none) (hid : id ∉ p.claims) :
    p.run? (.claim id :: List.replicate p.workers.length .look) =
      some { p with dispatching := some (.looking id p.loads) } := by
  have hseen : p.loads.take p.workers.length = p.loads :=
    List.take_of_length_le (by simp [loads])
  rw [run_looks hfree hid p.workers.length (Nat.le_refl _), hseen]

/-- A whole dispatch is a run in which nobody else moves. -/
theorem run_dispatch (hfree : p.dispatching = none) (id : String) :
    ∃ moves, p.run? (.claim id :: moves) = some (p.dispatch id).2 ∧
      ∀ a, PoolMove.claim a ∉ moves := by
  by_cases hid : id ∈ p.claims
  · refine ⟨[], ?_, by simp⟩
    simp [run?, move?, dispatch, hfree, hid]
  · have hlooks := run_all_looks hfree hid
    have hall : ¬ p.loads.length < p.workers.length := by simp [loads]
    cases hplace : p.place p.loads with
    | error answer =>
        refine ⟨List.replicate p.workers.length .look ++ [.send], ?_, by simp⟩
        rw [← List.cons_append, run?_append, hlooks]
        have hplace' : place { p with dispatching := some (.looking id p.loads) } p.loads
            = .error answer := hplace
        simp [run?, move?, dispatch, hid, hall, hplace, hplace', ← hfree]
    | ok target =>
        refine ⟨List.replicate p.workers.length .look ++ [.send, .record], ?_, by simp⟩
        rw [← List.cons_append, run?_append, hlooks]
        have hplace' : place { p with dispatching := some (.looking id p.loads) } p.loads
            = .ok target := hplace
        simp [run?, move?, dispatch, hid, hall, hplace, hplace', enqueue, setWorker,
          hfree]

/-- In every run of a pool, whatever its threads do in whatever order: no document
is in two places; between dispatches the claims are the documents that the pool
holds, and a released document can be claimed again; no queue exceeds its capacity;
a dispatch answers that a document is queued already exactly if it is claimed, and
then changes nothing. -/
theorem run_exclusive {workers capacity batch : Nat} {moves : List PoolMove}
    (hrun : (start workers capacity batch).run? moves = some p) :
    (p.held.Nodup ∧
      ∀ (i j : Nat) (v w : Worker) (id : String), p.workers[i]? = some v →
        p.workers[j]? = some w → id ∈ v.held → id ∈ w.held → i = j) ∧
    ((∀ id i, p.dispatching ≠ some (.sent id i)) →
      (∀ id ∈ p.held, id ∈ p.claims) ∧
      (p.Whole → ∀ id ∈ p.claims, id ∈ p.held)) ∧
    (p.stopping = false → p.Whole) ∧
    (∀ (i : Nat) (w : Worker) (id : String) (later : Bool) (q : Pool),
      p.workers[i]? = some w → w.phase = .leaving id later →
      p.move? (.release i) = some q → id ∉ q.claims) ∧
    (∀ w ∈ p.workers, w.queue.length ≤ max capacity 1) ∧
    (p.dispatching = none → ∀ id,
      p.answer? (.claim id) = some (.ok .alreadyQueued) ↔ id ∈ p.claims) ∧
    ∀ m, p.answer? m = some (.ok .alreadyQueued) →
      p.move? m = some p ∧ ∃ id ∈ p.claims, m = .claim id := by
  have hsound := (sound_start workers capacity batch).run hrun
  refine ⟨⟨hsound.nodup, ?_⟩, ?_, hsound.whole, ?_, ?_, ?_, ?_⟩
  · intro i j v w id hv hw hidv hidw
    exact hsound.worker_unique hv hw hidv hidw
  · intro hsent
    have hpledged : p.pledged = p.claims := by
      unfold pledged
      split
      · next heq => exact absurd heq (hsent _ _)
      · rfl
    constructor
    · exact hpledged ▸ hsound.pledged_of_held
    · exact hpledged ▸ hsound.held_of_pledged
  · intro i w id later q hw hphase hmove
    exact not_mem_claims_release hw hphase hmove
  · intro w hw
    exact hsound.size ▸ hsound.room w hw
  · intro hfree id
    exact answer_claim hfree
  · intro m hanswer
    exact unchanged_of_alreadyQueued hanswer

/-- A worker takes a document whose claim is not yet recorded; a second dispatch of
it is turned away. -/
theorem run_exclusive_taken_early :
    ∃ p, (start 2 1 10).run? [.claim "a", .look, .look, .send, .check 0, .take 0,
        .present 0, .record] = some p ∧
      p.held = ["a"] ∧ p.held.Nodup ∧
      p.answer? (.claim "a") = some (.ok .alreadyQueued) := by
  have hrun : (start 2 1 10).run? [.claim "a", .look, .look, .send, .check 0, .take 0,
      .present 0, .record] =
        some { start 2 1 10 with workers := [⟨[], .busy "a"⟩, {}], claims := ["a"] } := by
    decide
  obtain ⟨⟨hnodup, -⟩, hclaims, -, -, -, hanswer, -⟩ := run_exclusive hrun
  have hclaimed := (hclaims (by simp [start])).1 "a" (by decide)
  exact ⟨_, hrun, by decide, hnodup, (hanswer rfl "a").mpr hclaimed⟩

end Pool

end Docket
