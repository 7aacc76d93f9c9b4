import Docket.Proofs.Pulling

/-!
Reports about documents that have been handled.  A worker owes a report from the end of the
handling until it sends it, and the scheduler reads the reports in the order in which they are
sent.  A document that has been handled gets back to the workers only through a dispatch.
-/

namespace Docket

/-! What a worker and a pool have still to do about a document. -/

/-- The document that a worker has at hand and has not handled yet. -/
@[simp] def WorkerPhase.atHand : WorkerPhase → List String
  | .received id | .busy id => [id]
  | .resting | .willing | .leaving _ _ | .freed _ _ | .ended => []

/-- The report that a worker has still to send. -/
@[simp] def WorkerPhase.owed? : WorkerPhase → Option (String × Bool)
  | .leaving id later | .freed id later => some (id, later)
  | .resting | .willing | .received _ | .busy _ | .ended => none

/-- The documents that a worker has still to handle. -/
@[simp] def Worker.toHandle (w : Worker) : List String := w.queue ++ w.phase.atHand

theorem Worker.toHandle_subset_held (w : Worker) : w.toHandle ⊆ w.held := by
  apply List.append_subset.mpr
  refine ⟨List.subset_append_left _ _, fun id hid => List.mem_append_right _ ?_⟩
  cases hphase : w.phase <;> simp_all [WorkerPhase.atHand, WorkerPhase.held]

/-- What becomes of a worker and of the reports when the worker moves. -/
structure WorkerStep (w w' : Worker) (sent sent' : List (String × Bool)) : Prop where
  going : w.phase ≠ .ended
  toHandle : ∀ id ∈ w'.toHandle, id ∈ w.toHandle
  owed : ∀ r, w'.phase.owed? = some r → w.phase.owed? = some r ∨ r.1 ∈ w.toHandle
  sent : (sent' = sent ∧ ∀ r, w.phase.owed? = some r → w'.phase.owed? = some r) ∨
    ∃ r, w.phase.owed? = some r ∧ sent' = sent ++ [r]

namespace Pool

variable {p q : Pool} {n i : Nat} {m : PoolMove} {id : String} {later : Bool}

/-- The documents that the workers have still to handle. -/
def toHandle (p : Pool) : List String := p.workers.flatMap Worker.toHandle

/-- The reports that the workers have still to send. -/
def owed (p : Pool) : List (String × Bool) := p.workers.filterMap (·.phase.owed?)

/-- The documents that pulls pass over once the scheduler has read what was sent to it. -/
def due (p : Pool) : List String := p.digestAll.waiting

/-- Whether a report is not yet read. -/
def Unread (p : Pool) (id : String) (later : Bool) : Prop :=
  (id, later) ∈ p.owed ∨ (id, later) ∈ p.completions

theorem mem_toHandle : id ∈ p.toHandle ↔ ∃ w ∈ p.workers, id ∈ w.toHandle :=
  List.mem_flatMap

theorem mem_owed {r : String × Bool} :
    r ∈ p.owed ↔ ∃ w ∈ p.workers, w.phase.owed? = some r :=
  List.mem_filterMap

/-- The documents that pulls pass over after a report. -/
def noted (ids : List String) (r : String × Bool) : List String :=
  if r.2 then withId ids r.1 else withoutId ids r.1

theorem waiting_noteCompletion :
    (p.noteCompletion id later).waiting = noted p.waiting (id, later) := by
  cases later <;> rfl

theorem digestAll_eq (p : Pool) : p.digestAll =
    p.completions.foldl (fun q r => q.noteCompletion r.1 r.2) { p with completions := [] } :=
  rfl

theorem due_eq (p : Pool) : p.due = p.completions.foldl noted p.waiting := by
  have hfold : ∀ (reports : List (String × Bool)) (q : Pool),
      (reports.foldl (fun q r => q.noteCompletion r.1 r.2) q).waiting =
        reports.foldl noted q.waiting := by
    intro reports
    induction reports with
    | nil => exact fun q => rfl
    | cons r rest ih =>
        intro q
        rw [List.foldl_cons, ih, waiting_noteCompletion, List.foldl_cons]
  rw [due, digestAll_eq]
  exact hfold p.completions { p with completions := [] }

theorem mem_noted {ids : List String} {r : String × Bool} :
    id ∈ noted ids r ↔ if r.1 = id then r.2 = true else id ∈ ids := by
  obtain ⟨a, later⟩ := r
  cases later <;> by_cases ha : id = a <;>
    simp [noted, mem_withId, mem_withoutId, ha, Ne.symm]

theorem mem_foldl_noted_mono {ids ids' : List String} (hids : id ∈ ids → id ∈ ids')
    (reports : List (String × Bool)) (hid : id ∈ reports.foldl noted ids) :
    id ∈ reports.foldl noted ids' := by
  induction reports generalizing ids ids' with
  | nil => exact hids hid
  | cons r rest ih =>
      apply ih _ hid
      rw [mem_noted, mem_noted]
      split
      · exact fun h => h
      · exact hids

/-- A document that will be passed over is passed over already, or the report that asks for it was
sent and is not yet read. -/
theorem mem_waiting_or_sent_of_due (hid : id ∈ p.due) :
    id ∈ p.waiting ∨ (id, true) ∈ p.completions := by
  rw [due_eq] at hid
  generalize p.waiting = ids at hid ⊢
  generalize p.completions = reports at hid ⊢
  induction reports generalizing ids with
  | nil => exact .inl hid
  | cons r rest ih =>
      rcases ih _ hid with hnoted | hsent
      · rw [mem_noted] at hnoted
        split at hnoted
        · next heq =>
            subst heq
            exact .inr (hnoted ▸ List.mem_cons_self)
        · exact .inl hnoted
      · exact .inr (List.mem_cons_of_mem _ hsent)

/-! What one move does to a pool. -/

/-- A worker's own move, and what it does about the reports.  A worker at a document does nothing
but end the handling. -/
theorem workerMove_spec {w : Worker} (hmove : p.workerMove? i w m = some q) :
    ∃ w', q.workers = p.workers.set i w' ∧ q.dispatching = p.dispatching ∧
      q.waiting = p.waiting ∧ WorkerStep w w' p.completions q.completions ∧
      ∀ id, w.phase = .busy id → ∃ k later, m = .finish k later := by
  cases m with
  | check k =>
      cases hphase : w.phase <;> simp only [workerMove?, hphase] at hmove <;> cases hmove
      refine ⟨_, rfl, rfl, rfl, ?_, by simp⟩
      split
      · exact ⟨by simp [hphase], by simp, by simp, .inl ⟨rfl, by simp [hphase]⟩⟩
      · exact ⟨by simp [hphase], by simp [hphase], by simp, .inl ⟨rfl, by simp [hphase]⟩⟩
  | take k =>
      cases hphase : w.phase <;> cases hqueue : w.queue <;>
        simp only [workerMove?, hphase, hqueue] at hmove <;> cases hmove
      refine ⟨_, rfl, rfl, rfl, ⟨by simp [hphase], ?_, by simp, .inl ⟨rfl, by simp [hphase]⟩⟩, by simp⟩
      simp [hphase, hqueue, or_comm]
  | present k =>
      cases hphase : w.phase <;> simp only [workerMove?, hphase] at hmove <;> cases hmove
      exact ⟨_, rfl, rfl, rfl, ⟨by simp [hphase], by simp [hphase], by simp,
        .inl ⟨rfl, by simp [hphase]⟩⟩, by simp⟩
  | quit k =>
      cases hphase : w.phase <;> simp only [workerMove?, hphase] at hmove <;> try cases hmove
      cases hstop : p.stopping <;> simp [hstop] at hmove
      subst hmove
      exact ⟨_, rfl, rfl, rfl, ⟨by simp [hphase], by simp, by simp,
        .inl ⟨rfl, by simp [hphase]⟩⟩, by simp⟩
  | finish k later =>
      cases hphase : w.phase <;> simp only [workerMove?, hphase] at hmove <;> cases hmove
      refine ⟨_, rfl, rfl, rfl, ⟨by simp [hphase], by simp +contextual, ?_,
        .inl ⟨rfl, by simp [hphase]⟩⟩, fun _ _ => ⟨k, later, rfl⟩⟩
      rintro r ⟨⟩
      simp [hphase]
  | release k =>
      cases hphase : w.phase <;> cases hfree : p.dispatching <;>
        simp only [workerMove?, hphase, hfree] at hmove <;> cases hmove
      exact ⟨_, rfl, hfree, rfl, ⟨by simp [hphase], by simp +contextual, by simp [hphase],
        .inl ⟨rfl, by simp [hphase]⟩⟩, by simp⟩
  | report k =>
      cases hphase : w.phase <;> simp only [workerMove?, hphase] at hmove <;> cases hmove
      exact ⟨_, rfl, rfl, rfl, ⟨by simp [hphase], by simp +contextual, by simp,
        .inr ⟨_, by simp [hphase], rfl⟩⟩, by simp⟩
  | _ => cases hmove

/-- What a move does to workers and reports, and to the dispatch that is under way. -/
inductive Moved (p : Pool) : PoolMove → Pool → Prop
  | worker {m : PoolMove} {q : Pool} {i : Nat} {w w' : Worker} (hw : p.workers[i]? = some w)
      (hworkers : q.workers = p.workers.set i w') (hdispatching : q.dispatching = p.dispatching)
      (hwaiting : q.waiting = p.waiting) (hstep : WorkerStep w w' p.completions q.completions)
      (hfinish : ∀ id, w.phase = .busy id → ∃ later, m = .finish i later) : Moved p m q
  | digest {r : String × Bool} {rest : List (String × Bool)} (hsent : p.completions = r :: rest) :
      Moved p .digest ({ p with completions := rest }.noteCompletion r.1 r.2)
  | send {id : String} {seen : List WorkerLoad} {i : Nat} {w : Worker}
      (hlooking : p.dispatching = some (.looking id seen)) (hplace : p.place seen = .ok (i, w)) :
      Moved p .send { p.enqueue i w id with dispatching := some (.sent id i) }
  | lock {m : PoolMove} {dispatching : Option Dispatching} {claims : List String} {stopping : Bool}
      (hlooking : ∀ id seen, dispatching = some (.looking id seen) →
        m = .claim id ∨ ∃ seen', p.dispatching = some (.looking id seen')) :
      Moved p m { p with dispatching := dispatching, claims := claims, stopping := stopping }

theorem moved_of_move (hmove : p.move? m = some q) : p.Moved m q := by
  cases m with
  | claim id =>
      cases hfree : p.dispatching <;> simp only [move?, hfree] at hmove <;> cases hmove
      split
      · exact .lock fun id seen hlooking => .inr ⟨seen, hlooking⟩
      · refine .lock fun a seen hlooking => .inl ?_
        cases hlooking
        rfl
  | look =>
      simp only [move?] at hmove
      split at hmove
      · next id seen hlooking =>
          obtain ⟨w, -, rfl⟩ := Option.map_eq_some_iff.mp hmove
          refine .lock fun a seen' heq => .inr ⟨seen, ?_⟩
          cases heq
          exact hlooking
      · cases hmove
  | send =>
      simp only [move?] at hmove
      split at hmove
      · next id seen hlooking =>
          split at hmove
          · cases hmove
          · split at hmove
            · cases hmove
              exact .lock (by simp)
            · next hplace =>
                cases hmove
                exact .send hlooking hplace
      · cases hmove
  | record =>
      simp only [move?] at hmove
      split at hmove
      · cases hmove
        exact .lock (by simp)
      · cases hmove
  | digest =>
      simp only [move?] at hmove
      split at hmove
      · next hsent =>
          cases hmove
          exact .digest hsent
      · cases hmove
  | askStop =>
      cases hmove
      exact .lock fun id seen hlooking => .inr ⟨seen, hlooking⟩
  | finish k later =>
      obtain ⟨w, hw, hmove⟩ := Option.bind_eq_some_iff.mp hmove
      obtain ⟨w', hworkers, hdispatching, hwaiting, hstep, -⟩ := workerMove_spec hmove
      exact .worker hw hworkers hdispatching hwaiting hstep fun _ _ => ⟨later, rfl⟩
  | check k | take k | present k | release k | report k | quit k =>
      obtain ⟨w, hw, hmove⟩ := Option.bind_eq_some_iff.mp hmove
      obtain ⟨w', hworkers, hdispatching, hwaiting, hstep, hfinish⟩ := workerMove_spec hmove
      refine .worker hw hworkers hdispatching hwaiting hstep fun id hphase => ?_
      obtain ⟨i, later, hm⟩ := hfinish id hphase
      cases hm

theorem noteCompletion_workers (later : Bool) :
    (p.noteCompletion id later).workers = p.workers := by
  cases later <;> rfl

theorem noteCompletion_dispatching (later : Bool) :
    (p.noteCompletion id later).dispatching = p.dispatching := by
  cases later <;> rfl

theorem noteCompletion_completions (later : Bool) :
    (p.noteCompletion id later).completions = p.completions := by
  cases later <;> rfl

/-- Only a dispatch that finds a place brings a document back to the workers. -/
theorem Moved.still_toHandle (hmoved : p.Moved m q) (hid : id ∈ q.toHandle) :
    id ∈ p.toHandle ∨ m = .send ∧ ∃ seen target,
      p.dispatching = some (.looking id seen) ∧ p.place seen = .ok target := by
  obtain ⟨v, hv, hidv⟩ := mem_toHandle.mp hid
  cases hmoved with
  | worker hw hworkers _ _ hstep _ =>
      rw [hworkers] at hv
      apply Or.inl
      rcases List.mem_or_eq_of_mem_set hv with hv | rfl
      · exact mem_toHandle.mpr ⟨v, hv, hidv⟩
      · exact mem_toHandle.mpr ⟨_, List.mem_of_getElem? hw, hstep.toHandle id hidv⟩
  | digest hsent =>
      rw [noteCompletion_workers] at hv
      exact .inl (mem_toHandle.mpr ⟨v, hv, hidv⟩)
  | send hlooking hplace =>
      next a seen i w =>
      obtain ⟨hw, -, -⟩ := place_ok hplace
      rcases List.mem_or_eq_of_mem_set hv with hv | rfl
      · exact .inl (mem_toHandle.mpr ⟨v, hv, hidv⟩)
      · rw [Worker.toHandle, List.append_assoc, List.singleton_append] at hidv
        rcases List.mem_cons.mp (List.perm_middle.mem_iff.mp hidv) with rfl | hidw
        · exact .inr ⟨rfl, seen, _, hlooking, hplace⟩
        · exact .inl (mem_toHandle.mpr ⟨w, List.mem_of_getElem? hw, hidw⟩)
  | lock => exact .inl (mem_toHandle.mpr ⟨v, hv, hidv⟩)

/-- Only a worker that had a document to handle comes to owe a report about it. -/
theorem Moved.still_owed (hmoved : p.Moved m q) (hidle : id ∉ p.toHandle)
    (howed : (id, later) ∈ q.owed) : (id, later) ∈ p.owed := by
  obtain ⟨v, hv, hphase⟩ := mem_owed.mp howed
  cases hmoved with
  | worker hw hworkers _ _ hstep _ =>
      rw [hworkers] at hv
      rcases List.mem_or_eq_of_mem_set hv with hv | rfl
      · exact mem_owed.mpr ⟨v, hv, hphase⟩
      · rcases hstep.owed _ hphase with hphase | hid
        · exact mem_owed.mpr ⟨_, List.mem_of_getElem? hw, hphase⟩
        · exact absurd (mem_toHandle.mpr ⟨_, List.mem_of_getElem? hw, hid⟩) hidle
  | digest hsent =>
      rw [noteCompletion_workers] at hv
      exact mem_owed.mpr ⟨v, hv, hphase⟩
  | send hlooking hplace =>
      obtain ⟨hw, -, -⟩ := place_ok hplace
      rcases List.mem_or_eq_of_mem_set hv with hv | rfl
      · exact mem_owed.mpr ⟨v, hv, hphase⟩
      · exact mem_owed.mpr ⟨_, List.mem_of_getElem? hw, hphase⟩
  | lock => exact mem_owed.mpr ⟨v, hv, hphase⟩

/-- A dispatch looks for a place for a document only once it has been handed over. -/
theorem Moved.looking {seen : List WorkerLoad} (hmoved : p.Moved m q)
    (hlooking : q.dispatching = some (.looking id seen)) :
    m = .claim id ∨ ∃ seen', p.dispatching = some (.looking id seen') := by
  cases hmoved with
  | worker _ _ hdispatching => exact .inr ⟨seen, hdispatching ▸ hlooking⟩
  | digest hsent =>
      rw [noteCompletion_dispatching] at hlooking
      exact .inr ⟨seen, hlooking⟩
  | send => cases hlooking
  | lock hold => exact hold id seen hlooking

theorem mem_set_self {ws : List Worker} {w w' : Worker} (hw : ws[i]? = some w) :
    w' ∈ ws.set i w' :=
  List.mem_set (List.getElem?_eq_some_iff.mp hw).1 w'

/-- Any other worker stays as it is. -/
theorem mem_set_of_mem {ws : List Worker} {v w w' : Worker} (hw : ws[i]? = some w) (hv : v ∈ ws) :
    v = w ∨ v ∈ ws.set i w' := by
  obtain ⟨before, after, rfl, hset⟩ := exists_split hw
  rw [hset]
  rcases List.mem_append.mp hv with hv | hv
  · exact .inr (List.mem_append_left _ hv)
  · rcases List.mem_cons.mp hv with rfl | hv
    · exact .inl rfl
    · exact .inr (by simp [hv])

/-- A report that asks for a later try is not lost, unless a good one about the same document is
still to come. -/
theorem Moved.stays_due (hmoved : p.Moved m q) (hgood : (id, false) ∉ p.owed)
    (hbad : (id, true) ∈ p.owed ∨ id ∈ p.due) : (id, true) ∈ q.owed ∨ id ∈ q.due := by
  rw [due_eq] at hbad ⊢
  cases hmoved with
  | @worker _ _ i w w' hw hworkers _ hwaiting hstep _ =>
      have hothers : ∀ r, r ∈ p.owed → w.phase.owed? = some r ∨ r ∈ q.owed := by
        intro r hr
        obtain ⟨v, hv, hphase⟩ := mem_owed.mp hr
        rcases mem_set_of_mem hw hv with rfl | hv
        · exact .inl hphase
        · exact .inr (mem_owed.mpr ⟨v, hworkers ▸ hv, hphase⟩)
      have hmover : ∀ r, w'.phase.owed? = some r → r ∈ q.owed := by
        intro r hphase
        exact mem_owed.mpr ⟨w', hworkers ▸ mem_set_self hw, hphase⟩
      rcases hstep.sent with ⟨hsame, hkept⟩ | ⟨r, hr, hsent⟩
      · rw [hsame, hwaiting]
        refine hbad.imp_left fun hr => ?_
        rcases hothers _ hr with hphase | hr
        · exact hmover _ (hkept _ hphase)
        · exact hr
      · rw [hsent, hwaiting, List.foldl_append, List.foldl_cons, List.foldl_nil, mem_noted]
        by_cases hid : r.1 = id
        · rw [if_pos hid]
          have hr' := mem_owed.mpr ⟨w, List.mem_of_getElem? hw, hr⟩
          obtain ⟨a, later⟩ := r
          subst hid
          cases later
          · exact absurd hr' hgood
          · exact .inr rfl
        · rw [if_neg hid]
          refine hbad.imp_left fun howed => ?_
          rcases hothers _ howed with hphase | howed
          · obtain rfl : r = (id, true) := Option.some.inj (hr.symm.trans hphase)
            exact absurd rfl hid
          · exact howed
  | @digest r rest hsent =>
      rw [hsent, List.foldl_cons] at hbad
      rw [noteCompletion_completions, waiting_noteCompletion, owed, noteCompletion_workers]
      exact hbad
  | send hlooking hplace =>
      refine hbad.imp_left fun howed => ?_
      obtain ⟨hw, -, -⟩ := place_ok hplace
      obtain ⟨v, hv, hphase⟩ := mem_owed.mp howed
      rcases mem_set_of_mem hw hv with rfl | hv
      · exact mem_owed.mpr ⟨_, mem_set_self hw, hphase⟩
      · exact mem_owed.mpr ⟨v, hv, hphase⟩
  | lock => exact hbad

/-- A document that has been handled and is not with the workers again.  It will be passed over by
pulls once all is read, unless `good`: a report that it need not wait is still to come. -/
structure Shelved (good : Prop) (p : Pool) (id : String) : Prop where
  idle : id ∉ p.toHandle
  owed : (id, false) ∈ p.owed → good
  due : good ∨ (id, true) ∈ p.owed ∨ id ∈ p.due

theorem Shelved.moved {good : Prop} (hp : p.Shelved good id) (hmoved : p.Moved m q) :
    q.Shelved good id ∨ m = .send ∧ ∃ seen target,
      p.dispatching = some (.looking id seen) ∧ p.place seen = .ok target := by
  by_cases hidle : id ∈ q.toHandle
  · exact .inr ((hmoved.still_toHandle hidle).resolve_left hp.idle)
  · refine .inl ⟨hidle, fun howed => hp.owed (hmoved.still_owed hp.idle howed), ?_⟩
    by_cases hgood : good
    · exact .inl hgood
    · have hlate : (id, false) ∉ p.owed := fun howed => hgood (hp.owed howed)
      exact .inr (hmoved.stays_due hlate (hp.due.resolve_left hgood))

/-- To be asked to wait no longer for another document, or to pull, changes nothing. -/
theorem Shelved.note {good : Prop} {waiting : List String} (hp : p.Shelved good id)
    (hwaiting : id ∈ p.waiting → id ∈ waiting) (pullRequested : Bool) :
    ({ p with waiting := waiting, pullRequested := pullRequested } : Pool).Shelved good id := by
  refine ⟨hp.idle, hp.owed, hp.due.imp_right (Or.imp_right fun hdue => ?_)⟩
  rw [due_eq] at hdue ⊢
  exact mem_foldl_noted_mono hwaiting _ hdue

/-- As long as pulls do not pass the document over, the report that asks for it is unread. -/
theorem Shelved.unread {good : Prop} (hp : p.Shelved good id) (hid : id ∉ p.waiting) :
    good ∨ p.Unread id true := by
  refine hp.due.imp_right fun hbad => hbad.imp_right fun hdue => ?_
  exact (mem_waiting_or_sent_of_due hdue).resolve_left hid

/-- A worker that has handled a document is the only one that had it. -/
theorem Sound.finished {w : Worker} (hp : p.Sound n) (hw : p.workers[i]? = some w)
    (hphase : w.phase = .busy id) (hmove : p.move? (.finish i later) = some q) :
    id ∉ q.toHandle ∧ (∀ seen, q.dispatching ≠ some (.looking id seen)) ∧ (id, later) ∈ q.owed := by
  have hq := hp.move hmove
  simp only [move?, hw, Option.bind_some, workerMove?, hphase, Option.some.injEq] at hmove
  have hself : q.workers[i]? = some { w with phase := .leaving id later } := by
    obtain ⟨hi, -⟩ := List.getElem?_eq_some_iff.mp hw
    rw [← hmove]
    exact List.getElem?_set_self hi
  refine ⟨?_, ?_, ?_⟩
  · intro hid
    obtain ⟨v, hv, hidv⟩ := mem_toHandle.mp hid
    obtain ⟨j, hj⟩ := List.getElem?_of_mem hv
    obtain rfl := hq.worker_unique hj hself (v.toHandle_subset_held hidv)
      (by simp [Worker.held, WorkerPhase.held])
    cases hself.symm.trans hj
    have hnodup := (List.nodup_flatMap.mp hq.nodup).1 _ hv
    simp only [Worker.held, WorkerPhase.held] at hnodup
    simp only [Worker.toHandle, WorkerPhase.atHand, List.append_nil] at hidv
    exact List.disjoint_of_nodup_append hnodup hidv (by simp)
  · intro seen hlooking
    have hheld : id ∈ q.held := by
      refine List.mem_flatMap.mpr ⟨_, List.mem_of_getElem? hself, ?_⟩
      simp [Worker.held, WorkerPhase.held]
    have hpledged := hq.pledged_of_held id hheld
    simp only [pledged, hlooking] at hpledged
    exact hq.unclaimed id (by simp [dispatched?, hlooking]) hpledged
  · exact mem_owed.mpr ⟨_, List.mem_of_getElem? hself, rfl⟩

end Pool

end Docket
