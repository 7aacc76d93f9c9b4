import Mathlib.Data.List.Induction
import Docket.Proofs.Reports
import Docket.Worker.Manager

/-!
Starts and stops by several threads.  To stop takes the pool away at once and waits for its workers
without the lock, so that a start may come in between.  It lets all running steps wait again, those
of the workers that are still at their documents too, and its pool knows nothing of their claims.
-/

namespace Docket

namespace Manager

variable {m : Manager} {p q : Pool} {k : Nat}

/-- All pools in the order of their starts.  Pools that are over keep their places. -/
def pools (m : Manager) : List Pool := m.draining ++ m.pool.toList

/-- Let a pool become another one. -/
def setPool (m : Manager) (k : Nat) (p : Pool) : Manager :=
  if k < m.draining.length then { m with draining := m.draining.set k p }
  else { m with pool := some p }

/-- Take the pool away before it is told to stop. -/
def detach (m : Manager) : Manager :=
  { m with pool := none, draining := m.pools }

theorem pools_setPool (hk : m.pools[k]? = some p) : (m.setPool k q).pools = m.pools.set k q := by
  obtain ⟨hlt, -⟩ := List.getElem?_eq_some_iff.mp hk
  unfold setPool pools
  split
  · next hdraining => rw [List.set_append_left _ _ hdraining]
  · next hdraining =>
      rw [List.set_append_right _ _ (Nat.le_of_not_lt hdraining)]
      cases hpool : m.pool with
      | none => simp [pools, hpool, hdraining] at hlt
      | some p' =>
          have hlast : k - m.draining.length = 0 := by
            simp only [pools, hpool, Option.toList, List.length_append, List.length_singleton] at hlt
            omega
          rw [hlast]
          rfl

theorem setPool_pool (hnone : m.pool = none) (hk : m.pools[k]? = some p) :
    (m.setPool k q).pool = none := by
  obtain ⟨hlt, -⟩ := List.getElem?_eq_some_iff.mp hk
  have hdraining : k < m.draining.length := by simpa [pools, hnone] using hlt
  simp [setPool, hdraining, hnone]

theorem setPool_queueCapacity : (m.setPool k q).queueCapacity = m.queueCapacity := by
  unfold setPool
  split <;> rfl

end Manager

/-- A step that a worker of a pool is at. -/
structure Execution where
  pool : Nat
  worker : Nat
  documentId : String
  step : Step
deriving DecidableEq, Repr

/-- A manager, the job store, and what the workers of all its pools are at. -/
structure Workshop where
  manager : Manager
  store : Store := {}
  /-- Whether a start has let the running steps wait again and not yet started its pool. -/
  starting : Bool := false
  executing : List Execution := []

/-- What the threads may do next. -/
inductive WorkshopEvent where
  /-- A thread of a pool moves, or somebody who still knows the pool hands it a document. -/
  | inPool (pool : Nat) (m : PoolMove)
  /-- It is noted which documents pulls pass over, and whether to pull. -/
  | note (pool : Nat) (waiting : List String) (pullRequested : Bool)
  /-- A stop takes the pool away. -/
  | detach
  /-- A start finds no pool, takes the lock and lets the running steps wait again. -/
  | reset
  /-- A start opens its pool and gives the lock back. -/
  | launch
  /-- A start cannot open its pool. -/
  | abandon
  /-- A worker begins a step of its document. -/
  | stepBegins (pool worker : Nat) (step : Step) (now : Calendar.Instant)
  | stepEnds (pool worker : Nat)
  /-- The store changes. -/
  | write (s : Store)

/-- The worker that has handled its document with a move. -/
def PoolMove.finisher? : PoolMove → Option Nat
  | .finish i _ => some i
  | _ => none

namespace Workshop

/-- The document that a worker is at. -/
def current? (t : Workshop) (k i : Nat) : Option String :=
  (t.manager.pools[k]?).bind fun p => (p.workers[i]?).bind Worker.current?

/-- Whether a worker is at a step. -/
def atStep (t : Workshop) (k i : Nat) : Bool :=
  t.executing.any fun e => e.pool == k && e.worker == i

/-- The workshop after an event; `none` if that cannot happen now. -/
def step? (t : Workshop) : WorkshopEvent → Option Workshop
  | .inPool k m =>
    if m.finisher?.any (t.atStep k) then none
    else (t.manager.pools[k]?).bind fun p =>
      (p.move? m).map fun p => { t with manager := t.manager.setPool k p }
  | .note k waiting pullRequested =>
    (t.manager.pools[k]?).map fun p =>
      let p := { p with waiting := waiting, pullRequested := pullRequested }
      { t with manager := t.manager.setPool k p }
  | .detach => if t.manager.isRunning then some { t with manager := t.manager.detach } else none
  | .reset =>
    if t.starting || t.manager.isRunning then none
    else some { t with starting := true, store := t.store.resetRunning.2 }
  | .launch =>
    if t.starting then
      let m := t.manager
      some { t with
        starting := false
        manager := { m with pool := some (.start m.workerCount m.queueCapacity m.batchSize) } }
    else none
  | .abandon => if t.starting then some { t with starting := false } else none
  | .stepBegins k i step now =>
    if t.atStep k i then none
    else (t.current? k i).map fun id =>
      { t with
        executing := ⟨k, i, id, step⟩ :: t.executing
        store := t.store.startJob id step now }
  | .stepEnds k i =>
    some { t with executing := t.executing.filter fun e => !(e.pool == k && e.worker == i) }
  | .write s => some { t with store := s }

/-- The workshop after events in order; `none` if one of them cannot happen. -/
def run? (t : Workshop) (events : List WorkshopEvent) : Option Workshop := events.foldlM step? t

variable {s t u : Workshop} {p q : Pool} {n k l i j : Nat} {id : String} {e : WorkshopEvent}
  {events before after : List WorkshopEvent}

theorem run?_append (t : Workshop) (before after : List WorkshopEvent) :
    t.run? (before ++ after) = (t.run? before).bind (·.run? after) :=
  List.foldlM_append

theorem run?_cons (t : Workshop) (e : WorkshopEvent) (after : List WorkshopEvent) :
    t.run? (e :: after) = (t.step? e).bind (·.run? after) :=
  rfl

theorem run?_concat (t : Workshop) (before : List WorkshopEvent) (e : WorkshopEvent) :
    t.run? (before ++ [e]) = (t.run? before).bind (·.step? e) := by
  simp [run?]

/-! Starting and stopping are such events. -/

theorem run_askStop (hpool : t.manager.pool = some p) :
    t.run? [.detach, .inPool t.manager.draining.length .askStop] =
      some { t with manager := t.manager.askStop } := by
  simp [run?, step?, Manager.isRunning, hpool, PoolMove.finisher?, Manager.detach, Manager.pools,
    Pool.move?, Manager.setPool, Manager.askStop]

theorem run_start {m : Manager} {s : Store} (hfree : t.starting = false)
    (hstart : t.manager.start (.ok t.store.resetRunning) = .ok (m, s)) :
    t.run? [.reset, .launch] = some { t with manager := m, store := s } := by
  unfold Manager.start at hstart
  split at hstart
  · cases hstart
  · next hidle =>
      cases hstart
      simp only [run?, step?, hfree, hidle, List.foldlM_cons, List.foldlM_nil]
      rfl

end Workshop

/-! A worker at a document, and a pool that is over. -/

namespace Pool

variable {p q : Pool} {m : PoolMove} {i : Nat} {w : Worker} {id : String}

theorem isOver_iff : p.isOver = true ↔ ∀ w ∈ p.workers, w.phase = .ended := by
  simp [isOver]

/-- Workers that have ended do nothing. -/
theorem isOver_of_move (hover : p.isOver = true) (hmove : p.move? m = some q) :
    q.isOver = true := by
  have hended := isOver_iff.mp hover
  cases moved_of_move hmove with
  | worker hw _ _ _ hstep _ => exact absurd (hended _ (List.mem_of_getElem? hw)) hstep.going
  | digest hsent =>
      rw [isOver, noteCompletion_workers]
      exact hover
  | send hlooking hplace =>
      obtain ⟨hw, hphase, -⟩ := place_ok hplace
      exact absurd (hended _ (List.mem_of_getElem? hw)) hphase
  | lock => exact hover

/-- A worker stays at its document until it ends the handling. -/
theorem busy_of_move (hw : p.workers[i]? = some w) (hphase : w.phase = .busy id)
    (hmove : p.move? m = some q) (hm : m.finisher? ≠ some i) :
    ∃ w', q.workers[i]? = some w' ∧ w'.phase = .busy id := by
  have hset : ∀ {j : Nat} {v v' : Worker}, p.workers[j]? = some v →
      (j = i → v'.phase = .busy id) →
      ∃ w', (p.workers.set j v')[i]? = some w' ∧ w'.phase = .busy id := by
    intro j v v' hv hv'
    by_cases hij : j = i
    · obtain ⟨hlt, -⟩ := List.getElem?_eq_some_iff.mp hv
      exact ⟨v', by rw [← hij, List.getElem?_set_self hlt], hv' hij⟩
    · exact ⟨w, by rw [List.getElem?_set_ne hij, hw], hphase⟩
  cases moved_of_move hmove with
  | @worker _ _ j v v' hv hworkers _ _ _ hfinish =>
      rw [hworkers]
      refine hset hv fun hij => ?_
      subst hij
      obtain rfl : w = v := Option.some.inj (hw.symm.trans hv)
      obtain ⟨later, rfl⟩ := hfinish id hphase
      exact absurd rfl hm
  | digest hsent =>
      rw [noteCompletion_workers]
      exact ⟨w, hw, hphase⟩
  | send hlooking hplace =>
      obtain ⟨hv, -, -⟩ := place_ok hplace
      refine hset hv fun hij => ?_
      subst hij
      obtain rfl := Option.some.inj (hw.symm.trans hv)
      exact hphase
  | lock => exact ⟨w, hw, hphase⟩

end Pool

namespace Workshop

variable {s t u : Workshop} {p q : Pool} {k l i : Nat} {id : String} {e : WorkshopEvent}
  {events before after : List WorkshopEvent}

theorem current?_eq_some : t.current? k i = some id ↔
    ∃ p w, t.manager.pools[k]? = some p ∧ p.workers[i]? = some w ∧ w.phase = .busy id := by
  have hphase : ∀ w : Worker, w.current? = some id ↔ w.phase = .busy id := by
    intro w
    unfold Worker.current?
    split <;> simp_all
  simp [current?, Option.bind_eq_some_iff, hphase]

/-- A start let running steps wait again when an earlier pool was not over, and its own pool is the
later one. -/
def Overlaps (t : Workshop) (events : List WorkshopEvent) (k l : Nat) : Prop :=
  ∃ before after u p, events = before ++ .reset :: after ∧ t.run? before = some u ∧
    u.manager.pools.length = l ∧ u.manager.pools[k]? = some p ∧ p.isOver = false

theorem Overlaps.append (h : t.Overlaps before k l) (after : List WorkshopEvent) :
    t.Overlaps (before ++ after) k l := by
  obtain ⟨first, rest, u, p, rfl, hu⟩ := h
  exact ⟨first, rest ++ after, u, p, by simp, hu⟩

/-- What every run keeps. -/
structure Lawful (t : Workshop) (events : List WorkshopEvent) (u : Workshop) : Prop where
  lock : u.starting = true → u.manager.pool = none
  sound : ∀ p ∈ u.manager.pools, p.Sound (max u.manager.queueCapacity 1)
  executing : ∀ e ∈ u.executing, u.current? e.pool e.worker = some e.documentId
  starting : u.starting = true → ∀ k p, u.manager.pools[k]? = some p → p.isOver = false →
    t.Overlaps events k u.manager.pools.length
  overlaps : ∀ k l p, k < l → l < u.manager.pools.length → u.manager.pools[k]? = some p →
    p.isOver = false → t.Overlaps events k l

theorem Lawful.append (hu : t.Lawful before u) (after : List WorkshopEvent) :
    t.Lawful (before ++ after) u := by
  refine ⟨hu.lock, hu.sound, hu.executing, ?_, ?_⟩
  · exact fun hstarting k p hk hover => (hu.starting hstarting k p hk hover).append after
  · exact fun k l p hkl hl hk hover => (hu.overlaps k l p hkl hl hk hover).append after

/-- One pool goes on. -/
theorem Lawful.setPool (hu : t.Lawful events u) (hk : u.manager.pools[k]? = some p)
    (hsound : ∀ n, p.Sound n → q.Sound n) (hover : p.isOver = true → q.isOver = true)
    (hbusy : ∀ e ∈ u.executing, e.pool = k → ∀ w, p.workers[e.worker]? = some w →
      w.phase = .busy e.documentId →
      ∃ w', q.workers[e.worker]? = some w' ∧ w'.phase = .busy e.documentId) :
    t.Lawful events { u with manager := u.manager.setPool k q } := by
  have hpools : (u.manager.setPool k q).pools = u.manager.pools.set k q :=
    Manager.pools_setPool hk
  have hlength : (u.manager.setPool k q).pools.length = u.manager.pools.length := by
    rw [hpools, List.length_set]
  have hself : (u.manager.setPool k q).pools[k]? = some q := by
    obtain ⟨hlt, -⟩ := List.getElem?_eq_some_iff.mp hk
    rw [hpools, List.getElem?_set_self hlt]
  have hother : ∀ j, k ≠ j → (u.manager.setPool k q).pools[j]? = u.manager.pools[j]? := by
    intro j hj
    rw [hpools, List.getElem?_set_ne hj]
  -- A pool that is not over now was not over before.
  have hbefore : ∀ (j : Nat) (p' : Pool), (u.manager.setPool k q).pools[j]? = some p' →
      p'.isOver = false → ∃ p'', u.manager.pools[j]? = some p'' ∧ p''.isOver = false := by
    intro j p' hj hgoes
    by_cases hjk : k = j
    · subst hjk
      cases hself.symm.trans hj
      refine ⟨p, hk, ?_⟩
      cases hp : p.isOver
      · rfl
      · exact (hover hp).symm.trans hgoes
    · exact ⟨p', (hother j hjk).symm.trans hj, hgoes⟩
  refine ⟨?_, ?_, ?_, ?_, ?_⟩
  · exact fun hstarting => Manager.setPool_pool (hu.lock hstarting) hk
  · intro p' hp'
    rw [Manager.setPool_queueCapacity]
    rw [hpools] at hp'
    rcases List.mem_or_eq_of_mem_set hp' with hp' | rfl
    · exact hu.sound p' hp'
    · exact hsound _ (hu.sound p (List.mem_of_getElem? hk))
  · intro e he
    obtain ⟨p', w, hp', hw, hphase⟩ := current?_eq_some.mp (hu.executing e he)
    apply current?_eq_some.mpr
    by_cases hek : k = e.pool
    · rw [← hek] at hp' ⊢
      cases hk.symm.trans hp'
      obtain ⟨w', hw', hphase'⟩ := hbusy e he hek.symm w hw hphase
      exact ⟨q, w', hself, hw', hphase'⟩
    · exact ⟨p', w, (hother _ hek).trans hp', hw, hphase⟩
  · intro hstarting j p' hj hgoes
    obtain ⟨p'', hj', hgoes'⟩ := hbefore j p' hj hgoes
    rw [hlength]
    exact hu.starting hstarting j p'' hj' hgoes'
  · intro j l p' hjl hl hj hgoes
    obtain ⟨p'', hj', hgoes'⟩ := hbefore j p' hj hgoes
    rw [hlength] at hl
    exact hu.overlaps j l p'' hjl hl hj' hgoes'

theorem Lawful.launch (hu : t.Lawful events u) (hstarting : u.starting = true)
    (hstep : u.step? .launch = some s) : t.Lawful events s := by
  simp only [step?, hstarting, if_true] at hstep
  cases hstep
  have hpools : ∀ p, Manager.pools { u.manager with pool := some p } = u.manager.pools ++ [p] := by
    intro p
    simp [Manager.pools, hu.lock hstarting]
  refine ⟨by simp, ?_, ?_, by simp, ?_⟩
  · intro p hp
    rw [hpools] at hp
    rcases List.mem_append.mp hp with hp | hp
    · exact hu.sound p hp
    · rw [List.mem_singleton.mp hp]
      exact Pool.sound_start _ _ _
  · intro e he
    obtain ⟨p, w, hp, hw, hphase⟩ := current?_eq_some.mp (hu.executing e he)
    refine current?_eq_some.mpr ⟨p, w, ?_, hw, hphase⟩
    obtain ⟨hlt, -⟩ := List.getElem?_eq_some_iff.mp hp
    rw [hpools, List.getElem?_append_left hlt, hp]
  · intro k l p hkl hl hk hover
    simp only [hpools, List.length_append, List.length_singleton] at hl hk
    rw [List.getElem?_append_left (by omega)] at hk
    by_cases hlast : l = u.manager.pools.length
    · exact hlast ▸ hu.starting hstarting k p hk hover
    · exact hu.overlaps k l p hkl (by omega) hk hover

/-- No worker is done with a document while it is still at a step of it. -/
theorem Lawful.inPool {m : PoolMove} (hu : t.Lawful events u)
    (hstep : u.step? (.inPool k m) = some s) : t.Lawful events s := by
  simp only [step?] at hstep
  split at hstep
  · cases hstep
  · next hguard =>
      obtain ⟨p, hk, hstep⟩ := Option.bind_eq_some_iff.mp hstep
      obtain ⟨q, hmove, rfl⟩ := Option.map_eq_some_iff.mp hstep
      refine hu.setPool hk (fun n hp => hp.move hmove)
        (fun hover => Pool.isOver_of_move hover hmove) ?_
      intro e he hpool w hw hphase
      refine Pool.busy_of_move hw hphase hmove fun hfinisher => hguard ?_
      rw [hfinisher, Option.any_some]
      exact List.any_eq_true.mpr ⟨e, he, by simp [hpool]⟩

/-- A pool that is taken away goes on where it is, after the others that were. -/
theorem Lawful.detach (hu : t.Lawful events u) (hstep : u.step? .detach = some s) :
    t.Lawful events s := by
  simp only [step?] at hstep
  split at hstep
  · cases hstep
    have hpools : u.manager.detach.pools = u.manager.pools := by
      simp [Manager.detach, Manager.pools]
    refine ⟨fun _ => rfl, hpools ▸ hu.sound, ?_, hpools ▸ hu.starting, hpools ▸ hu.overlaps⟩
    intro e he
    have hcurrent := hu.executing e he
    simp only [current?] at hcurrent ⊢
    rw [hpools, hcurrent]
  · cases hstep

theorem Lawful.step (hu : t.Lawful events u) (hrun : t.run? events = some u)
    (hstep : u.step? e = some s) : t.Lawful (events ++ [e]) s := by
  have hold := hu.append [e]
  cases e with
  | inPool k m => exact hold.inPool hstep
  | note k waiting pullRequested =>
      obtain ⟨p, hk, rfl⟩ := Option.map_eq_some_iff.mp hstep
      exact hold.setPool hk (fun n hp => hp.note _ _) (fun hover => hover)
        fun e he hpool w hw hphase => ⟨w, hw, hphase⟩
  | detach => exact hold.detach hstep
  | reset =>
      simp only [step?] at hstep
      split at hstep
      · cases hstep
      · next hidle =>
          cases hstep
          refine ⟨?_, hold.sound, hold.executing, ?_, hold.overlaps⟩
          · simp_all [Manager.isRunning]
          · exact fun _ k p hk hover => ⟨events, [], u, p, rfl, hrun, rfl, hk, hover⟩
  | launch =>
      cases hstarting : u.starting
      · simp [step?, hstarting] at hstep
      · exact hold.launch hstarting hstep
  | abandon =>
      simp only [step?] at hstep
      split at hstep
      · cases hstep
        exact ⟨by simp, hold.sound, hold.executing, by simp, hold.overlaps⟩
      · cases hstep
  | stepBegins k i step now =>
      simp only [step?] at hstep
      split at hstep
      · cases hstep
      · obtain ⟨id, hid, rfl⟩ := Option.map_eq_some_iff.mp hstep
        refine ⟨hold.lock, hold.sound, ?_, hold.starting, hold.overlaps⟩
        intro e he
        rcases List.mem_cons.mp he with rfl | he
        · exact hid
        · exact hold.executing e he
  | stepEnds k i =>
      cases hstep
      refine ⟨hold.lock, hold.sound, ?_, hold.starting, hold.overlaps⟩
      exact fun e he => hold.executing e (List.mem_of_mem_filter he)
  | write s =>
      cases hstep
      exact ⟨hold.lock, hold.sound, hold.executing, hold.starting, hold.overlaps⟩

/-- A manager that has not yet been started, over a store. -/
def closed (workers capacity batch : Nat) (s : Store) : Workshop where
  manager := { workerCount := workers, queueCapacity := capacity, batchSize := batch }
  store := s

theorem lawful_run {workers capacity batch : Nat} {s : Store}
    (hrun : (closed workers capacity batch s).run? events = some u) :
    (closed workers capacity batch s).Lawful events u := by
  induction events using List.reverseRecOn generalizing u with
  | nil =>
      cases hrun
      exact ⟨by simp [closed], by simp [closed, Manager.pools], by simp [closed], by simp [closed],
        by simp [closed, Manager.pools]⟩
  | append_singleton events e ih =>
      rw [run?_concat] at hrun
      obtain ⟨v, hv, hstep⟩ := Option.bind_eq_some_iff.mp hrun
      exact (ih hv).step hv hstep

/-! What a start makes of a worker that is still at its document. -/

theorem run_inPool {moves : List PoolMove} (hk : t.manager.pools[k]? = some p)
    (hidle : ∀ i, t.atStep k i = false) (hrun : p.run? moves = some q) :
    ∃ u, t.run? (moves.map (.inPool k)) = some u ∧ u.manager.pools = t.manager.pools.set k q ∧
      u.store = t.store ∧ u.executing = t.executing := by
  induction moves generalizing t p with
  | nil =>
      cases hrun
      obtain ⟨hlt, hget⟩ := List.getElem?_eq_some_iff.mp hk
      exact ⟨t, rfl, by rw [← hget, List.set_getElem_self], rfl, rfl⟩
  | cons m rest ih =>
      obtain ⟨p', hmove, hrest⟩ := Option.bind_eq_some_iff.mp hrun
      obtain ⟨v, hv, hpools, hstore, hexecuting⟩ : ∃ v, t.step? (.inPool k m) = some v ∧
          v.manager.pools = t.manager.pools.set k p' ∧ v.store = t.store ∧
          v.executing = t.executing := by
        have hguard : m.finisher?.any (t.atStep k) = false := by
          cases m.finisher? <;> simp [hidle]
        refine ⟨{ t with manager := t.manager.setPool k p' }, ?_, Manager.pools_setPool hk, rfl, rfl⟩
        simp [step?, hguard, hk, hmove]
      have hk' : v.manager.pools[k]? = some p' := by
        obtain ⟨hlt, -⟩ := List.getElem?_eq_some_iff.mp hk
        rw [hpools, List.getElem?_set_self hlt]
      have hidle' : ∀ i, v.atStep k i = false := by
        intro i
        rw [atStep, hexecuting]
        exact hidle i
      obtain ⟨u, hu, hupools, hustore, huexecuting⟩ := ih hk' hidle' hrest
      refine ⟨u, ?_, ?_, hustore.trans hstore, huexecuting.trans hexecuting⟩
      · rw [List.map_cons, run?_cons, hv, Option.bind_some, hu]
      · rw [hupools, hpools, List.set_set]

end Workshop

/-- A worker that has not been told to stop begins with the first document of its queue. -/
theorem Pool.run_serves {p : Pool} {i : Nat} {id : String} {rest : List String}
    (hw : p.workers[i]? = some ⟨id :: rest, .resting⟩) (hgoes : p.stopping = false) :
    p.run? [.check i, .take i, .present i] = some (p.setWorker i ⟨rest, .busy id⟩) := by
  have hself : ∀ v, (p.setWorker i v).workers[i]? = some v := by
    intro v
    obtain ⟨hlt, -⟩ := List.getElem?_eq_some_iff.mp hw
    exact List.getElem?_set_self hlt
  have hagain : ∀ v v', (p.setWorker i v).setWorker i v' = p.setWorker i v' := by
    intro v v'
    simp [setWorker]
  have hcheck : p.move? (.check i) = some (p.setWorker i ⟨id :: rest, .willing⟩) := by
    simp [move?, workerMove?, hw, hgoes]
  have htake : (p.setWorker i ⟨id :: rest, .willing⟩).move? (.take i) =
      some (p.setWorker i ⟨rest, .received id⟩) := by
    simp [move?, workerMove?, hself, hagain]
  have hpresent : (p.setWorker i ⟨rest, .received id⟩).move? (.present i) =
      some (p.setWorker i ⟨rest, .busy id⟩) := by
    simp [move?, workerMove?, hself, hagain]
  simp [run?, hcheck, htake, hpresent]

/-- A new pool takes any document. -/
theorem Pool.start_serves (workers capacity batch : Nat) (id : String) :
    ∃ (moves : List PoolMove) (q : Pool) (i : Nat),
      (Pool.start workers capacity batch).run? moves = some q ∧
      q.workers[i]? = some ⟨[], .busy id⟩ := by
  have hroom : (start workers capacity batch).queueFull = false := by
    simp [queueFull, start]
  obtain ⟨i, w, hplace⟩ := place_of_room ((sound_start workers capacity batch).whole rfl) hroom
  obtain ⟨hw, -, -⟩ := place_ok hplace
  obtain ⟨hlt, -⟩ := List.getElem?_eq_some_iff.mp hw
  obtain rfl : w = {} := (List.mem_replicate.mp (List.mem_of_getElem? hw)).2
  obtain ⟨moves, hrun, -⟩ := run_dispatch (p := start workers capacity batch) rfl id
  have hdispatch : ((start workers capacity batch).dispatch id).2 =
      { (start workers capacity batch).enqueue i {} id with claims := [id] } := by
    rw [dispatch, hplace]
    rfl
  have hqueued : ((start workers capacity batch).dispatch id).2.workers[i]? =
      some ⟨[id], .resting⟩ := by
    rw [hdispatch]
    exact List.getElem?_set_self hlt
  have hgoes : ((start workers capacity batch).dispatch id).2.stopping = false := by
    rw [hdispatch]
    rfl
  refine ⟨(.claim id :: moves) ++ [.check i, .take i, .present i],
    ((start workers capacity batch).dispatch id).2.setWorker i ⟨[], .busy id⟩, i, ?_, ?_⟩
  · rw [run?_append, hrun, Option.bind_some, run_serves hqueued hgoes]
  · obtain ⟨hlt', -⟩ := List.getElem?_eq_some_iff.mp hqueued
    exact List.getElem?_set_self hlt'

namespace Workshop

variable {t u v : Workshop} {k l i j : Nat} {id : String} {e : Execution}
  {events : List WorkshopEvent}

/-- While no pool is there but a worker is still at a document, a start brings a second worker to
it, and lets all running steps wait again. -/
theorem Lawful.restart (hu : t.Lawful events u) (hstopped : u.manager.pool = none)
    (hfree : u.starting = false) (hid : u.current? k i = some id) :
    ∃ moves v j, u.run? (.reset :: .launch ::
        List.map (.inPool u.manager.pools.length) moves) = some v ∧
      v.current? k i = some id ∧ v.current? u.manager.pools.length j = some id ∧
      v.executing = u.executing ∧ v.store = u.store.resetRunning.2 := by
  obtain ⟨p, w, hk, hw, hphase⟩ := current?_eq_some.mp hid
  let m := u.manager
  obtain ⟨moves, q, j, hrun, hw'⟩ :=
    Pool.start_serves m.workerCount m.queueCapacity m.batchSize id
  let opened : Workshop :=
    { u with
      manager := { m with pool := some (.start m.workerCount m.queueCapacity m.batchSize) }
      store := u.store.resetRunning.2 }
  have hopen : u.run? [.reset, .launch] = some opened := by
    simp [run?, step?, hfree, Manager.isRunning, hstopped, opened, m]
  have hpools : opened.manager.pools = u.manager.pools ++
      [.start m.workerCount m.queueCapacity m.batchSize] := by
    simp [opened, Manager.pools, m, hstopped]
  have hnew : opened.manager.pools[u.manager.pools.length]? =
      some (.start m.workerCount m.queueCapacity m.batchSize) := by
    simp [hpools]
  have hidle : ∀ i, opened.atStep u.manager.pools.length i = false := by
    intro i
    refine List.any_eq_false.mpr fun e he => ?_
    obtain ⟨p', -, hp', -⟩ := current?_eq_some.mp (hu.executing e he)
    obtain ⟨hlt, -⟩ := List.getElem?_eq_some_iff.mp hp'
    simp only [Bool.and_eq_true, beq_iff_eq, not_and]
    omega
  obtain ⟨v, hv, hvpools, hstore, hexecuting⟩ := run_inPool hnew hidle hrun
  obtain ⟨hlt, -⟩ := List.getElem?_eq_some_iff.mp hk
  refine ⟨moves, v, j, ?_, ?_, ?_, hexecuting, hstore⟩
  · have happend := run?_append u [.reset, .launch] (moves.map (.inPool u.manager.pools.length))
    rw [hopen, Option.bind_some, hv] at happend
    exact happend
  · refine current?_eq_some.mpr ⟨p, w, ?_, hw, hphase⟩
    rw [hvpools, List.getElem?_set_ne (by omega), hpools, List.getElem?_append_left hlt, hk]
  · refine current?_eq_some.mpr ⟨q, _, ?_, hw', rfl⟩
    rw [hvpools, hpools, List.getElem?_set_self (by simp)]

/-- A row of a running step waits again after a start. -/
theorem requeued_of_reset {r : JobRow} {s : Store} (hr : r ∈ s.jobs)
    (hrunning : r.status = JobStatus.running.name) : r.requeued ∈ s.resetRunning.2.jobs := by
  refine List.mem_map.mpr ⟨r, hr, ?_⟩
  simp [hrunning]

theorem Lawful.not_over (hid : u.current? k i = some id) :
    ∃ p, u.manager.pools[k]? = some p ∧ p.isOver = false := by
  obtain ⟨p, w, hk, hw, hphase⟩ := current?_eq_some.mp hid
  refine ⟨p, hk, ?_⟩
  cases hover : p.isOver
  · rfl
  · have hended := Pool.isOver_iff.mp hover w (List.mem_of_getElem? hw)
    cases hphase.symm.trans hended

theorem Lawful.same_pool (hu : t.Lawful events u) (hi : u.current? k i = some id)
    (hj : u.current? k j = some id) : i = j := by
  obtain ⟨p, v, hk, hv, hphase⟩ := current?_eq_some.mp hi
  obtain ⟨p', w, hk', hw, hphase'⟩ := current?_eq_some.mp hj
  cases hk.symm.trans hk'
  have hp := hu.sound p (List.mem_of_getElem? hk)
  have hheld : ∀ w : Worker, w.phase = .busy id → id ∈ w.held := by
    intro w hw
    exact Worker.current_mem_held (by simp [Worker.current?, hw])
  exact hp.worker_unique hv hw (hheld v hphase) (hheld w hphase')

theorem Lawful.overlaps_of_current (hu : t.Lawful events u) (hkl : k < l)
    (hi : u.current? k i = some id) (hj : u.current? l j = some id) : t.Overlaps events k l := by
  obtain ⟨p, hk, hover⟩ := not_over hi
  obtain ⟨q, hl, -⟩ := not_over hj
  obtain ⟨hlt, -⟩ := List.getElem?_eq_some_iff.mp hl
  exact hu.overlaps k l p hkl hlt hk hover

theorem Lawful.draining_of_reset (hu : t.Lawful events u) (hreset : u.step? .reset = some v)
    (he : e ∈ u.executing) : ∃ p, u.manager.draining[e.pool]? = some p ∧ p.isOver = false := by
  obtain ⟨p, hk, hover⟩ := not_over (hu.executing e he)
  have hnone : u.manager.pool = none := by
    simp only [step?] at hreset
    split at hreset
    · cases hreset
    · next hidle => simp_all [Manager.isRunning]
  have hpools : u.manager.pools = u.manager.draining := by
    simp [Manager.pools, hnone]
  exact ⟨p, hpools ▸ hk, hover⟩

/-- In every run of a manager, whatever its threads do in whatever order: two workers are at one
document only if they are of different pools and the start of the later pool let the running steps
wait again before the earlier pool was over; a step is at work when that happens only in a pool that
was taken away and is not over, and its row waits again.  So neither happens while every start waits
for the pools before it, and both happen whenever one does not wait for a worker at a document. -/
theorem exclusive_unless_overlap {workers capacity batch : Nat} {s : Store}
    (hrun : (closed workers capacity batch s).run? events = some u) :
    (∀ k l i j id, u.current? k i = some id → u.current? l j = some id →
      (k = l → i = j) ∧ (k < l → (closed workers capacity batch s).Overlaps events k l)) ∧
    (∀ v, u.step? .reset = some v → ∀ e ∈ u.executing,
      (∃ p, u.manager.draining[e.pool]? = some p ∧ p.isOver = false) ∧
      ∀ r ∈ u.store.jobs, r.isFor e.documentId e.step → r.status = JobStatus.running.name →
        r.requeued ∈ v.store.jobs) ∧
    ((∀ k l, ¬ (closed workers capacity batch s).Overlaps events k l) →
      ∀ k l i j id, u.current? k i = some id → u.current? l j = some id → k = l ∧ i = j) ∧
    ((∀ p ∈ u.manager.draining, p.isOver = true) → ∀ v, u.step? .reset = some v →
      u.executing = []) ∧
    (u.manager.pool = none → u.starting = false → ∀ k i id, u.current? k i = some id →
      ∃ moves v j, u.run? (.reset :: .launch ::
          List.map (.inPool u.manager.pools.length) moves) = some v ∧
        v.current? k i = some id ∧ v.current? u.manager.pools.length j = some id ∧
        v.executing = u.executing ∧ v.store = u.store.resetRunning.2) := by
  have hu := lawful_run hrun
  have hpair : ∀ k l i j id, u.current? k i = some id → u.current? l j = some id →
      (k = l → i = j) ∧ (k < l → (closed workers capacity batch s).Overlaps events k l) := by
    intro k l i j id hi hj
    constructor
    · rintro rfl
      exact hu.same_pool hi hj
    · exact fun hkl => hu.overlaps_of_current hkl hi hj
  refine ⟨hpair, ?_, ?_, ?_, ?_⟩
  · intro v hreset e he
    refine ⟨hu.draining_of_reset hreset he, fun r hr _ hrunning => ?_⟩
    simp only [step?] at hreset
    split at hreset
    · cases hreset
    · cases hreset
      exact requeued_of_reset hr hrunning
  · intro hnever k l i j id hi hj
    rcases Nat.lt_trichotomy k l with hkl | rfl | hlk
    · exact absurd ((hpair k l i j id hi hj).2 hkl) (hnever k l)
    · exact ⟨rfl, (hpair k k i j id hi hj).1 rfl⟩
    · exact absurd ((hpair l k j i id hj hi).2 hlk) (hnever l k)
  · intro hover v hreset
    refine List.eq_nil_iff_forall_not_mem.mpr fun e he => ?_
    obtain ⟨p, hp, hgoes⟩ := hu.draining_of_reset hreset he
    exact absurd (hgoes.symm.trans (hover p (List.mem_of_getElem? hp))) (by simp)
  · intro hstopped hfree k i id hid
    exact hu.restart hstopped hfree hid

/-- A worker is at a step of its document when a stop takes the pool away. -/
def untilStop : List WorkshopEvent :=
  [.reset, .launch] ++ List.map (.inPool 0) [.claim "d", .look, .send, .record, .check 0, .take 0,
    .present 0] ++ [.stepBegins 0 0 .hash default, .detach, .inPool 0 .askStop]

/-- Another thread starts a pool before the stop has joined the workers, and hands the document to
it. -/
def overlappingStart : List WorkshopEvent :=
  [.reset, .launch] ++ List.map (.inPool 1) [.claim "d", .look, .send, .record, .check 0, .take 0,
    .present 0]

/-- A store in which a document waits for a step. -/
def oneWaiting : Store where
  jobs := [.pending "d" .hash default]

/-- The start lets a row wait again whose step is at work, and a second worker gets to its
document. -/
theorem reset_at_work : ∃ t u, (closed 1 1 1 oneWaiting).run? untilStop = some t ∧
    t.executing = [⟨0, 0, "d", .hash⟩] ∧ t.store.jobs.map (·.status) = ["running"] ∧
    t.run? overlappingStart = some u ∧
    u.executing = t.executing ∧ u.store.jobs.map (·.status) = ["pending"] ∧
    u.current? 0 0 = some "d" ∧ u.current? 1 0 = some "d" := by
  refine ⟨_, _, rfl, ?_, ?_, rfl, ?_, ?_, ?_, ?_⟩ <;> rfl

/-- The start came before the first pool was over. -/
theorem exclusive_unless_overlap_at_work : ∃ u,
    (closed 1 1 1 oneWaiting).run? (untilStop ++ overlappingStart) = some u ∧
    (closed 1 1 1 oneWaiting).Overlaps (untilStop ++ overlappingStart) 0 1 := by
  obtain ⟨u, hrun, h0, h1⟩ : ∃ u,
      (closed 1 1 1 oneWaiting).run? (untilStop ++ overlappingStart) = some u ∧
      u.current? 0 0 = some "d" ∧ u.current? 1 0 = some "d" := ⟨_, rfl, rfl, rfl⟩
  obtain ⟨hpair, -⟩ := exclusive_unless_overlap hrun
  exact ⟨u, hrun, (hpair 0 1 0 0 "d" h0 h1).2 (by decide)⟩

end Workshop

end Docket
