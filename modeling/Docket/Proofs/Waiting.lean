import Mathlib.Data.List.Induction
import Docket.Proofs.Reports
import Docket.Worker.Outcome

/-!
A document whose handling failed waits for the next poll.  Its worker releases the claim before it
sends its report, and the scheduler reads the report later still.  A pull that looks in between at
the documents to be passed over does not find it there.
-/

namespace Docket

/-! A pool and the pulls that are under way. -/

/-- A pool, and for each pull the documents that it has still to hand over. -/
structure Traffic where
  pool : Pool
  pulls : List (List String) := []
  /-- The pull that handed a document over last. -/
  lastPull : Option Nat := none
deriving DecidableEq, Repr

/-- What may happen to a pool while pulls are under way. -/
inductive TrafficEvent where
  /-- A thread of the pool moves, or a dispatch that was asked for begins. -/
  | move (m : PoolMove)
  | retryNow (id : String)
  | retryAll
  | requestPull
  /-- A request for a pull is taken back by the one who heeds it. -/
  | heedRequest
  /-- A pull looks at what to pass over; the job store will name it these documents. -/
  | pull (ids : List String)
  /-- A pull hands its next document over.  It may stop anywhere, as it does when there is no room. -/
  | handOver (pull : Nat)
deriving DecidableEq, Repr

/-- Whether a document waits no longer then, or is asked for. -/
def TrafficEvent.frees (id : String) : TrafficEvent → Bool
  | .retryAll => true
  | .retryNow a | .move (.claim a) => a == id
  | _ => false

namespace Traffic

/-- A pool that was just started. -/
def opening (workers capacity batch : Nat) : Traffic where
  pool := .start workers capacity batch

/-- The traffic after an event; `none` if that cannot happen now. -/
def step? (t : Traffic) : TrafficEvent → Option Traffic
  | .move m => (t.pool.move? m).map fun p => { t with pool := p }
  | .retryNow id => some { t with pool := t.pool.retryNow id }
  | .retryAll => some { t with pool := t.pool.retryAll }
  | .requestPull => some { t with pool := t.pool.requestPull }
  | .heedRequest => some { t with pool := { t.pool with pullRequested := false } }
  | .pull ids => some { t with pulls := t.pulls ++ [ids.filter (!t.pool.waiting.contains ·)] }
  | .handOver k =>
    match t.pulls[k]? with
    | some (id :: rest) =>
      (t.pool.move? (.claim id)).map fun p => ⟨p, t.pulls.set k rest, some k⟩
    | _ => none

/-- The traffic after events in order; `none` if one of them cannot happen. -/
def run? (t : Traffic) (events : List TrafficEvent) : Option Traffic := events.foldlM step? t

variable {s t u : Traffic} {n k : Nat} {id : String} {e : TrafficEvent}
  {events before after : List TrafficEvent}

theorem run?_append (t : Traffic) (before after : List TrafficEvent) :
    t.run? (before ++ after) = (t.run? before).bind (·.run? after) :=
  List.foldlM_append

theorem run?_cons (t : Traffic) (e : TrafficEvent) (after : List TrafficEvent) :
    t.run? (e :: after) = (t.step? e).bind (·.run? after) :=
  rfl

theorem run?_concat (t : Traffic) (before : List TrafficEvent) (e : TrafficEvent) :
    t.run? (before ++ [e]) = (t.run? before).bind (·.step? e) := by
  simp [run?]

theorem step?_handOver (hstep : t.step? (.handOver k) = some u) :
    ∃ id rest p, t.pulls[k]? = some (id :: rest) ∧ t.pool.move? (.claim id) = some p ∧
      u = ⟨p, t.pulls.set k rest, some k⟩ := by
  simp only [step?] at hstep
  split at hstep
  · next id rest hk =>
      obtain ⟨p, hmove, rfl⟩ := Option.map_eq_some_iff.mp hstep
      exact ⟨id, rest, p, hk, hmove, rfl⟩
  · cases hstep

theorem sound_step (ht : t.pool.Sound n) (hstep : t.step? e = some u) : u.pool.Sound n := by
  cases e with
  | move m =>
      obtain ⟨p, hmove, rfl⟩ := Option.map_eq_some_iff.mp hstep
      exact ht.move hmove
  | handOver k =>
      obtain ⟨id, rest, p, -, hmove, rfl⟩ := step?_handOver hstep
      exact ht.move hmove
  | pull ids =>
      cases hstep
      exact ht
  | retryNow id | retryAll | requestPull | heedRequest =>
      cases hstep
      exact ht.note _ _

theorem sound_run (ht : t.pool.Sound n) (hrun : t.run? events = some u) : u.pool.Sound n := by
  induction events generalizing t with
  | nil =>
      cases hrun
      exact ht
  | cons e rest ih =>
      obtain ⟨t', hstep, hrest⟩ := Option.bind_eq_some_iff.mp hrun
      exact ih (sound_step ht hstep) hrest

/-! The calls of a pool and the ticks of its scheduler are such traffic. -/

theorem run?_moves {q : Pool} {moves : List PoolMove} (hrun : t.pool.run? moves = some q) :
    t.run? (moves.map .move) = some { t with pool := q } := by
  induction moves generalizing t with
  | nil =>
      cases hrun
      rfl
  | cons m rest ih =>
      obtain ⟨p, hmove, hrest⟩ := Option.bind_eq_some_iff.mp hrun
      have hnext := ih (t := { t with pool := p }) hrest
      simpa [run?, step?, hmove] using hnext

/-- Events among which nothing is asked for. -/
def Quiet (events : List TrafficEvent) : Prop := ∀ e ∈ events, ∀ id, e.frees id = false

theorem quiet_moves {moves : List PoolMove} (hclaims : ∀ a, PoolMove.claim a ∉ moves) :
    Quiet (moves.map .move) := by
  intro e he id
  obtain ⟨m, hm, rfl⟩ := List.mem_map.mp he
  cases m with
  | claim a => exact absurd hm (hclaims a)
  | _ => rfl

theorem Quiet.cons (he : ∀ id, e.frees id = false) (h : Quiet events) : Quiet (e :: events) := by
  intro e' he' id
  rcases List.mem_cons.mp he' with rfl | he'
  · exact he id
  · exact h e' he' id

theorem Quiet.append (hbefore : Quiet before) (hafter : Quiet after) : Quiet (before ++ after) := by
  intro e he id
  exact (List.mem_append.mp he).elim (fun he => hbefore e he id) fun he => hafter e he id

/-- Some time passes in a pool without a dispatch. -/
structure Idles (p q : Pool) : Prop where
  dispatching : q.dispatching = p.dispatching
  moves : ∃ moves, p.run? moves = some q ∧ ∀ a, PoolMove.claim a ∉ moves

theorem Idles.refl (p : Pool) : Idles p p := ⟨rfl, [], rfl, by simp⟩

theorem Idles.cons {p p' q : Pool} {m : PoolMove} (hkept : p'.dispatching = p.dispatching)
    (hmove : p.move? m = some p') (hm : ∀ a, m ≠ .claim a) (h : Idles p' q) : Idles p q := by
  obtain ⟨hkept', moves, hrun, hclaims⟩ := h
  refine ⟨hkept'.trans hkept, m :: moves, Option.bind_eq_some_iff.mpr ⟨p', hmove, hrun⟩, ?_⟩
  intro a ha
  rcases List.mem_cons.mp ha with heq | ha
  · exact hm a heq.symm
  · exact hclaims a ha

theorem Idles.trans {p q r : Pool} (h : Idles p q) (h' : Idles q r) : Idles p r := by
  obtain ⟨hkept, moves, hrun, hclaims⟩ := h
  obtain ⟨hkept', moves', hrun', hclaims'⟩ := h'
  refine ⟨hkept'.trans hkept, moves ++ moves', ?_, ?_⟩
  · rw [Pool.run?_append, hrun, Option.bind_some, hrun']
  · intro a ha
    exact (List.mem_append.mp ha).elim (hclaims a) (hclaims' a)

theorem ownMove?_ne_claim {p : Pool} {w : Worker} {i : Nat} {m : PoolMove}
    (hm : p.ownMove? w i = some m) (a : String) : m ≠ .claim a := by
  rintro rfl
  unfold Pool.ownMove? at hm
  repeat' split at hm
  all_goals cases hm

theorem move?_ownMove {p q : Pool} {w : Worker} {i : Nat} {m : PoolMove}
    (hw : p.workers[i]? = some w) (hm : p.ownMove? w i = some m) (hmove : p.move? m = some q) :
    p.workerMove? i w m = some q := by
  unfold Pool.ownMove? at hm
  repeat' split at hm
  all_goals cases hm
  all_goals simpa [Pool.move?, hw] using hmove

theorem idles_settleWorker (moves i : Nat) : ∀ p, Idles p (Pool.settleWorker moves i p) := by
  induction moves with
  | zero => exact Idles.refl
  | succ moves ih =>
      intro p
      unfold Pool.settleWorker
      split
      · next q hnext =>
          obtain ⟨w, hw, hnext⟩ := Option.bind_eq_some_iff.mp hnext
          obtain ⟨m, hm, hmove⟩ := Option.bind_eq_some_iff.mp hnext
          obtain ⟨-, -, hkept, -, -⟩ := Pool.workerMove_spec (move?_ownMove hw hm hmove)
          exact (ih q).cons hkept hmove (ownMove?_ne_claim hm)
      · exact Idles.refl p

theorem idles_digestAll (p : Pool) : Idles p p.digestAll := by
  have hall : ∀ (reports : List (String × Bool)) (q : Pool), Idles { q with completions := reports }
      (reports.foldl (fun q r => q.noteCompletion r.1 r.2) { q with completions := [] }) := by
    intro reports
    induction reports with
    | nil => exact fun q => Idles.refl _
    | cons r rest ih =>
        intro q
        obtain ⟨id, later⟩ := r
        have hread : Pool.move? { q with completions := (id, later) :: rest } .digest =
            some { q.noteCompletion id later with completions := rest } := by
          cases later <;> rfl
        have hkept : ({ q.noteCompletion id later with completions := rest } : Pool).dispatching =
            q.dispatching := Pool.noteCompletion_dispatching later
        have hnote : ({ q with completions := [] } : Pool).noteCompletion id later =
            { q.noteCompletion id later with completions := [] } := by
          cases later <;> rfl
        have hrest := ih (q.noteCompletion id later)
        rw [← hnote] at hrest
        exact Idles.cons hkept hread (by simp) hrest
  rw [Pool.digestAll_eq]
  exact hall p.completions p

theorem idles_settle (p : Pool) : Idles p p.settle := by
  have hworkers : ∀ (is : List Nat) (q : Pool),
      Idles q (is.foldl (fun q i => Pool.settleWorker Pool.settleMoves i q) q) := by
    intro is
    induction is with
    | nil => exact Idles.refl
    | cons i rest ih => exact fun q => (idles_settleWorker _ i q).trans (ih _)
  exact (hworkers _ p).trans (idles_digestAll _)

theorem run_dispatch {rest : List String} (hfree : t.pool.dispatching = none)
    (hk : t.pulls[k]? = some (id :: rest)) :
    ∃ moves : List PoolMove, t.run? (.handOver k :: moves.map .move) =
      some ⟨(t.pool.dispatch id).2, t.pulls.set k rest, some k⟩ ∧
      ∀ a, PoolMove.claim a ∉ moves := by
  obtain ⟨moves, hrun, hclaims⟩ := Pool.run_dispatch hfree id
  obtain ⟨p, hmove, hmoves⟩ := Option.bind_eq_some_iff.mp hrun
  have hfirst : t.step? (.handOver k) = some ⟨p, t.pulls.set k rest, some k⟩ := by
    simp only [step?, hk, hmove, Option.map_some]
  refine ⟨moves, ?_, hclaims⟩
  rw [run?_cons, hfirst, Option.bind_some]
  exact run?_moves (t := ⟨p, t.pulls.set k rest, some k⟩) hmoves

theorem run_offerAll {between : Pool → Pool} (hbetween : ∀ q, Idles q (between q))
    (ids : List String) :
    ∀ t : Traffic, t.pool.dispatching = none → t.pulls[k]? = some ids →
      ∃ events u, t.run? events = some u ∧ u.pool = (t.pool.offerAll between ids).2 ∧
        Quiet events := by
  induction ids with
  | nil =>
      intro t _ _
      exact ⟨[], t, rfl, rfl, by simp [Quiet]⟩
  | cons id rest ih =>
      intro t hfree hk
      obtain ⟨moves, hrun, hclaims⟩ := run_dispatch hfree hk
      have hquiet : Quiet (.handOver k :: moves.map .move) := (quiet_moves hclaims).cons fun _ => rfl
      have hfree' : (t.pool.dispatch id).2.dispatching = none := by
        unfold Pool.dispatch
        split
        · exact hfree
        · split <;> exact hfree
      obtain ⟨hkept, others, hothers, hnone⟩ := hbetween (t.pool.dispatch id).2
      have hk' : (t.pulls.set k rest)[k]? = some rest := by
        obtain ⟨hlt, -⟩ := List.getElem?_eq_some_iff.mp hk
        exact List.getElem?_set_self hlt
      obtain ⟨events, u, hu, hpool, hlast⟩ :=
        ih ⟨between (t.pool.dispatch id).2, t.pulls.set k rest, some k⟩ (hkept.trans hfree') hk'
      unfold Pool.offerAll
      split
      · next e p hdispatch =>
          exact ⟨_, _, hrun, by rw [hdispatch], hquiet⟩
      · next p hdispatch =>
          rw [hdispatch] at hrun
          refine ⟨_ ++ [.requestPull], ⟨p.requestPull, t.pulls.set k rest, some k⟩, ?_, rfl,
            hquiet.append ?_⟩
          · rw [run?_append, hrun]
            rfl
          · simp [Quiet, TrafficEvent.frees]
      · next answer p hne hdispatch =>
          rw [hdispatch] at hu hpool hothers hrun
          refine ⟨(.handOver k :: moves.map .move) ++ (others.map .move ++ events), u, ?_, hpool,
            hquiet.append ((quiet_moves hnone).append hlast)⟩
          have hmid := run?_moves (t := ⟨p, t.pulls.set k rest, some k⟩) hothers
          rw [run?_append, hrun, Option.bind_some, run?_append, hmid, Option.bind_some, hu]

/-- A whole pull, whatever the job store answers. -/
theorem run_pull {between : Pool → Pool} (hbetween : ∀ q, Idles q (between q))
    (pending : Nat → Except StoreError (List String)) (hfree : t.pool.dispatching = none) :
    ∃ events u, t.run? events = some u ∧ u.pool = (t.pool.pull pending between).2 ∧
      Quiet events := by
  unfold Pool.pull
  split
  · exact ⟨[.requestPull], _, rfl, rfl, by simp [Quiet, TrafficEvent.frees]⟩
  · split
    · exact ⟨[], t, rfl, rfl, by simp [Quiet]⟩
    · next ids _ =>
        obtain ⟨v, hv, hpool, hlast⟩ : ∃ v, t.step? (.pull ids) = some v ∧ v.pool = t.pool ∧
            v.pulls[t.pulls.length]? = some (ids.filter (!t.pool.waiting.contains ·)) := by
          refine ⟨_, rfl, rfl, ?_⟩
          simp
        rw [← hpool] at hfree hlast ⊢
        obtain ⟨events, u, hrun, hu, hquiet⟩ := run_offerAll hbetween _ v hfree hlast
        refine ⟨.pull ids :: events, u, ?_, hu, hquiet.cons fun _ => rfl⟩
        rw [run?_cons, hv, Option.bind_some, hrun]

theorem run_idleTick {between : Pool → Pool} (hbetween : ∀ q, Idles q (between q))
    (pending : Nat → Except StoreError (List String)) (hfree : t.pool.dispatching = none) :
    ∃ events u, t.run? events = some u ∧ u.pool = t.pool.idleTick pending between ∧
      Quiet events := by
  unfold Pool.idleTick
  split
  · obtain ⟨events, u, hrun, hu, hquiet⟩ :=
      run_pull (t := { t with pool := { t.pool with pullRequested := false } }) hbetween pending hfree
    exact ⟨.heedRequest :: events, u, hrun, hu, hquiet.cons fun _ => rfl⟩
  · exact ⟨[], t, rfl, rfl, by simp [Quiet]⟩

theorem run_pollTick {between : Pool → Pool} (hbetween : ∀ q, Idles q (between q))
    (pending : Nat → Except StoreError (List String)) (hfree : t.pool.dispatching = none) :
    ∃ events u, t.run? (.retryAll :: events) = some u ∧
      u.pool = t.pool.pollTick pending between ∧ Quiet events := by
  obtain ⟨events, u, hrun, hu, hquiet⟩ :=
    run_pull (t := { t with pool := t.pool.retryAll }) hbetween pending hfree
  exact ⟨events, u, hrun, hu, hquiet⟩

/-! What becomes of a document whose handling has failed. -/

/-- A pull that had a document before it at the outset, or that began when the report that the
document is to wait was not yet read.  A good report of an earlier handling may come late. -/
def PulledEarly (t : Traffic) (events : List TrafficEvent) (id : String) (k : Nat) : Prop :=
  (∃ rest, t.pulls[k]? = some rest ∧ id ∈ rest) ∨
  ∃ before ids after u, events = before ++ .pull ids :: after ∧ t.run? before = some u ∧
    u.pulls.length = k ∧ id ∈ ids ∧ id ∉ u.pool.waiting ∧
    ((id, false) ∈ t.pool.owed ∨ u.pool.Unread id true)

theorem PulledEarly.append (h : t.PulledEarly before id k) (after : List TrafficEvent) :
    t.PulledEarly (before ++ after) id k := by
  refine h.imp_right ?_
  rintro ⟨first, ids, rest, u, rfl, hu⟩
  exact ⟨first, ids, rest ++ after, u, by simp, hu⟩

/-- What holds of a document after events, as long as it does not get back to the workers. -/
structure Awaits (t : Traffic) (events : List TrafficEvent) (id : String) (u : Traffic) : Prop where
  shelved : u.pool.Shelved ((id, false) ∈ t.pool.owed) id
  early : ∀ k rest, u.pulls[k]? = some rest → id ∈ rest → t.PulledEarly events id k
  asked : ∀ seen, u.pool.dispatching = some (.looking id seen) →
    ∃ k, u.lastPull = some k ∧ t.PulledEarly events id k

/-- The dispatch that brings a document back to the workers is that of an early pull. -/
def Returns (t : Traffic) (events : List TrafficEvent) (id : String) : Prop :=
  ∃ before after u seen target k, events = before ++ .move .send :: after ∧
    t.run? before = some u ∧ u.pool.dispatching = some (.looking id seen) ∧
    u.pool.place seen = .ok target ∧ u.lastPull = some k ∧ t.PulledEarly before id k

theorem Awaits.append (hu : t.Awaits before id u) (after : List TrafficEvent) :
    t.Awaits (before ++ after) id u := by
  refine ⟨hu.shelved, fun k rest hk hid => (hu.early k rest hk hid).append after, ?_⟩
  intro seen hlooking
  obtain ⟨k, hk, hpulled⟩ := hu.asked seen hlooking
  exact ⟨k, hk, hpulled.append after⟩

/-- A pull hands over what it had before, so it asks for the document only if it had it. -/
theorem Awaits.handOver (hu : t.Awaits events id u) (hstep : u.step? (.handOver k) = some s) :
    t.Awaits events id s := by
  obtain ⟨a, rest, p, hk, hmove, rfl⟩ := step?_handOver hstep
  have hmoved := Pool.moved_of_move hmove
  refine ⟨(hu.shelved.moved hmoved).resolve_right (by simp), ?_, ?_⟩
  · intro j rest' hj hid
    by_cases hjk : k = j
    · subst hjk
      rw [List.getElem?_set_self', hk] at hj
      cases hj
      exact hu.early k _ hk (List.mem_cons_of_mem _ hid)
    · rw [List.getElem?_set_ne hjk] at hj
      exact hu.early j rest' hj hid
  · intro seen hlooking
    refine ⟨k, rfl, ?_⟩
    rcases hmoved.looking hlooking with heq | ⟨seen', hold⟩
    · cases heq
      exact hu.early k _ hk List.mem_cons_self
    · -- Nobody else can hand a document over while a dispatch is under way.
      simp [Pool.move?, hold] at hmove

/-- A document that does not wait when a pull begins has its report still unread, so the pull is
early if it finds the document. -/
theorem Awaits.pull {ids : List String} (hu : t.Awaits events id u)
    (hrun : t.run? events = some u) (hstep : u.step? (.pull ids) = some s) :
    t.Awaits (events ++ [.pull ids]) id s := by
  cases hstep
  have hold := hu.append [.pull ids]
  refine ⟨hold.shelved, ?_, hold.asked⟩
  intro k rest hk hid
  by_cases hlt : k < u.pulls.length
  · rw [List.getElem?_append_left hlt] at hk
    exact hold.early k rest hk hid
  · rw [List.getElem?_append_right (Nat.le_of_not_lt hlt)] at hk
    obtain ⟨hlength, rfl⟩ := List.getElem?_eq_some_iff.mp hk
    have hnew : id ∈ ids ∧ id ∉ u.pool.waiting := by simpa using hid
    have hlast : u.pulls.length = k := by
      simp only [List.length_singleton] at hlength
      omega
    exact .inr ⟨events, ids, [], u, rfl, hrun, hlast, hnew.1, hnew.2, hu.shelved.unread hnew.2⟩

theorem Awaits.step (hu : t.Awaits events id u) (hrun : t.run? events = some u)
    (hstep : u.step? e = some s) (hquiet : e.frees id = false) :
    t.Awaits (events ++ [e]) id s ∨ t.Returns (events ++ [e]) id := by
  have hold := hu.append [e]
  cases e with
  | move m =>
      obtain ⟨p, hmove, rfl⟩ := Option.map_eq_some_iff.mp hstep
      have hmoved := Pool.moved_of_move hmove
      rcases hu.shelved.moved hmoved with hshelved | ⟨rfl, seen, target, hlooking, hplace⟩
      · refine .inl ⟨hshelved, hold.early, fun seen hlooking => ?_⟩
        rcases hmoved.looking hlooking with rfl | ⟨seen', hbefore⟩
        · simp [TrafficEvent.frees] at hquiet
        · exact hold.asked seen' hbefore
      · obtain ⟨k, hk, hpulled⟩ := hu.asked seen hlooking
        exact .inr ⟨events, [], u, seen, target, k, rfl, hrun, hlooking, hplace, hk, hpulled⟩
  | handOver k => exact .inl (hold.handOver hstep)
  | pull ids => exact .inl (hu.pull hrun hstep)
  | retryNow a =>
      cases hstep
      have hne : id ≠ a := by
        rintro rfl
        simp [TrafficEvent.frees] at hquiet
      refine .inl ⟨hold.shelved.note (fun hid => ?_) _, hold.early, hold.asked⟩
      exact (Pool.mem_withoutId _ _ _).mpr ⟨hid, hne⟩
  | retryAll => simp [TrafficEvent.frees] at hquiet
  | requestPull | heedRequest =>
      cases hstep
      exact .inl ⟨hold.shelved.note (fun hid => hid) _, hold.early, hold.asked⟩

theorem Returns.append (h : t.Returns before id) (after : List TrafficEvent) :
    t.Returns (before ++ after) id := by
  obtain ⟨first, rest, u, seen, target, k, rfl, hu⟩ := h
  exact ⟨first, rest ++ after, u, seen, target, k, by simp, hu⟩

theorem Awaits.run (ht : t.Awaits [] id t) (hrun : t.run? events = some u)
    (hquiet : ∀ e ∈ events, e.frees id = false) :
    t.Awaits events id u ∨ t.Returns events id := by
  -- By the last event, since an early pull is told by where it began in the run up to now.
  induction events using List.reverseRecOn generalizing u with
  | nil =>
      cases hrun
      exact .inl ht
  | append_singleton events e ih =>
      rw [run?_concat] at hrun
      obtain ⟨v, hv, hstep⟩ := Option.bind_eq_some_iff.mp hrun
      rcases ih hv fun e' he' => hquiet e' (List.mem_append_left _ he') with hawaits | hreturns
      · exact hawaits.step hv hstep (hquiet e (by simp))
      · exact .inr (hreturns.append [e])

/-- At the end of a failed handling nobody has the document, and the worker owes the report. -/
theorem awaits_finish {i : Nat} {w : Worker} (hs : s.pool.Sound n)
    (hw : s.pool.workers[i]? = some w) (hphase : w.phase = .busy id)
    (hend : s.step? (.move (.finish i true)) = some t) : t.Awaits [] id t := by
  obtain ⟨p, hmove, rfl⟩ := Option.map_eq_some_iff.mp hend
  obtain ⟨hidle, hunlooked, howed⟩ := hs.finished hw hphase hmove
  refine ⟨⟨hidle, fun hgood => hgood, .inr (.inl howed)⟩, ?_, ?_⟩
  · exact fun k rest hk hid => .inl ⟨rest, hk, hid⟩
  · exact fun seen hlooking => absurd hlooking (hunlooked seen)

/-- Whatever is handed over and not claimed gets to the workers if there is room. -/
theorem handOver_toHandle {rest : List String} (ht : t.pool.Live n)
    (hroom : t.pool.queueFull = false) (hid : id ∉ t.pool.claims)
    (hk : t.pulls[k]? = some (id :: rest)) :
    ∃ events u, t.run? (.handOver k :: events) = some u ∧ Quiet events ∧
      id ∈ u.pool.toHandle := by
  obtain ⟨moves, hrun, hclaims⟩ := run_dispatch ht.ready.free hk
  obtain ⟨i, w, hplace⟩ := Pool.place_of_room ht.whole hroom
  obtain ⟨hw, -, -⟩ := Pool.place_ok hplace
  have hsent : { w with queue := w.queue ++ [id] } ∈ (t.pool.dispatch id).2.workers := by
    simp only [Pool.dispatch, List.contains_eq_mem, hid, decide_false, hplace]
    exact Pool.mem_set_self hw
  exact ⟨_, _, hrun, quiet_moves hclaims, Pool.mem_toHandle.mpr ⟨_, hsent, by simp⟩⟩

/-- A document whose handling has failed gets back to the workers before the next poll, if it is
not asked for, only through a pull that had it before it already or that began while the report of
the failure was unread, or a good one late; and through such a pull it does whenever its claim is
released and there is room. -/
theorem failed_returns_by_early_pull {workers capacity batch i : Nat} {past : List TrafficEvent}
    {w : Worker} {h : Handled} (hpast : (opening workers capacity batch).run? past = some s)
    (hw : s.pool.workers[i]? = some w) (hphase : w.phase = .busy id)
    (hfailed : h ≠ .outcome .completed)
    (hend : s.step? (.move (.finish i h.retryLater)) = some t) (hrun : t.run? events = some u)
    (hquiet : ∀ e ∈ events, e.frees id = false) :
    (id ∈ u.pool.toHandle → t.Returns events id) ∧
    (u.pool.Ready → u.pool.queueFull = false → id ∉ u.pool.claims →
      (id ∉ u.pool.waiting → ∃ k more v, u.run? (.pull [id] :: .handOver k :: more) = some v ∧
        Quiet more ∧ id ∈ v.pool.toHandle) ∧
      ∀ k rest, u.pulls[k]? = some (id :: rest) →
        ∃ more v, u.run? (.handOver k :: more) = some v ∧ Quiet more ∧ id ∈ v.pool.toHandle) := by
  have hlater : h.retryLater = true := by
    cases h with
    | outcome o =>
        cases o with
        | completed => exact absurd rfl hfailed
        | deferred => rfl
    | failed | panicked => rfl
  rw [hlater] at hend
  have hs := sound_run (Pool.sound_start workers capacity batch) hpast
  constructor
  · intro hid
    rcases (awaits_finish hs hw hphase hend).run hrun hquiet with hawaits | hreturns
    · exact absurd hid hawaits.shelved.idle
    · exact hreturns
  · intro hready hroom hclaims
    have hlive : u.pool.Live (max capacity 1) := ⟨sound_run (sound_step hs hend) hrun, hready⟩
    refine ⟨fun hwaiting => ?_, fun k rest hk => handOver_toHandle hlive hroom hclaims hk⟩
    obtain ⟨v, hv, hpool, hlast⟩ : ∃ v, u.step? (.pull [id]) = some v ∧ v.pool = u.pool ∧
        v.pulls[u.pulls.length]? = some [id] := by
      refine ⟨_, rfl, rfl, ?_⟩
      simp [hwaiting]
    rw [← hpool] at hlive hroom hclaims
    obtain ⟨more, v', hrun', hmore, hid⟩ := handOver_toHandle hlive hroom hclaims hlast
    refine ⟨u.pulls.length, more, v', ?_, hmore, hid⟩
    rw [run?_cons, hv, Option.bind_some, hrun']

/-- A worker at the document of a pull. -/
def handling : Traffic where
  pool := { Pool.start 1 1 1 with workers := [⟨[], .busy "d"⟩], claims := ["d"] }
  pulls := [[]]
  lastPull := some 0

/-- The worker has handled the document. -/
def handled : Traffic :=
  { handling with pool := { handling.pool with workers := [⟨[], .leaving "d" true⟩] } }

/-- A pull begins when the claim is released, and ends before the report is sent. -/
def pullBeforeReport : List TrafficEvent :=
  [.move (.release 0), .pull ["d"], .handOver 1, .move .look, .move .send, .move .record,
    .move (.report 0), .move (.check 0), .move (.take 0), .move (.present 0)]

theorem run_handling : (opening 1 1 1).run? [.pull ["d"], .handOver 0, .move .look, .move .send,
    .move .record, .move (.check 0), .move (.take 0), .move (.present 0)] = some handling := by
  decide

/-- A document is handled again right after its handling has failed: nobody asks for it, and there
is no poll. -/
theorem pulled_before_report :
    (∃ past, (opening 1 1 1).run? past = some handling) ∧
    handling.pool.workers[0]? = some ⟨[], .busy "d"⟩ ∧
    handling.step? (.move (.finish 0 (Handled.failed "x").retryLater)) = some handled ∧
    (∀ e ∈ pullBeforeReport, e.frees "d" = false) ∧
    ∃ t, handled.run? pullBeforeReport = some t ∧
      t.pool.workers[0]? = some ⟨[], .busy "d"⟩ := by
  exact ⟨⟨_, run_handling⟩, by decide, by decide, by decide, _, rfl, by decide⟩

/-- The pull that brings it back began while the report was unread. -/
theorem failed_returns_by_early_pull_unread : ∃ t, handled.run? pullBeforeReport = some t ∧
    handled.Returns pullBeforeReport "d" := by
  obtain ⟨t, hrun, hid⟩ : ∃ t, handled.run? pullBeforeReport = some t ∧ "d" ∈ t.pool.toHandle :=
    ⟨_, rfl, by decide⟩
  have hworker : handling.pool.workers[0]? = some ⟨[], .busy "d"⟩ := by decide
  have hend : handling.step? (.move (.finish 0 (Handled.failed "x").retryLater)) = some handled := by
    decide
  have hquiet : ∀ e ∈ pullBeforeReport, e.frees "d" = false := by decide
  have hreturns := failed_returns_by_early_pull run_handling hworker rfl (by decide) hend hrun hquiet
  exact ⟨t, hrun, hreturns.1 hid⟩

end Traffic

end Docket
