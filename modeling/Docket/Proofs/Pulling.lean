import Mathlib.Algebra.Group.Nat.Defs
import Mathlib.Data.List.Perm.Subperm
import Mathlib.Logic.Function.Iterate
import Docket.Proofs.Exclusion
import Docket.Store.Jobs

/-!
What a pull makes of free capacity.  A pull passes over the documents that wait to be tried
again and asks for as many more, but it does not reckon with those that are claimed: these
come first among the documents with waiting steps, and may fill all of what is asked for.
-/

namespace Docket

/-! The lightest load. -/

theorem lightest?_cons_of_full {l : WorkerLoad} (hfull : l.isFull = true) (start : Nat)
    (rest : List WorkerLoad) : lightest? start (l :: rest) = lightest? (start + 1) rest := by
  simp [lightest?, hfull]

/-- Where a load has room, it is chosen itself or one behind it. -/
theorem lightest?_cons_of_room {l : WorkerLoad} (hroom : ¬ l.isFull = true) (start : Nat)
    (rest : List WorkerLoad) :
    lightest? start (l :: rest) = some (start, l) ∨
      (∃ found, lightest? start (l :: rest) = some found ∧
        lightest? (start + 1) rest = some found) := by
  cases hlater : lightest? (start + 1) rest with
  | none => simp [lightest?, hroom, hlater]
  | some found =>
      by_cases hlighter : found.2.isLighter l = true <;>
        simp [lightest?, hroom, hlater, hlighter]

theorem lightest?_eq_none {loads : List WorkerLoad} {start : Nat} :
    lightest? start loads = none ↔ ∀ l ∈ loads, l.isFull = true := by
  induction loads generalizing start with
  | nil => simp [lightest?]
  | cons l rest ih =>
      by_cases hfull : l.isFull = true
      · rw [lightest?_cons_of_full hfull, ih]
        simp [hfull]
      · rcases lightest?_cons_of_room hfull start rest with h | ⟨found, h, -⟩ <;>
          simp [h, hfull]

theorem lightest?_eq_some {loads : List WorkerLoad} {start j : Nat} {m : WorkerLoad}
    (h : lightest? start loads = some (j, m)) :
    ∃ k, j = start + k ∧ loads[k]? = some m ∧ m.isFull = false := by
  induction loads generalizing start with
  | nil => cases h
  | cons l rest ih =>
      have hlater : lightest? (start + 1) rest = some (j, m) →
          ∃ k, j = start + k ∧ (l :: rest)[k]? = some m ∧ m.isFull = false := by
        intro h
        obtain ⟨k, rfl, hget, hroom⟩ := ih h
        exact ⟨k + 1, by omega, hget, hroom⟩
      by_cases hfull : l.isFull = true
      · exact hlater (lightest?_cons_of_full hfull start rest ▸ h)
      · rcases lightest?_cons_of_room hfull start rest with hown | ⟨found, hfound, hrest⟩
        · cases hown.symm.trans h
          exact ⟨0, rfl, rfl, by simpa using hfull⟩
        · exact hlater (hrest.trans (hfound.symm.trans h))

namespace Pool

variable {p q : Pool} {n : Nat} {id : String} {between : Pool → Pool}

/-! A dispatch with nothing in between. -/

theorem mem_loads {l : WorkerLoad} : l ∈ p.loads ↔ ∃ w ∈ p.workers, p.loadOf w = l :=
  List.mem_map

theorem place_of_queueFull (hfull : p.queueFull = true) :
    p.place p.loads = .error (.ok .deferred) := by
  have hnone : lightest? 0 p.loads = none := by
    apply lightest?_eq_none.mpr
    intro l hl
    obtain ⟨w, hw, rfl⟩ := mem_loads.mp hl
    exact List.all_eq_true.mp hfull w hw
  simp [place, leastBusy?, hnone]

/-- While no worker has ended, there is a place if some queue has room. -/
theorem place_of_room (hwhole : p.Whole) (hroom : p.queueFull = false) :
    ∃ i w, p.place p.loads = .ok (i, w) := by
  cases hlightest : lightest? 0 p.loads with
  | none =>
      have hfull : p.queueFull = true := by
        apply List.all_eq_true.mpr
        intro w hw
        exact lightest?_eq_none.mp hlightest _ (mem_loads.mpr ⟨w, hw, rfl⟩)
      exact absurd (hroom.symm.trans hfull) (by simp)
  | some found =>
      obtain ⟨i, l⟩ := found
      obtain ⟨k, hik, hget, hfits⟩ := lightest?_eq_some hlightest
      obtain rfl : i = k := by omega
      obtain ⟨w, hw, rfl⟩ : ∃ w, p.workers[i]? = some w ∧ p.loadOf w = l := by
        simpa [loads] using hget
      have hplace : ¬ p.capacity ≤ w.queue.length := of_decide_eq_false hfits
      refine ⟨i, w, ?_⟩
      simp [place, leastBusy?, hlightest, hw, hwhole w (List.mem_of_getElem? hw), hplace]

theorem dispatch_of_mem (hid : id ∈ p.claims) : p.dispatch id = (.ok .alreadyQueued, p) := by
  simp [dispatch, hid]

theorem dispatch_of_queueFull (hid : id ∉ p.claims) (hfull : p.queueFull = true) :
    p.dispatch id = (.ok .deferred, p) := by
  simp [dispatch, hid, place_of_queueFull hfull]

theorem dispatch_of_room (hid : id ∉ p.claims) (hwhole : p.Whole) (hroom : p.queueFull = false) :
    ∃ i w, p.dispatch id =
      (.ok (.queued i), { p.enqueue i w id with claims := withId p.claims id }) := by
  obtain ⟨i, w, hplace⟩ := place_of_room hwhole hroom
  exact ⟨i, w, by simp [dispatch, hid, hplace]⟩

/-! What becomes of a pool in the course of time. -/

/-- A pool after some time: its threads have moved, and it was noted which documents to pass
over and whether to pull. -/
inductive Reaches (p : Pool) : Pool → Prop
  | refl : Reaches p p
  | move {q q' : Pool} (m : PoolMove) : Reaches p q → q.move? m = some q' → Reaches p q'
  | retryNow {q : Pool} (id : String) : Reaches p q → Reaches p (q.retryNow id)
  | retryAll {q : Pool} : Reaches p q → Reaches p q.retryAll
  | requestPull {q : Pool} : Reaches p q → Reaches p q.requestPull
  | heedRequest {q : Pool} : Reaches p q → Reaches p { q with pullRequested := false }

/-- A pool that was not told to stop, while nobody holds the lock on the claims. -/
structure Ready (p : Pool) : Prop where
  goes : p.stopping = false
  free : p.dispatching = none

/-- What others may do between two dispatches of a pull. -/
def Meanwhile (between : Pool → Pool) : Prop :=
  ∀ q : Pool, q.Ready → q.Reaches (between q) ∧ (between q).Ready

/-- Others who claim nothing and leave room where there is room. -/
def Frees (between : Pool → Pool) : Prop :=
  ∀ q : Pool, q.Ready → (∀ id ∈ (between q).claims, id ∈ q.claims) ∧
    (q.queueFull = false → (between q).queueFull = false)

/-- What a pool is made with. -/
structure SameMake (p q : Pool) : Prop where
  workers : q.workers.length = p.workers.length
  batchSize : q.batchSize = p.batchSize

theorem SameMake.trans {r : Pool} (h : p.SameMake q) (h' : q.SameMake r) : p.SameMake r :=
  ⟨h'.workers.trans h.workers, h'.batchSize.trans h.batchSize⟩

theorem sameMake_setWorker (i : Nat) (w : Worker) : p.SameMake (p.setWorker i w) :=
  ⟨by simp [setWorker], rfl⟩

/-- A worker adds nothing to its queue, and leaves alone the locks and what the pool is made with. -/
theorem workerMove_eq {i : Nat} {w : Worker} {m : PoolMove}
    (hmove : p.workerMove? i w m = some q) :
    ∃ w' claims completions,
      q = { p.setWorker i w' with claims := claims, completions := completions } ∧
        w'.queue <:+ w.queue := by
  cases m with
  | check k =>
      cases hphase : w.phase <;> simp only [workerMove?, hphase] at hmove <;> cases hmove
      refine ⟨_, p.claims, p.completions, rfl, ?_⟩
      split
      · exact List.nil_suffix
      · exact List.suffix_rfl
  | take k =>
      cases hphase : w.phase <;> cases hqueue : w.queue <;>
        simp only [workerMove?, hphase, hqueue] at hmove <;> cases hmove
      exact ⟨_, p.claims, p.completions, rfl, List.suffix_cons _ _⟩
  | present k =>
      cases hphase : w.phase <;> simp only [workerMove?, hphase] at hmove <;> cases hmove
      exact ⟨_, p.claims, p.completions, rfl, List.suffix_rfl⟩
  | quit k =>
      cases hphase : w.phase <;> simp only [workerMove?, hphase] at hmove <;> try cases hmove
      cases hstop : p.stopping <;> simp [hstop] at hmove
      subst hmove
      exact ⟨_, p.claims, p.completions, rfl, List.nil_suffix⟩
  | finish k later =>
      cases hphase : w.phase <;> simp only [workerMove?, hphase] at hmove <;> cases hmove
      exact ⟨_, p.claims, p.completions, rfl, List.suffix_rfl⟩
  | release k =>
      cases hphase : w.phase <;> cases hfree : p.dispatching <;>
        simp only [workerMove?, hphase, hfree] at hmove <;> cases hmove
      exact ⟨_, _, p.completions, rfl, List.suffix_rfl⟩
  | report k =>
      cases hphase : w.phase <;> simp only [workerMove?, hphase] at hmove <;> cases hmove
      exact ⟨_, p.claims, _, rfl, List.suffix_rfl⟩
  | claim | look | send | record | digest | askStop => cases hmove

theorem sameMake_workerMove {i : Nat} {w : Worker} {m : PoolMove}
    (hmove : p.workerMove? i w m = some q) : p.SameMake q := by
  obtain ⟨w', claims, completions, rfl, -⟩ := workerMove_eq hmove
  exact ⟨(sameMake_setWorker i w').workers, rfl⟩

theorem sameMake_move {m : PoolMove} (hmove : p.move? m = some q) : p.SameMake q := by
  cases m with
  | claim id =>
      cases hfree : p.dispatching <;> simp only [move?, hfree] at hmove <;> cases hmove
      split <;> exact ⟨rfl, rfl⟩
  | look =>
      simp only [move?] at hmove
      split at hmove
      · obtain ⟨w, -, rfl⟩ := Option.map_eq_some_iff.mp hmove
        exact ⟨rfl, rfl⟩
      · cases hmove
  | send =>
      simp only [move?] at hmove
      split at hmove
      · split at hmove
        · cases hmove
        · split at hmove
          · cases hmove
            exact ⟨rfl, rfl⟩
          · cases hmove
            exact ⟨(sameMake_setWorker _ _).workers, rfl⟩
      · cases hmove
  | record =>
      simp only [move?] at hmove
      split at hmove
      · cases hmove
        exact ⟨rfl, rfl⟩
      · cases hmove
  | digest =>
      simp only [move?] at hmove
      split at hmove
      · next id later rest _ =>
          cases hmove
          cases later <;> exact ⟨rfl, rfl⟩
      · cases hmove
  | askStop =>
      cases hmove
      exact ⟨rfl, rfl⟩
  | check k | take k | present k | finish k later | release k | report k | quit k =>
      obtain ⟨w, hw, hmove⟩ := Option.bind_eq_some_iff.mp hmove
      exact sameMake_workerMove hmove

theorem Sound.note (hp : p.Sound n) (waiting : List String) (pullRequested : Bool) :
    ({ p with waiting := waiting, pullRequested := pullRequested } : Pool).Sound n :=
  ⟨hp.nodup, hp.pledged_of_held, hp.held_of_pledged, hp.unclaimed, hp.room, hp.whole, hp.size⟩

theorem Sound.reaches (hp : p.Sound n) (hreaches : p.Reaches q) : q.Sound n := by
  induction hreaches with
  | refl => exact hp
  | move m _ hmove ih => exact ih.move hmove
  | retryNow _ _ ih | retryAll _ ih | requestPull _ ih | heedRequest _ ih => exact ih.note _ _

theorem Reaches.run {p' : Pool} {moves : List PoolMove} (hreaches : p.Reaches p')
    (hrun : p'.run? moves = some q) : p.Reaches q := by
  induction moves generalizing p' with
  | nil =>
      cases hrun
      exact hreaches
  | cons m rest ih =>
      obtain ⟨next, hmove, hrest⟩ := Option.bind_eq_some_iff.mp hrun
      exact ih (hreaches.move m hmove) hrest

theorem Reaches.sameMake (hreaches : p.Reaches q) : p.SameMake q := by
  induction hreaches with
  | refl => exact ⟨rfl, rfl⟩
  | move m _ hmove ih => exact ih.trans (sameMake_move hmove)
  | retryNow _ _ ih | retryAll _ ih | requestPull _ ih | heedRequest _ ih =>
      exact ⟨ih.workers, ih.batchSize⟩

/-- A pool in which a pull can go on. -/
structure Live (n : Nat) (p : Pool) : Prop where
  sound : p.Sound n
  ready : p.Ready

theorem Live.whole (hp : p.Live n) : p.Whole := hp.sound.whole hp.ready.goes

theorem Live.meanwhile (hp : p.Live n) (hbetween : Meanwhile between) : (between p).Live n := by
  obtain ⟨hreaches, hready⟩ := hbetween p hp.ready
  exact ⟨hp.sound.reaches hreaches, hready⟩

theorem Live.dispatch (hp : p.Live n) (id : String) : (p.dispatch id).2.Live n := by
  obtain ⟨moves, hrun, -⟩ := run_dispatch hp.ready.free id
  refine ⟨hp.sound.run hrun, ?_⟩
  unfold Pool.dispatch
  split
  · exact hp.ready
  · split
    · exact hp.ready
    · exact ⟨hp.ready.goes, hp.ready.free⟩

theorem live_of_reaches {workers capacity batch : Nat}
    (hreached : (start workers capacity batch).Reaches p) (hready : p.Ready) :
    p.Live (max capacity 1) :=
  ⟨(sound_start workers capacity batch).reaches hreached, hready⟩

/-! What a pull offers. -/

/-- Some document that is offered is not claimed when its turn comes, and a queue has room
then; those offered before it were all claimed at their turns. -/
def FindsRoom (between : Pool → Pool) (p : Pool) (offered : List String) : Prop :=
  ∃ before id after, offered = before ++ id :: after ∧
    (∀ j a, before[j]? = some a → a ∈ (between^[j] p).claims) ∧
    id ∉ (between^[before.length] p).claims ∧ (between^[before.length] p).queueFull = false

theorem not_findsRoom_nil : ¬ FindsRoom between p [] := by
  rintro ⟨before, id, after, h, -⟩
  simp at h

/-- A document that is claimed leaves the room to those behind it. -/
theorem findsRoom_cons_of_mem {rest : List String} (hid : id ∈ p.claims) :
    FindsRoom between p (id :: rest) ↔ FindsRoom between (between p) rest := by
  constructor
  · rintro ⟨before, a, after, hsplit, hbefore, ha, hroom⟩
    cases before with
    | nil =>
        obtain ⟨rfl, rfl⟩ := List.cons_eq_cons.mp hsplit
        exact absurd hid ha
    | cons b before =>
        obtain ⟨rfl, rfl⟩ := List.cons_eq_cons.mp hsplit
        exact ⟨before, a, after, rfl, fun j c hc => hbefore (j + 1) c hc, ha, hroom⟩
  · rintro ⟨before, a, after, rfl, hbefore, ha, hroom⟩
    refine ⟨id :: before, a, after, rfl, ?_, ha, hroom⟩
    intro j c hc
    cases j with
    | zero =>
        obtain rfl : id = c := by simpa using hc
        exact hid
    | succ j => exact hbefore j c hc

/-- A document that is not claimed takes the room if there is any. -/
theorem findsRoom_cons_of_not_mem {rest : List String} (hid : id ∉ p.claims) :
    FindsRoom between p (id :: rest) ↔ p.queueFull = false := by
  constructor
  · rintro ⟨before, a, after, hsplit, hbefore, ha, hroom⟩
    cases before with
    | nil => exact hroom
    | cons b before =>
        obtain ⟨rfl, rfl⟩ := List.cons_eq_cons.mp hsplit
        exact absurd (hbefore 0 id rfl) hid
  · exact fun hroom => ⟨[], id, rest, rfl, by simp, hid, hroom⟩

/-- Offering documents to a pool that goes on never fails, and something is queued exactly
if one of them finds room. -/
theorem offerAll_queues (hbetween : Meanwhile between) (ids : List String) :
    ∀ p : Pool, p.Live n → ∃ queued, (offerAll between p ids).1.1 = .ok queued ∧
      (0 < queued ↔ FindsRoom between p ids) := by
  induction ids with
  | nil =>
      intro p _
      exact ⟨0, rfl, iff_of_false (Nat.lt_irrefl 0) not_findsRoom_nil⟩
  | cons id rest ih =>
      intro p hp
      obtain ⟨later, hlater, hfinds⟩ := ih _ ((hp.dispatch id).meanwhile hbetween)
      unfold offerAll
      by_cases hid : id ∈ p.claims
      · rw [dispatch_of_mem hid] at hlater hfinds ⊢
        refine ⟨later, by simp [hlater, Except.map], ?_⟩
        rw [hfinds, findsRoom_cons_of_mem hid]
      · rw [findsRoom_cons_of_not_mem hid]
        by_cases hfull : p.queueFull = true
        · rw [dispatch_of_queueFull hid hfull]
          exact ⟨0, rfl, by simp [hfull]⟩
        · rw [Bool.not_eq_true] at hfull
          obtain ⟨i, w, hdispatch⟩ := dispatch_of_room hid hp.whole hfull
          rw [hdispatch] at hlater ⊢
          refine ⟨1 + later, by simp [hlater, Except.map], ?_⟩
          exact iff_of_true (by omega) hfull

/-- While others only make room, the first offered document that is not claimed finds some. -/
theorem findsRoom_of_not_mem (hbetween : Meanwhile between) (hfrees : Frees between)
    {ids : List String} : ∀ p : Pool, p.Ready → p.queueFull = false →
      (∃ id ∈ ids, id ∉ p.claims) → FindsRoom between p ids := by
  induction ids with
  | nil =>
      rintro p - - ⟨id, hid, -⟩
      cases hid
  | cons a rest ih =>
      rintro p hready hroom ⟨id, hmem, hid⟩
      by_cases ha : a ∈ p.claims
      · apply (findsRoom_cons_of_mem ha).mpr
        obtain ⟨hkept, hfree⟩ := hfrees p hready
        apply ih _ (hbetween p hready).2 (hfree hroom)
        rcases List.mem_cons.mp hmem with rfl | hmem
        · exact absurd ha hid
        · exact ⟨id, hmem, fun h => hid (hkept id h)⟩
      · exact (findsRoom_cons_of_not_mem ha).mpr hroom

/-- While nobody else moves, only a document that is not claimed finds room. -/
theorem exists_of_findsRoom {ids : List String} (halone : ∀ q, between q = q)
    (h : FindsRoom between p ids) : ∃ id ∈ ids, id ∉ p.claims := by
  obtain ⟨before, id, after, rfl, -, hid, -⟩ := h
  rw [Function.iterate_fixed (halone p)] at hid
  exact ⟨id, by simp, hid⟩

/-! How many documents a pool can hold. -/

theorem length_held_worker (w : Worker) : w.held.length ≤ w.queue.length + 1 := by
  unfold Worker.held
  rw [List.length_append]
  cases w.phase <;> simp [WorkerPhase.held]

theorem length_flatMap_held {ws : List Worker} (hroom : ∀ w ∈ ws, w.queue.length ≤ n) :
    (ws.flatMap Worker.held).length ≤ ws.length * (n + 1) := by
  induction ws with
  | nil => simp
  | cons w rest ih =>
      have hrest := ih fun v hv => hroom v (List.mem_cons_of_mem w hv)
      have hone := length_held_worker w
      have hqueue := hroom w List.mem_cons_self
      rw [List.flatMap_cons, List.length_append, List.length_cons, Nat.succ_mul]
      omega

/-- A pool with room holds less than fits into it. -/
theorem Sound.length_held_lt (hp : p.Sound n) (hfree : p.queueFull = false) :
    p.held.length < p.workers.length * (n + 1) := by
  have hroom : ∀ w ∈ p.workers, w.queue.length ≤ n := hp.size ▸ hp.room
  obtain ⟨w, hw, hshort⟩ := List.all_eq_false.mp hfree
  have hshort : w.queue.length < n := by
    rw [← hp.size]
    simpa using hshort
  obtain ⟨before, after, hsplit⟩ := List.append_of_mem hw
  rw [hsplit] at hroom
  have hbefore := length_flatMap_held fun v hv => hroom v (List.mem_append_left _ hv)
  have hafter := length_flatMap_held fun v hv =>
    hroom v (List.mem_append_right before (List.mem_cons_of_mem w hv))
  have hone := length_held_worker w
  rw [held, hsplit, List.flatMap_append, List.flatMap_cons]
  simp only [List.length_append, List.length_cons, Nat.add_mul, Nat.succ_mul] at hbefore hafter ⊢
  omega

/-- Between dispatches a pool holds what is claimed. -/
theorem Live.mem_held (hp : p.Live n) : id ∈ p.held ↔ id ∈ p.claims := by
  have hpledged : p.pledged = p.claims := by simp only [pledged, hp.ready.free]
  rw [← hpledged]
  exact ⟨hp.sound.pledged_of_held id, hp.sound.held_of_pledged hp.whole id⟩

theorem length_workers {workers capacity batch : Nat}
    (hreached : (start workers capacity batch).Reaches p) : p.workers.length = max workers 1 := by
  rw [hreached.sameMake.workers]
  exact List.length_replicate

/-! What is asked for. -/

theorem nodup_eraseDups {α : Type} [BEq α] [LawfulBEq α] : ∀ as : List α, as.eraseDups.Nodup
  | [] => by simp
  | a :: rest => by
      have hrest := nodup_eraseDups (rest.filter fun b => !b == a)
      rw [List.eraseDups_cons, List.nodup_cons]
      exact ⟨by simp [List.mem_eraseDups], hrest⟩
termination_by as => as.length
decreasing_by exact Nat.lt_succ_of_le (List.length_filter_le _ _)

theorem documentsPending_perm (st : Store) :
    (st.waitingDocuments.mergeSort st.waitsBefore).Perm st.waitingDocuments :=
  List.mergeSort_perm _ _

theorem nodup_documentsPending (st : Store) (limit : Nat) : (st.documentsPending limit).Nodup :=
  ((documentsPending_perm st).nodup_iff.mpr (nodup_eraseDups _)).sublist (List.take_sublist _ _)

/-- Among enough documents with waiting steps there is one outside of some list, if there is
one at all. -/
theorem exists_mem_documentsPending {st : Store} {taken : List String} {limit : Nat}
    (hlimit : taken.length < limit) (hfree : ∃ id ∈ st.waitingDocuments, id ∉ taken) :
    ∃ id ∈ st.documentsPending limit, id ∉ taken := by
  obtain ⟨id, hid, htaken⟩ := hfree
  by_cases hall : st.waitingDocuments.length ≤ limit
  · refine ⟨id, ?_, htaken⟩
    rw [Store.documentsPending, List.take_of_length_le (by simpa using hall)]
    exact (documentsPending_perm st).mem_iff.mpr hid
  · -- There are more documents than some list can hold that has fewer elements.
    have hlength : (st.documentsPending limit).length = limit := by
      simp only [Store.documentsPending, List.length_take, List.length_mergeSort]
      omega
    by_contra hnone
    have hsub : st.documentsPending limit ⊆ taken := by
      intro a ha
      by_contra h
      exact hnone ⟨a, ha, h⟩
    have hle := ((nodup_documentsPending st limit).subperm hsub).length_le
    omega

/-- A pull of a pool that goes on never fails.  It queues something exactly if there is room
and a document that it offers finds room at its turn.  While others only make room, it is
enough that some document is neither passed over nor claimed among the few that are asked
for, and while nobody else moves there must be one.  Any other such document will do as well
if a batch is no smaller than what fits into the pool. -/
theorem pull_queues {workers capacity batch : Nat}
    (hreached : (start workers capacity batch).Reaches p) (hready : p.Ready)
    (hbetween : Meanwhile between) (st : Store) :
    ∃ queued, (p.pull (fun limit => .ok (st.documentsPending limit)) between).1.result =
        .ok queued ∧
      (0 < queued ↔ p.queueFull = false ∧
        FindsRoom between p ((st.documentsPending p.pullLimit).filter (!p.waiting.contains ·))) ∧
      (Frees between → p.queueFull = false →
        (∃ id ∈ st.documentsPending p.pullLimit, id ∉ p.waiting ∧ id ∉ p.claims) →
        0 < queued) ∧
      ((∀ q, between q = q) → 0 < queued →
        ∃ id ∈ st.documentsPending p.pullLimit, id ∉ p.waiting ∧ id ∉ p.claims) ∧
      (Frees between → max workers 1 * (max capacity 1 + 1) ≤ max batch 1 →
        max batch 1 + p.waiting.length < 2 ^ 64 → p.queueFull = false →
        (∃ id ∈ st.waitingDocuments, id ∉ p.waiting ∧ id ∉ p.claims) → 0 < queued) := by
  have hlive := live_of_reaches hreached hready
  have hoffered : ∀ id, id ∈ (st.documentsPending p.pullLimit).filter (!p.waiting.contains ·) ↔
      id ∈ st.documentsPending p.pullLimit ∧ id ∉ p.waiting := by
    simp
  obtain ⟨queued, hresult, hpos⟩ : ∃ queued,
      (p.pull (fun limit => .ok (st.documentsPending limit)) between).1.result = .ok queued ∧
      (0 < queued ↔ p.queueFull = false ∧ FindsRoom between p
        ((st.documentsPending p.pullLimit).filter (!p.waiting.contains ·))) := by
    unfold pull
    by_cases hfull : p.queueFull = true
    · exact ⟨0, by simp [hfull], by simp [hfull]⟩
    · rw [Bool.not_eq_true] at hfull
      obtain ⟨queued, hoffer, hfinds⟩ := offerAll_queues hbetween
        ((st.documentsPending p.pullLimit).filter (!p.waiting.contains ·)) p hlive
      exact ⟨queued, by simpa [hfull] using hoffer, by simpa [hfull] using hfinds⟩
  have hfrees : Frees between → p.queueFull = false →
      (∃ id ∈ st.documentsPending p.pullLimit, id ∉ p.waiting ∧ id ∉ p.claims) →
      0 < queued := by
    rintro hfrees hroom ⟨id, hid, hwaiting, hclaims⟩
    apply hpos.mpr
    refine ⟨hroom, findsRoom_of_not_mem hbetween hfrees p hready hroom ⟨id, ?_, hclaims⟩⟩
    exact (hoffered id).mpr ⟨hid, hwaiting⟩
  refine ⟨queued, hresult, hpos, hfrees, ?_, ?_⟩
  · intro halone hqueued
    obtain ⟨id, hid, hclaims⟩ := exists_of_findsRoom halone (hpos.mp hqueued).2
    obtain ⟨hmem, hwaiting⟩ := (hoffered id).mp hid
    exact ⟨id, hmem, hwaiting, hclaims⟩
  · rintro hfrees' hbatch hsum hroom ⟨id, hid, hwaiting, hclaims⟩
    apply hfrees hfrees' hroom
    have hlimit : p.pullLimit = max batch 1 + p.waiting.length := by
      rw [pullLimit, hreached.sameMake.batchSize]
      exact Nat.mod_eq_of_lt hsum
    have hheld := hlive.sound.length_held_lt hroom
    rw [length_workers hreached] at hheld
    have htaken : ∀ a, a ∉ p.waiting ++ p.held ↔ a ∉ p.waiting ∧ a ∉ p.claims := by
      intro a
      rw [List.mem_append, not_or, hlive.mem_held]
    have henough : (p.waiting ++ p.held).length < p.pullLimit := by
      rw [List.length_append]
      omega
    have hfree := (htaken id).mpr ⟨hwaiting, hclaims⟩
    obtain ⟨a, ha, hfree⟩ := exists_mem_documentsPending henough ⟨id, hid, hfree⟩
    exact ⟨a, ha, (htaken a).mp hfree⟩

/-- Two documents that wait, the one for as long as the other. -/
def twoWaiting : Store where
  jobs := [.pending "a" .hash default, .pending "b" .hash default]

/-- A pool of one worker that is at the first of them; its queue has room for the other. -/
def atFirst (batch : Nat) : Pool :=
  { start 1 1 batch with workers := [⟨[], .busy "a"⟩], claims := ["a"] }

theorem reaches_atFirst (batch : Nat) : (start 1 1 batch).Reaches (atFirst batch) := by
  have hrun : (start 1 1 batch).run?
      [.claim "a", .look, .send, .record, .check 0, .take 0, .present 0] =
        some (atFirst batch) := rfl
  exact Reaches.refl.run hrun

theorem ready_atFirst (batch : Nat) : (atFirst batch).Ready := ⟨rfl, rfl⟩

theorem meanwhile_id : Meanwhile fun q => q := fun _ hq => ⟨.refl, hq⟩

theorem frees_id : Frees fun q => q := fun _ _ => ⟨fun _ h => h, fun h => h⟩

/-- A batch of two reaches past the document that the worker is at. -/
theorem pull_queues_atFirst :
    ∃ queued, ((atFirst 2).pull (fun limit => .ok (twoWaiting.documentsPending limit))
        fun q => q).1.result = .ok queued ∧ 0 < queued := by
  obtain ⟨queued, hresult, -, -, -, hall⟩ := pull_queues (reaches_atFirst 2) (ready_atFirst 2)
    meanwhile_id twoWaiting
  refine ⟨queued, hresult, ?_⟩
  apply hall frees_id (by decide) (by decide) (by decide)
  exact ⟨"b", by decide, by decide, by decide⟩

/-- A batch of one does not: the other document waits although there is room for it. -/
theorem pull_starves_atFirst :
    (start 1 1 1).Reaches (atFirst 1) ∧ (atFirst 1).Ready ∧ (atFirst 1).queueFull = false ∧
    (∃ id ∈ twoWaiting.waitingDocuments, id ∉ (atFirst 1).waiting ∧ id ∉ (atFirst 1).claims) ∧
    ((atFirst 1).pull (fun limit => .ok (twoWaiting.documentsPending limit))
      fun q => q).1.result = .ok 0 := by
  refine ⟨reaches_atFirst 1, ready_atFirst 1, by decide, ⟨"b", by decide, by decide, by decide⟩, ?_⟩
  have hall : twoWaiting.waitingDocuments = ["a", "b"] := by decide
  have hsorted : ["a", "b"].Pairwise fun a b => twoWaiting.waitsBefore a b = true := by decide
  have hasked : twoWaiting.documentsPending 1 = ["a"] := by
    unfold Store.documentsPending
    rw [hall, List.mergeSort_of_pairwise hsorted]
    rfl
  have hlimit : (atFirst 1).pullLimit = 1 := by decide
  simp only [pull, hlimit, hasked]
  decide

end Pool

end Docket
