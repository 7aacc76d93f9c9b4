import Docket.Proofs.Pulling

/-!
Where a document is sent.  The worker that is chosen is the first of the least busy ones that have
room, so that none is chosen exactly if every queue is full.  A dispatch looks at the loads one by
one while the workers go on; but nobody else adds to a queue meanwhile, so that it finds no place
only where every queue was full when it began, and sends to no queue that is full.
-/

namespace Docket

namespace WorkerLoad

variable {a b c : WorkerLoad}

/-- What a load is judged by: whether the worker is busy, and then the length of its queue. -/
def weight (l : WorkerLoad) : Bool × Nat := (l.busy, l.queued)

/-- A load is lighter than another: by busyness, idle first, and then by the length of the queue. -/
def LighterThan (a b : WorkerLoad) : Prop := Prod.Lex (· < ·) (· < ·) a.weight b.weight

theorem lighterThan_iff : a.LighterThan b ↔
    a.busy = false ∧ b.busy = true ∨ a.busy = b.busy ∧ a.queued < b.queued := by
  have hidle : ∀ x y : Bool, x < y ↔ x = false ∧ y = true := by decide
  simp [LighterThan, weight, Prod.lex_def, hidle]

theorem isLighter_eq_true : a.isLighter b = true ↔ a.LighterThan b := by
  rw [lighterThan_iff]
  cases ha : a.busy <;> cases hb : b.busy <;> simp [isLighter, ha, hb]

theorem LighterThan.trans (hab : a.LighterThan b) (hbc : b.LighterThan c) : a.LighterThan c := by
  rw [lighterThan_iff] at *
  grind

theorem LighterThan.ne (h : a.LighterThan b) : a.weight ≠ b.weight := by
  rw [lighterThan_iff] at h
  grind [weight]

/-- Of two loads one is lighter unless they weigh the same. -/
theorem weight_eq_of_not_lighter (hab : ¬ a.LighterThan b) (hba : ¬ b.LighterThan a) :
    a.weight = b.weight := by
  rw [lighterThan_iff] at hab hba
  cases ha : a.busy <;> cases hb : b.busy <;> simp_all [weight] <;> omega

/-- What is lighter than a load is lighter than any load that is no lighter. -/
theorem LighterThan.trans_not (hab : a.LighterThan b) (hcb : ¬ c.LighterThan b) :
    a.LighterThan c := by
  rw [lighterThan_iff] at *
  grind

end WorkerLoad

/-- A worker with room: none with room has a lighter load, and none with room before it has a load
as light. -/
structure LeastBusyAt (loads : List WorkerLoad) (i : Nat) (l : WorkerLoad) : Prop where
  there : loads[i]? = some l
  room : l.queued < l.capacity
  lightest : ∀ m ∈ loads, m.queued < m.capacity → ¬ m.LighterThan l
  first : ∀ j < i, ∀ m, loads[j]? = some m → m.queued < m.capacity → m.weight ≠ l.weight

variable {loads rest : List WorkerLoad} {l m : WorkerLoad} {i j : Nat}

theorem WorkerLoad.isFull_iff : l.isFull = true ↔ ¬ l.queued < l.capacity := by
  simp [isFull]

/-- A load that comes before stays out of account if it is full or heavier. -/
theorem LeastBusyAt.behind (h : LeastBusyAt rest i m)
    (hl : l.queued < l.capacity → m.LighterThan l) : LeastBusyAt (l :: rest) (i + 1) m where
  there := h.there
  room := h.room
  lightest := by
    intro m' hm' hroom hlighter
    rcases List.mem_cons.mp hm' with rfl | hm'
    · exact ((hl hroom).trans hlighter).ne rfl
    · exact h.lightest m' hm' hroom hlighter
  first := by
    intro j hj m' hget hroom hweight
    cases j with
    | zero =>
        cases hget
        exact (hl hroom).ne hweight.symm
    | succ j => exact h.first j (by omega) m' hget hroom hweight

/-- A load with room is chosen before those behind it if none of them that has room is lighter. -/
theorem leastBusyAt_head (hroom : l.queued < l.capacity)
    (hrest : ∀ m ∈ rest, m.queued < m.capacity → ¬ m.LighterThan l) :
    LeastBusyAt (l :: rest) 0 l where
  there := rfl
  room := hroom
  lightest := List.forall_mem_cons.mpr ⟨fun _ h => h.ne rfl, hrest⟩
  first j hj := absurd hj (Nat.not_lt_zero j)

/-- The lightest load is the least busy one.  Where one behind the first is found, it stays if it is
lighter than the first, and else the first comes before all that are as light. -/
theorem leastBusyAt_of_lightest {start : Nat} (h : lightest? start loads = some (j, m)) :
    ∃ i, j = start + i ∧ LeastBusyAt loads i m := by
  induction loads generalizing start j m with
  | nil => cases h
  | cons l rest ih =>
      have hbehind : lightest? (start + 1) rest = some (j, m) →
          (l.queued < l.capacity → m.LighterThan l) →
          ∃ i, j = start + i ∧ LeastBusyAt (l :: rest) i m := by
        intro hlater hl
        obtain ⟨i, rfl, hi⟩ := ih hlater
        exact ⟨i + 1, by omega, hi.behind hl⟩
      by_cases hroom : l.queued < l.capacity
      · have hfits : l.isFull = false := by simpa [WorkerLoad.isFull] using hroom
        cases hlater : lightest? (start + 1) rest with
        | none =>
            simp only [lightest?, hfits, hlater] at h
            cases h
            refine ⟨0, rfl, leastBusyAt_head hroom fun m hm hroom' => ?_⟩
            exact absurd hroom' (WorkerLoad.isFull_iff.mp (lightest?_eq_none.mp hlater m hm))
        | some found =>
            obtain ⟨k, m'⟩ := found
            by_cases hlighter : m'.isLighter l = true
            · simp only [lightest?, hfits, hlater, hlighter] at h
              cases h
              exact hbehind hlater fun _ => WorkerLoad.isLighter_eq_true.mp hlighter
            · simp only [lightest?, hfits, hlater, hlighter] at h
              cases h
              obtain ⟨k', -, hleast⟩ := ih hlater
              refine ⟨0, rfl, leastBusyAt_head hroom fun n hn hroom' hn' => ?_⟩
              -- what is lighter than the first would be lighter than the one found behind it
              refine hleast.lightest n hn hroom' (hn'.trans_not fun hm' => hlighter ?_)
              exact WorkerLoad.isLighter_eq_true.mpr hm'
      · have hfull := WorkerLoad.isFull_iff.mpr hroom
        rw [lightest?_cons_of_full hfull] at h
        exact hbehind h fun hroom' => absurd hroom' hroom

theorem LeastBusyAt.unique (hl : LeastBusyAt loads i l) (hm : LeastBusyAt loads j m) : i = j := by
  have hsame : l.weight = m.weight := WorkerLoad.weight_eq_of_not_lighter
    (hm.lightest l (List.mem_of_getElem? hl.there) hl.room)
    (hl.lightest m (List.mem_of_getElem? hm.there) hm.room)
  rcases Nat.lt_trichotomy i j with hlt | heq | hgt
  · exact absurd hsame (hm.first i hlt l hl.there hl.room)
  · exact heq
  · exact absurd hsame.symm (hl.first j hgt m hm.there hm.room)

theorem leastBusy?_eq_none : leastBusy? loads = none ↔ ∀ l ∈ loads, l.capacity ≤ l.queued := by
  simp [leastBusy?, lightest?_eq_none, WorkerLoad.isFull]

theorem leastBusyAt_of_leastBusy (h : leastBusy? loads = some i) : ∃ l, LeastBusyAt loads i l := by
  obtain ⟨⟨j, l⟩, hlightest, rfl⟩ := Option.map_eq_some_iff.mp h
  obtain ⟨i, hi, hleast⟩ := leastBusyAt_of_lightest hlightest
  rw [Nat.zero_add] at hi
  exact ⟨l, hi ▸ hleast⟩

theorem leastBusy?_eq_some : leastBusy? loads = some i ↔ ∃ l, LeastBusyAt loads i l := by
  refine ⟨leastBusyAt_of_leastBusy, fun ⟨l, hl⟩ => ?_⟩
  cases hchosen : leastBusy? loads with
  | none =>
      have hfull := leastBusy?_eq_none.mp hchosen l (List.mem_of_getElem? hl.there)
      exact absurd hl.room (Nat.not_lt.mpr hfull)
  | some j =>
      obtain ⟨m, hm⟩ := leastBusyAt_of_leastBusy hchosen
      rw [hl.unique hm]

namespace Pool

variable {p q q' : Pool} {id : String} {m : PoolMove} {w : Worker} {seen : List WorkerLoad}

/-- Whether all queues are full can be told from the loads. -/
theorem queueFull_eq_all_loads (p : Pool) :
    p.queueFull = p.loads.all fun l => l.capacity ≤ l.queued := by
  rw [loads, List.all_map]
  rfl

theorem leastBusy_loads_eq_none : leastBusy? p.loads = none ↔ p.queueFull = true := by
  rw [queueFull_eq_all_loads, leastBusy?_eq_none]
  simp

/-! A dispatch while others go on. -/

/-- What has become of a pool while nothing was added to a queue. -/
structure Drained (p q : Pool) : Prop where
  capacity : q.capacity = p.capacity
  workers : q.workers.length = p.workers.length
  shorter : ∀ (i : Nat) (w : Worker), q.workers[i]? = some w →
    ∃ v, p.workers[i]? = some v ∧ w.queue.length ≤ v.queue.length

theorem Drained.of_workers (hworkers : q.workers = p.workers) (hcapacity : q.capacity = p.capacity) :
    p.Drained q :=
  ⟨hcapacity, by rw [hworkers], fun i w hw => ⟨w, hworkers ▸ hw, Nat.le_refl _⟩⟩

theorem Drained.trans (hpq : p.Drained q) (hqq' : q.Drained q') : p.Drained q' where
  capacity := hqq'.capacity.trans hpq.capacity
  workers := hqq'.workers.trans hpq.workers
  shorter i w hw := by
    obtain ⟨v, hv, hwv⟩ := hqq'.shorter i w hw
    obtain ⟨u, hu, hvu⟩ := hpq.shorter i v hv
    exact ⟨u, hu, Nat.le_trans hwv hvu⟩

/-- The worker at a place of the pool as it was. -/
theorem Drained.after (h : p.Drained q) {v : Worker} (hv : p.workers[i]? = some v) :
    ∃ w, q.workers[i]? = some w ∧ w.queue.length ≤ v.queue.length := by
  obtain ⟨hi, -⟩ := List.getElem?_eq_some_iff.mp hv
  obtain ⟨w, hw⟩ : ∃ w, q.workers[i]? = some w :=
    ⟨_, List.getElem?_eq_getElem (h.workers.symm ▸ hi)⟩
  obtain ⟨v', hv', hle⟩ := h.shorter i w hw
  cases hv.symm.trans hv'
  exact ⟨w, hw, hle⟩

theorem drained_workerMove (hw : p.workers[i]? = some w) (hmove : p.workerMove? i w m = some q) :
    p.Drained q ∧ q.dispatching = p.dispatching := by
  obtain ⟨w', claims, completions, rfl, hqueue⟩ := workerMove_eq hmove
  refine ⟨⟨rfl, by simp [setWorker], fun j v hv => ?_⟩, rfl⟩
  rw [setWorker, List.getElem?_set] at hv
  split at hv
  · next heq =>
      subst heq
      split at hv
      · cases hv
        exact ⟨w, hw, hqueue.length_le⟩
      · cases hv
  · exact ⟨v, hv, Nat.le_refl _⟩

/-- While a dispatch looks at the loads, no other begins and nobody adds to a queue. -/
theorem move_of_looking (hlooking : p.dispatching = some (.looking id seen))
    (hmove : p.move? m = some q) (hm : m ≠ .send) : p.Drained q ∧
      (q.dispatching = p.dispatching ∨ ∃ w, p.workers[seen.length]? = some w ∧
        q.workers = p.workers ∧
        q.dispatching = some (.looking id (seen ++ [p.loadOf w]))) := by
  cases m with
  | claim a | record => simp [move?, hlooking] at hmove
  | send => exact absurd rfl hm
  | look =>
      simp only [move?, hlooking] at hmove
      obtain ⟨w, hw, rfl⟩ := Option.map_eq_some_iff.mp hmove
      exact ⟨.of_workers rfl rfl, .inr ⟨w, hw, rfl, rfl⟩⟩
  | digest =>
      simp only [move?] at hmove
      split at hmove
      · next a later rest _ =>
          cases hmove
          cases later <;> exact ⟨.of_workers rfl rfl, .inl rfl⟩
      · cases hmove
  | askStop =>
      cases hmove
      exact ⟨.of_workers rfl rfl, .inl rfl⟩
  | check k | take k | present k | finish k later | release k | report k | quit k =>
      obtain ⟨w, hw, hmove⟩ := Option.bind_eq_some_iff.mp hmove
      obtain ⟨hdrained, hdispatching⟩ := drained_workerMove hw hmove
      exact ⟨hdrained, .inl hdispatching⟩

/-- A dispatch that began in a pool `p` and has seen some loads by now: each of them tells of a queue
that was no shorter at the beginning and is no longer now. -/
structure HasSeen (p q : Pool) (id : String) (seen : List WorkerLoad) : Prop where
  looking : q.dispatching = some (.looking id seen)
  drained : p.Drained q
  between : ∀ (i : Nat) (l : WorkerLoad), seen[i]? = some l → l.capacity = p.capacity ∧
    ∃ v w, p.workers[i]? = some v ∧ q.workers[i]? = some w ∧
      w.queue.length ≤ l.queued ∧ l.queued ≤ v.queue.length

theorem hasSeen_claim (hid : id ∉ p.claims) (hmove : p.move? (.claim id) = some q) :
    p.HasSeen q id [] := by
  cases hfree : p.dispatching <;> simp [move?, hfree, hid] at hmove
  subst hmove
  exact ⟨rfl, .of_workers rfl rfl, by simp⟩

/-- Every move but the last of a dispatch keeps what it has seen. -/
theorem HasSeen.move (h : p.HasSeen q id seen) (hmove : q.move? m = some q') (hm : m ≠ .send) :
    ∃ seen', p.HasSeen q' id seen' := by
  obtain ⟨hdrained, hdispatching⟩ := move_of_looking h.looking hmove hm
  have hbetween : ∀ (i : Nat) (l : WorkerLoad), seen[i]? = some l → l.capacity = p.capacity ∧
      ∃ v w, p.workers[i]? = some v ∧ q'.workers[i]? = some w ∧
        w.queue.length ≤ l.queued ∧ l.queued ≤ v.queue.length := by
    intro i l hl
    obtain ⟨hcapacity, v, w, hv, hw, hwl, hlv⟩ := h.between i l hl
    obtain ⟨w', hw', hle⟩ := hdrained.after hw
    exact ⟨hcapacity, v, w', hv, hw', Nat.le_trans hle hwl, hlv⟩
  rcases hdispatching with hsame | ⟨w, hw, hworkers, hlooked⟩
  · exact ⟨seen, hsame.trans h.looking, h.drained.trans hdrained, hbetween⟩
  · refine ⟨_, hlooked, h.drained.trans hdrained, fun i l hl => ?_⟩
    rw [List.getElem?_append] at hl
    split at hl
    · exact hbetween i l hl
    · obtain ⟨hi, rfl⟩ : i = seen.length ∧ q.loadOf w = l := by
        rw [List.getElem?_singleton] at hl
        split at hl
        · exact ⟨by omega, Option.some.inj hl⟩
        · cases hl
      obtain ⟨v, hv, hle⟩ := h.drained.shorter _ w hw
      exact ⟨h.drained.capacity, v, w, hi ▸ hv, by rw [hworkers, hi, hw], Nat.le_refl _, hle⟩

theorem HasSeen.run {moves : List PoolMove} (h : p.HasSeen q id seen)
    (hrun : q.run? moves = some q') (hmoves : .send ∉ moves) : ∃ seen', p.HasSeen q' id seen' := by
  induction moves generalizing q seen with
  | nil =>
      cases hrun
      exact ⟨seen, h⟩
  | cons m rest ih =>
      obtain ⟨next, hmove, hrest⟩ := Option.bind_eq_some_iff.mp hrun
      rw [List.mem_cons, not_or] at hmoves
      obtain ⟨seen', hnext⟩ := h.move hmove (Ne.symm hmoves.1)
      exact ih hnext hrest hmoves.2

/-- What a worker was chosen for it has still: room in its queue. -/
theorem HasSeen.room (h : p.HasSeen q id seen) (hchosen : leastBusy? seen = some i) :
    ∃ w, q.workers[i]? = some w ∧ w.queue.length < q.capacity := by
  obtain ⟨l, hl⟩ := leastBusyAt_of_leastBusy hchosen
  obtain ⟨hcapacity, -, w, -, hw, hle, -⟩ := h.between i l hl.there
  refine ⟨w, hw, ?_⟩
  rw [h.drained.capacity, ← hcapacity]
  exact Nat.lt_of_le_of_lt hle hl.room

/-- A dispatch finds no place exactly if the policy chooses none. -/
theorem HasSeen.place_eq_deferred (h : p.HasSeen q id seen) :
    q.place seen = .error (.ok .deferred) ↔ leastBusy? seen = none := by
  cases hchosen : leastBusy? seen with
  | none => simp [place, hchosen]
  | some i =>
      obtain ⟨w, hw, hroom⟩ := h.room hchosen
      have hfits : ¬ q.capacity ≤ w.queue.length := Nat.not_le.mpr hroom
      by_cases hended : w.phase = .ended <;> simp [place, hchosen, hw, hfits, hended]

/-- Where every load that was seen is full, every queue was full at the beginning. -/
theorem HasSeen.queueFull (h : p.HasSeen q id seen) (hall : q.workers.length ≤ seen.length)
    (hnone : leastBusy? seen = none) : p.queueFull = true := by
  apply List.all_eq_true.mpr
  intro v hv
  obtain ⟨i, hi⟩ := List.getElem?_of_mem hv
  obtain ⟨hlt, -⟩ := List.getElem?_eq_some_iff.mp hi
  obtain ⟨l, hl⟩ : ∃ l, seen[i]? = some l :=
    ⟨_, List.getElem?_eq_getElem (Nat.lt_of_lt_of_le (h.drained.workers ▸ hlt) hall)⟩
  obtain ⟨hcapacity, v', -, hv', -, -, hle⟩ := h.between i l hl
  cases hi.symm.trans hv'
  have hfull := leastBusy?_eq_none.mp hnone l (List.mem_of_getElem? hl)
  rw [hcapacity] at hfull
  exact decide_eq_true (Nat.le_trans hfull hle)

/-! A whole dispatch with nothing in between. -/

/-- What a dispatch sees at one moment. -/
theorem hasSeen_loads (p : Pool) (id : String) :
    HasSeen p { p with dispatching := some (.looking id p.loads) } id p.loads := by
  refine ⟨rfl, .of_workers rfl rfl, fun i l hl => ?_⟩
  rw [loads, List.getElem?_map] at hl
  obtain ⟨w, hw, rfl⟩ := Option.map_eq_some_iff.mp hl
  exact ⟨rfl, w, w, hw, hw, Nat.le_refl _, Nat.le_refl _⟩

theorem dispatch_eq_deferred (hid : id ∉ p.claims) :
    (p.dispatch id).1 = .ok .deferred ↔ p.queueFull = true := by
  have hplace : p.place p.loads = .error (.ok .deferred) ↔ leastBusy? p.loads = none :=
    (hasSeen_loads p id).place_eq_deferred
  rw [← leastBusy_loads_eq_none, ← hplace]
  cases hwhere : p.place p.loads <;> simp [dispatch, hid, hwhere]

theorem leastBusy_of_place (h : p.place seen = .ok (i, w)) : leastBusy? seen = some i := by
  unfold place at h
  split at h
  · cases h
  · next hchosen =>
      repeat' split at h
      all_goals cases h
      exact hchosen

theorem dispatch_eq_queued (h : (p.dispatch id).1 = .ok (.queued i)) :
    ∃ l, LeastBusyAt p.loads i l := by
  unfold dispatch at h
  split at h
  · cases h
  · split at h
    · next answer hwhere =>
        simp only at h
        subst h
        unfold place at hwhere
        repeat' split at hwhere
        all_goals cases hwhere
    · next hwhere =>
        cases h
        exact leastBusyAt_of_leastBusy (leastBusy_of_place hwhere)

/-- The policy chooses none exactly if every queue is full, and else the first of the least busy
workers with room; whether all queues are full is the same question about the same loads.  So a
whole dispatch of a document that is not claimed is deferred exactly if all queues are full, and goes
to the least busy worker otherwise.  Where others go on while the dispatch looks at the loads, it
is deferred by the policy only, and only if all queues were full when it began; and where it
sends the document there is room. -/
theorem dispatch_places_least_busy :
    (∀ loads : List WorkerLoad,
      (leastBusy? loads = none ↔ ∀ l ∈ loads, l.capacity ≤ l.queued) ∧
      ∀ i, leastBusy? loads = some i ↔ ∃ l, LeastBusyAt loads i l) ∧
    (∀ p : Pool, (p.queueFull = p.loads.all fun l => l.capacity ≤ l.queued) ∧
      (leastBusy? p.loads = none ↔ p.queueFull = true)) ∧
    (∀ (p : Pool) (id : String), id ∉ p.claims →
      ((p.dispatch id).1 = .ok .deferred ↔ p.queueFull = true) ∧
      ∀ i, (p.dispatch id).1 = .ok (.queued i) → ∃ l, LeastBusyAt p.loads i l) ∧
    ∀ (p q : Pool) (id : String) (moves : List PoolMove), id ∉ p.claims →
      p.run? (.claim id :: moves) = some q → .send ∉ moves →
      ∃ seen, q.dispatching = some (.looking id seen) ∧
        (q.answer? .send = some (.ok .deferred) →
          leastBusy? seen = none ∧ p.queueFull = true) ∧
        ∀ q' i, q.move? .send = some q' → q'.dispatching = some (.sent id i) →
          (∃ l, LeastBusyAt seen i l) ∧
          ∃ w, q.workers[i]? = some w ∧ w.queue.length < q.capacity ∧
            q'.workers = q.workers.set i { w with queue := w.queue ++ [id] } := by
  refine ⟨fun loads => ⟨leastBusy?_eq_none, fun i => leastBusy?_eq_some⟩,
    fun p => ⟨queueFull_eq_all_loads p, leastBusy_loads_eq_none⟩,
    fun p id hid => ⟨dispatch_eq_deferred hid, fun i => dispatch_eq_queued⟩, ?_⟩
  intro p q id moves hid hrun hmoves
  obtain ⟨q₀, hclaim, hrest⟩ := Option.bind_eq_some_iff.mp hrun
  obtain ⟨seen, hseen⟩ := (hasSeen_claim hid hclaim).run hrest hmoves
  refine ⟨seen, hseen.looking, fun hanswer => ?_, fun q' i hsend hsent => ?_⟩
  · simp only [answer?, hseen.looking] at hanswer
    split at hanswer
    · cases hanswer
    · next hall =>
        split at hanswer
        · next hplace =>
            cases hanswer
            have hnone := hseen.place_eq_deferred.mp hplace
            exact ⟨hnone, hseen.queueFull (Nat.le_of_not_lt hall) hnone⟩
        · cases hanswer
  · simp only [move?, hseen.looking] at hsend
    split at hsend
    · cases hsend
    · split at hsend <;> cases hsend
      · cases hsent
      · next hplace =>
          cases hsent
          obtain ⟨hw, -, hroom⟩ := place_ok hplace
          exact ⟨leastBusyAt_of_leastBusy (leastBusy_of_place hplace), _, hw, hroom, rfl⟩

/-- A pool whose two queues are full while no worker is busy. -/
def bothFull : Pool :=
  { start 2 1 10 with workers := [⟨["a"], .willing⟩, ⟨["b"], .willing⟩], claims := ["a", "b"] }

/-- The first queue gets room right after the dispatch has looked at it: the dispatch is deferred all
the same, since all queues were full when it began. -/
theorem dispatch_places_least_busy_bothFull :
    "c" ∉ bothFull.claims ∧ PoolMove.send ∉ [PoolMove.look, .take 0, .look] ∧
    ∃ q, bothFull.run? [.claim "c", .look, .take 0, .look] = some q ∧
      q.answer? .send = some (.ok .deferred) ∧ q.queueFull = false ∧
      bothFull.queueFull = true := by
  have hid : "c" ∉ bothFull.claims := by decide
  have hmoves : PoolMove.send ∉ [PoolMove.look, .take 0, .look] := by decide
  have hrun : bothFull.run? [.claim "c", .look, .take 0, .look] = some { bothFull with
      workers := [⟨[], .received "a"⟩, ⟨["b"], .willing⟩]
      dispatching := some (.looking "c" [⟨false, 1, 1⟩, ⟨false, 1, 1⟩]) } := by decide
  obtain ⟨seen, -, hdeferred, -⟩ :=
    dispatch_places_least_busy.2.2.2 bothFull _ "c" [.look, .take 0, .look] hid hrun hmoves
  exact ⟨hid, hmoves, _, hrun, by decide, by decide, (hdeferred (by decide)).2⟩

end Pool

end Docket
