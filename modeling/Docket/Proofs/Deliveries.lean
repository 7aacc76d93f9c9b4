import Docket.Proofs.Reports
import Docket.Proofs.Stopping

/-!
What workers do with the documents that are sent to them.  Each worker takes its documents one
after the other, whatever comes of the ones before: a document that fails, or whose handling panics,
is released and reported as any other is.  So what others can notice of a worker at any time is what
it does with the documents that it has handled, in the order in which they were sent, but for what
it has begun or still owes.
-/

namespace Docket

/-! What is done around a handler. -/

namespace Handled

/-- Why the handling panicked, if it did. -/
def fault? : Handled → Option String
  | .panicked payload => some payload.reason
  | .outcome _ | .failed _ => none

/-- What a worker does about a document that it shows and has handled. -/
def consequences (id : String) (h : Handled) : List WorkerEffect :=
  match h.fault? with
  | some reason => [.publish (.documentFailed id reason), .quarantine id reason]
  | none => []

theorem retryLater_eq (h : Handled) : h.retryLater = decide (h ≠ .outcome .completed) := by
  cases h with
  | outcome o => cases o <;> simp [retryLater]
  | failed message => simp [retryLater]
  | panicked payload => simp [retryLater]

end Handled

theorem handlingEffects_eq (id : String) (h : Handled) : handlingEffects id h =
    .showCurrent id :: .handle id ::
      (h.consequences id ++ [.showNone, .release id, .complete id h.retryLater]) := by
  cases h <;> rfl

theorem Act.report_bind {α : Type} (e : Event) (f : Unit → Act World α) (s : Surroundings)
    (u : World) : (Act.report e >>= f) s u = f () s { u with events := e :: u.events } :=
  rfl

/-- Who handles documents, and takes those out of processing whose handling panics. -/
structure DocumentHandler where
  process : String → Act World DocumentOutcome
  quarantine : String → String → Act World Unit

namespace DocumentHandler

/-- The passes of the pipeline. -/
def pipeline : DocumentHandler := ⟨Pass.process, Pass.quarantine⟩

/-- What an effect of a worker does to the world. -/
def perform (handler : DocumentHandler) : WorkerEffect → Act World Unit
  | .publish e => Act.report e
  | .quarantine id reason => do let _ ← (handler.quarantine id reason).attempt
  | _ => return

/-- What follows from the handling of a document. -/
def settle (handler : DocumentHandler) (id : String) (h : Handled) : Act World Unit :=
  (h.consequences id).forM handler.perform

/-- What a worker does with a document while it shows it. The answer is how the handling ended. -/
def handle (handler : DocumentHandler) (id : String) : Act World Handled := do
  let h ← Act.handling (handler.process id)
  handler.settle id h
  return h

variable {handler : DocumentHandler} {id reason : String} {h : Handled} {s : Surroundings}
  {u v : World}

theorem settle_of_no_fault (hfault : h.fault? = none) : handler.settle id h = pure () := by
  unfold settle Handled.consequences
  rw [hfault]
  rfl

/-- After a panic the fault is published and then the document is quarantined. -/
theorem settle_of_fault (hfault : h.fault? = some reason)
    {r : Except (Interruption PipelineError) (Except PipelineError Unit)}
    (hrun : (handler.quarantine id reason).attempt s
      { u with events := .documentFailed id reason :: u.events } = (r, v)) :
    handler.settle id h s u = (r.map fun _ => (), v) := by
  unfold settle Handled.consequences
  rw [hfault]
  have hquarantine : handler.perform (.quarantine id reason) s
      { u with events := .documentFailed id reason :: u.events } = (r.map fun _ => (), v) := by
    cases r with
    | error i => exact Act.bind_of_error hrun
    | ok answer => exact Act.bind_of_ok hrun
  refine (Act.report_bind _ _ s u).trans ?_
  cases r with
  | error i => exact Act.bind_of_error hquarantine
  | ok answer => exact Act.bind_of_ok hquarantine

/-- With the passes of the pipeline, the handling is the one of the pipeline. -/
theorem pipeline_handle (id : String) : pipeline.handle id = Act.handle id := by
  have hsettle : ∀ h : Handled, pipeline.settle id h = Act.takeOut id h := by
    intro h
    cases h with
    | panicked payload =>
        funext s u
        rcases hrun : (Pass.quarantine id payload.reason).attempt s
          { u with events := .documentFailed id payload.reason :: u.events } with ⟨r, v⟩
        refine (settle_of_fault rfl hrun).trans ((Act.report_bind _ _ s u).trans ?_).symm
        cases r with
        | error i => exact Act.bind_of_error hrun
        | ok answer => exact Act.bind_of_ok hrun
    | _ => rfl
  unfold handle Act.handle
  simp only [hsettle]
  rfl

theorem handling_eq_ok {pass : Act World DocumentOutcome} :
    Act.handling pass s u = (.ok h, v) ↔
      ∃ result, pass s u = (result, v) ∧ Handled.ofResult result = some h := by
  rcases hpass : pass s u with ⟨result, u'⟩
  simp only [Act.handling, hpass]
  cases hresult : Handled.ofResult result with
  | none => simp_all
  | some h' => simp_all [and_comm]

/-- How the handling of a document ends, and what world it leaves.  It ends as the process does, and
only after a panic the fault is published and the document is quarantined, which may be refused. -/
def Handles (handler : DocumentHandler) (id : String) (s : Surroundings) (u : World) (h : Handled)
    (v : World) : Prop :=
  ∃ result u', handler.process id s u = (result, u') ∧ Handled.ofResult result = some h ∧
    (h.fault? = none → v = u') ∧
    ∀ reason, h.fault? = some reason → ∃ answer,
      (handler.quarantine id reason).attempt s
        { u' with events := .documentFailed id reason :: u'.events } = (.ok answer, v)

theorem handle_eq_ok : handler.handle id s u = (.ok h, v) ↔ handler.Handles id s u h v := by
  constructor
  · intro hrun
    obtain ⟨h', u', hhandling, hrun⟩ := Act.exists_of_bind_ok hrun
    obtain ⟨_, v', hsettle, hrun⟩ := Act.exists_of_bind_ok hrun
    cases hrun
    obtain ⟨result, hprocess, hresult⟩ := handling_eq_ok.mp hhandling
    refine ⟨result, u', hprocess, hresult, fun hnone => ?_, fun reason hfault => ?_⟩
    · rw [settle_of_no_fault hnone] at hsettle
      cases hsettle
      rfl
    · rcases hquarantine : (handler.quarantine id reason).attempt s
        { u' with events := .documentFailed id reason :: u'.events } with ⟨r, v'⟩
      rw [settle_of_fault hfault hquarantine] at hsettle
      cases r with
      | error i => cases hsettle
      | ok answer =>
          cases hsettle
          exact ⟨answer, rfl⟩
  · rintro ⟨result, u', hprocess, hresult, hnone, hsome⟩
    have hsettle : handler.settle id h s u' = (.ok (), v) := by
      cases hfault : h.fault? with
      | none =>
          rw [settle_of_no_fault hfault, hnone hfault]
          rfl
      | some reason =>
          obtain ⟨answer, hquarantine⟩ := hsome reason hfault
          exact settle_of_fault hfault hquarantine
    exact (Act.bind_of_ok (handling_eq_ok.mpr ⟨result, hprocess, hresult⟩)).trans
      (Act.bind_of_ok hsettle)

/-- The process does not stop, and to quarantine a document is done or refused. -/
def ReturnsIn (handler : DocumentHandler) (s : Surroundings) : Prop :=
  ∀ id u, (handler.process id s u).1 ≠ .error .stop ∧
    ∀ reason, ∃ answer v, (handler.quarantine id reason).attempt s u = (.ok answer, v)

theorem ReturnsIn.handle (hreturns : handler.ReturnsIn s) (id : String) (u : World) :
    ∃ h v, handler.handle id s u = (.ok h, v) := by
  obtain ⟨hgoes, -⟩ := hreturns id u
  rcases hprocess : handler.process id s u with ⟨result, u'⟩
  obtain ⟨h, hresult⟩ : ∃ h, Handled.ofResult result = some h := by
    rw [hprocess] at hgoes
    rcases result with (e | payload | _) | o
    · exact ⟨_, rfl⟩
    · exact ⟨_, rfl⟩
    · exact absurd rfl hgoes
    · exact ⟨_, rfl⟩
  cases hfault : h.fault? with
  | none => exact ⟨h, u', handle_eq_ok.mpr ⟨result, u', hprocess, hresult, by simp [hfault]⟩⟩
  | some reason =>
      obtain ⟨answer, v, hquarantine⟩ := (hreturns id
        { u' with events := .documentFailed id reason :: u'.events }).2 reason
      refine ⟨h, v, handle_eq_ok.mpr ⟨result, u', hprocess, hresult, by simp [hfault], ?_⟩⟩
      rintro _ hreason
      cases hfault.symm.trans hreason
      exact ⟨answer, hquarantine⟩

end DocumentHandler

/-! What can be noticed of a worker. -/

namespace WorkerEffect

def handled? : WorkerEffect → Option String
  | .handle id => some id
  | _ => none

def published? : WorkerEffect → Option Event
  | .publish e => some e
  | _ => none

def quarantined? : WorkerEffect → Option (String × String)
  | .quarantine id reason => some (id, reason)
  | _ => none

/-- Whether an effect gives a document back to the pool. -/
def returns : WorkerEffect → Bool
  | .release _ | .complete _ _ => true
  | _ => false

def completed? : WorkerEffect → Option (String × Bool)
  | .complete id later => some (id, later)
  | _ => none

/-- The document that is shown after an effect, given the one that was shown before it. -/
def shown (before : Option String) : WorkerEffect → Option String
  | .showCurrent id => some id
  | .showNone => none
  | _ => before

end WorkerEffect

/-- The document that is shown after some effects. -/
def shownAfter (effects : List WorkerEffect) : Option String :=
  effects.foldl WorkerEffect.shown none

section

variable {α : Type} {answers : List (String × Handled)}

theorem shownAfter_append (effects more : List WorkerEffect) :
    shownAfter (effects ++ more) = more.foldl WorkerEffect.shown (shownAfter effects) :=
  List.foldl_append

/-- Once a worker is done with its documents it shows none. -/
theorem shownAfter_workEffects : shownAfter (workEffects answers) = none := by
  induction answers with
  | nil => rfl
  | cons a rest ih =>
      have hafter : shownAfter (handlingEffects a.1 a.2) = none := by
        cases a.2 <;> rfl
      change shownAfter (handlingEffects a.1 a.2 ++ workEffects rest) = none
      rwa [shownAfter_append, hafter]

theorem workEffects_concat (answers : List (String × Handled)) (id : String) (h : Handled) :
    workEffects (answers ++ [(id, h)]) = workEffects answers ++ handlingEffects id h := by
  simp [workEffects]

end

namespace WorkerPhase

/-- What a worker has done with a document that it has not handled yet. -/
def begun : WorkerPhase → List WorkerEffect
  | .busy id => [.showCurrent id]
  | _ => []

/-- What a worker has still to do with a document that it has handled. -/
def owing : WorkerPhase → List WorkerEffect
  | .leaving id later => [.release id, .complete id later]
  | .freed id later => [.complete id later]
  | _ => []

/-- What a worker does with its next move that others can notice, unless it is at a document. -/
def next : WorkerPhase → List WorkerEffect
  | .received id => [.showCurrent id]
  | .leaving id _ => [.release id]
  | .freed id later => [.complete id later]
  | _ => []

end WorkerPhase

/-- The entries of a worker in a record of all workers. -/
def entriesOf {α : Type} (i : Nat) (entries : List (Nat × α)) : List α :=
  entries.filterMap fun e => if e.1 = i then some e.2 else none

/-- Whether a worker ends the handling of a document with a move. -/
def PoolMove.ends : PoolMove → Bool
  | .finish _ _ => true
  | _ => false

section

variable {α : Type} {i k : Nat}

theorem entriesOf_append (entries more : List (Nat × α)) :
    entriesOf i (entries ++ more) = entriesOf i entries ++ entriesOf i more :=
  List.filterMap_append

theorem mem_entriesOf {entries : List (Nat × α)} {a : α} :
    a ∈ entriesOf i entries ↔ (i, a) ∈ entries := by
  simp [entriesOf]

theorem entriesOf_singleton (a : α) : entriesOf i [(k, a)] = if k = i then [a] else [] := by
  by_cases hk : k = i <;> simp [entriesOf, hk]

theorem entriesOf_map_self (as : List α) : entriesOf i (as.map (i, ·)) = as := by
  simp [entriesOf, List.filterMap_map]

theorem entriesOf_map_other (hk : k ≠ i) (as : List α) : entriesOf i (as.map (k, ·)) = [] := by
  simp [entriesOf, List.filterMap_map, hk]

end

namespace Pool

/-- The document that was sent with a move, given the pool after it. -/
def sent? (q : Pool) : PoolMove → Option (Nat × String)
  | .send =>
    match q.dispatching with
    | some (.sent id i) => some (i, id)
    | _ => none
  | _ => none

/-- What a worker does with a move that others can notice. -/
def noticed (p : Pool) (m : PoolMove) : List (Nat × WorkerEffect) :=
  match m.worker? with
  | some i => (p.workers[i]?).toList.flatMap fun w => w.phase.next.map (i, ·)
  | none => []

variable {p q : Pool} {m : PoolMove} {i : Nat} {w : Worker}

theorem entriesOf_noticed_self (hm : m.worker? = some i) (hw : p.workers[i]? = some w) :
    entriesOf i (p.noticed m) = w.phase.next := by
  simp only [noticed, hm, hw, Option.toList_some, List.flatMap_cons, List.flatMap_nil,
    List.append_nil]
  exact entriesOf_map_self _

theorem entriesOf_noticed_other (hm : m.worker? ≠ some i) : entriesOf i (p.noticed m) = [] := by
  unfold noticed
  split
  · next k hk =>
      have hne : k ≠ i := fun heq => hm (heq ▸ hk)
      cases p.workers[k]? with
      | none => rfl
      | some v => simpa using entriesOf_map_other hne v.phase.next
  · rfl

theorem sent?_of_worker (hm : m.worker? = some i) : q.sent? m = none := by
  cases m <;> cases hm <;> rfl

/-- What a move that is not a worker's own does: it sends a document, or leaves all workers as they
are, and nobody but the scheduler takes reports away. -/
theorem others_of_move (hmove : p.move? m = some q) (hm : m.worker? = none) :
    (q.sent? m = none ∧ q.workers = p.workers ∨
      ∃ k v id, q.sent? m = some (k, id) ∧ p.workers[k]? = some v ∧
        q.workers = p.workers.set k { v with queue := v.queue ++ [id] }) ∧
    (m ≠ .askStop → q.stopping = p.stopping) ∧ q.completions <:+ p.completions := by
  cases m with
  | claim id =>
      cases hfree : p.dispatching <;> simp only [move?, hfree] at hmove <;> cases hmove
      split <;> exact ⟨.inl ⟨rfl, rfl⟩, fun _ => rfl, List.suffix_rfl⟩
  | look =>
      simp only [move?] at hmove
      split at hmove
      · obtain ⟨w, -, rfl⟩ := Option.map_eq_some_iff.mp hmove
        exact ⟨.inl ⟨rfl, rfl⟩, fun _ => rfl, List.suffix_rfl⟩
      · cases hmove
  | send =>
      simp only [move?] at hmove
      split at hmove
      · split at hmove
        · cases hmove
        · split at hmove <;> cases hmove
          · exact ⟨.inl ⟨rfl, rfl⟩, fun _ => rfl, List.suffix_rfl⟩
          · next hplace =>
              exact ⟨.inr ⟨_, _, _, rfl, (place_ok hplace).1, rfl⟩, fun _ => rfl, List.suffix_rfl⟩
      · cases hmove
  | record =>
      simp only [move?] at hmove
      split at hmove <;> cases hmove
      exact ⟨.inl ⟨rfl, rfl⟩, fun _ => rfl, List.suffix_rfl⟩
  | digest =>
      simp only [move?] at hmove
      split at hmove
      · next id later rest hreports =>
          cases hmove
          refine ⟨.inl ⟨rfl, noteCompletion_workers later⟩, fun _ => ?_, ?_⟩
          · cases later <;> rfl
          · rw [noteCompletion_completions, hreports]
            exact List.suffix_cons _ _
      · cases hmove
  | askStop =>
      cases hmove
      exact ⟨.inl ⟨rfl, rfl⟩, fun hne => absurd rfl hne, List.suffix_rfl⟩
  | check | take | present | finish | release | report | quit => cases hm

/-- A worker that moves sends the reports that can be noticed of it. -/
theorem completions_of_workerMove (hmove : p.workerMove? i w m = some q) :
    q.completions = p.completions ++ w.phase.next.filterMap WorkerEffect.completed? := by
  obtain ⟨queue, phase⟩ := w
  cases m with
  | check k | take k | present k | finish k later | report k =>
      cases phase <;> (try cases queue) <;> simp only [workerMove?] at hmove <;> cases hmove <;>
        simp [setWorker, WorkerPhase.next, WorkerEffect.completed?]
  | quit k =>
      cases phase <;> simp only [workerMove?] at hmove <;> try cases hmove
      split at hmove <;> cases hmove
      simp [setWorker, WorkerPhase.next]
  | release k =>
      cases phase <;> cases hfree : p.dispatching <;> simp only [workerMove?, hfree] at hmove <;>
        cases hmove
      simp [setWorker, WorkerPhase.next, WorkerEffect.completed?]
  | claim | look | send | record | digest | askStop => cases hmove

/-- A move of somebody else adds to the queue of a worker what it sends to it. -/
theorem worker_of_other (hmove : p.move? m = some q) (hw : p.workers[i]? = some w)
    (hm : m.worker? ≠ some i) : q.workers[i]? =
      some { w with queue := w.queue ++ entriesOf i (q.sent? m).toList } := by
  obtain ⟨hi, -⟩ := List.getElem?_eq_some_iff.mp hw
  have hnone : (q.sent? m = none) → q.workers[i]? = p.workers[i]? → q.workers[i]? =
      some { w with queue := w.queue ++ entriesOf i (q.sent? m).toList } := by
    intro hsent hsame
    rw [hsame, hw, hsent]
    exact congrArg some (congrArg (Worker.mk · w.phase) (List.append_nil _).symm)
  cases hworker : m.worker? with
  | some k =>
      rw [move?_of_worker hworker] at hmove
      obtain ⟨v, -, hmove⟩ := Option.bind_eq_some_iff.mp hmove
      obtain ⟨⟨v', hworkers, -⟩, -⟩ := goes_of_workerMove hmove hworker
      have hk : k ≠ i := fun heq => hm (heq ▸ hworker)
      exact hnone (sent?_of_worker hworker) (by rw [hworkers, List.getElem?_set_ne hk])
  | none =>
      rcases (others_of_move hmove hworker).1 with
        ⟨hsent, hworkers⟩ | ⟨k, v, id, hsent, hv, hworkers⟩
      · exact hnone hsent (by rw [hworkers])
      · rw [hsent, hworkers]
        by_cases hk : k = i
        · subst hk
          obtain rfl := Option.some.inj (hw.symm.trans hv)
          rw [List.getElem?_set_self hi]
          exact congrArg some (congrArg (Worker.mk · w.phase)
            (congrArg _ (entriesOf_map_self [id]).symm))
        · rw [List.getElem?_set_ne hk, hw]
          exact congrArg some (congrArg (Worker.mk · w.phase)
            ((congrArg _ (entriesOf_map_other hk [id])).trans (List.append_nil _)).symm)

/-- Only to tell a pool to stop makes it stop. -/
theorem stopping_of_other_move (hmove : p.move? m = some q) (hm : m ≠ .askStop) :
    q.stopping = p.stopping := by
  cases hworker : m.worker? with
  | some k =>
      rw [move?_of_worker hworker] at hmove
      obtain ⟨v, -, hmove⟩ := Option.bind_eq_some_iff.mp hmove
      exact (goes_of_workerMove hmove hworker).2.1
  | none => exact (others_of_move hmove hworker).2.1 hm

/-- The reports that are not read yet are the last ones that can be noticed. -/
theorem completions_of_move (hmove : p.move? m = some q) {reports : List (String × Bool)}
    (h : p.completions <:+ reports) : q.completions <:+
      reports ++ (p.noticed m).filterMap fun e => e.2.completed? := by
  cases hworker : m.worker? with
  | some k =>
      rw [move?_of_worker hworker] at hmove
      obtain ⟨v, hv, hmove⟩ := Option.bind_eq_some_iff.mp hmove
      rw [completions_of_workerMove hmove]
      have hnoticed : (p.noticed m).filterMap (fun e => e.2.completed?) =
          v.phase.next.filterMap WorkerEffect.completed? := by
        simp [noticed, hworker, hv, List.filterMap_map]
      rw [hnoticed]
      obtain ⟨read, rfl⟩ := h
      exact ⟨read, (List.append_assoc _ _ _).symm⟩
  | none =>
      have hnoticed : p.noticed m = [] := by simp only [noticed, hworker]
      rw [hnoticed, List.filterMap_nil, List.append_nil]
      exact (others_of_move hmove hworker).2.2.trans h

/-- How many moves a dispatch that is under way has before it at most. -/
def unlockSteps (p : Pool) : Nat :=
  match p.dispatching with
  | some (.looking _ seen) => 2 + (p.workers.length - seen.length)
  | some (.sent _ _) => 1
  | none => 0

theorem exists_unlocking {dispatching : Dispatching} (hlock : p.dispatching = some dispatching) :
    ∃ m q, m.ends = false ∧ m ≠ .askStop ∧ p.move? m = some q ∧ q.unlockSteps < p.unlockSteps := by
  cases dispatching with
  | sent id k =>
      refine ⟨.record, _, rfl, by simp, by simp only [move?, hlock]; rfl, ?_⟩
      simp [unlockSteps, hlock]
  | looking id seen =>
      by_cases hunseen : seen.length < p.workers.length
      · have hw := List.getElem?_eq_getElem hunseen
        refine ⟨.look, _, rfl, by simp, by simp only [move?, hlock, hw, Option.map_some]; rfl, ?_⟩
        simp only [unlockSteps, hlock, List.length_append, List.length_singleton]
        omega
      · cases hplace : p.place seen with
        | error answer =>
            refine ⟨.send, _, rfl, by simp, by simp only [move?, hlock, hunseen, hplace]; rfl, ?_⟩
            simp only [unlockSteps, hlock]
            omega
        | ok target =>
            refine ⟨.send, _, rfl, by simp, by simp only [move?, hlock, hunseen, hplace]; rfl, ?_⟩
            simp only [unlockSteps, hlock]
            omega

/-- A worker that is not at a document can go on, unless it waits for documents and has none. -/
theorem exists_own (hfree : p.dispatching = none) (hw : p.workers[i]? = some w)
    (hbusy : ∀ id, w.phase ≠ .busy id) (hended : w.phase ≠ .ended) (hidle : w ≠ ⟨[], .willing⟩) :
    ∃ m q, m.ends = false ∧ m.worker? = some i ∧ p.move? m = some q := by
  obtain ⟨queue, phase⟩ := w
  cases phase with
  | resting => exact ⟨.check i, _, rfl, rfl, by simp only [move?, hw]; rfl⟩
  | willing =>
      cases queue with
      | nil => exact absurd rfl hidle
      | cons id rest => exact ⟨.take i, _, rfl, rfl, by simp only [move?, hw]; rfl⟩
  | received id => exact ⟨.present i, _, rfl, rfl, by simp only [move?, hw]; rfl⟩
  | busy id => exact absurd rfl (hbusy id)
  | leaving id later =>
      exact ⟨.release i, _, rfl, rfl, by
        simp only [move?, hw, Option.bind_some, workerMove?, hfree]
        rfl⟩
  | freed id later => exact ⟨.report i, _, rfl, rfl, by simp only [move?, hw]; rfl⟩
  | ended => exact absurd rfl hended

end Pool

/-! Workers and their handler. -/

/-- A pool whose workers handle documents, with a record of what has happened. -/
structure Crew where
  pool : Pool
  world : World
  /-- Which documents were sent to which workers. -/
  sent : List (Nat × String) := []
  /-- How the handling of documents ended. -/
  answers : List (Nat × String × Handled) := []
  /-- What workers have done that others can notice. -/
  log : List (Nat × WorkerEffect) := []

/-- What may happen next. -/
inductive CrewEvent where
  /-- A thread of the pool moves; it does not end the handling of a document. -/
  | move (m : PoolMove)
  /-- A worker handles the document that it shows. -/
  | handle (worker : Nat) (s : Surroundings)
  /-- Others change the world. -/
  | change (world : World)

namespace Crew

/-- A pool that has just been started. -/
def opening (workers capacity batch : Nat) (world : World) : Crew where
  pool := .start workers capacity batch
  world := world

/-- The crew after a move that makes another pool of its pool. -/
def moved (c : Crew) (m : PoolMove) (q : Pool) : Crew :=
  { c with pool := q, sent := c.sent ++ (q.sent? m).toList, log := c.log ++ c.pool.noticed m }

/-- The crew after a worker has handled a document. -/
def answered (c : Crew) (i : Nat) (id : String) (h : Handled) (world : World) (q : Pool) : Crew :=
  { c with
    pool := q
    world := world
    answers := c.answers ++ [(i, id, h)]
    log := c.log ++ (.handle id :: (h.consequences id ++ [.showNone])).map (i, ·) }

@[simp] theorem moved_answers (c : Crew) (m : PoolMove) (q : Pool) :
    (c.moved m q).answers = c.answers := rfl

@[simp] theorem answered_sent (c : Crew) (i : Nat) (id : String) (h : Handled) (world : World)
    (q : Pool) : (c.answered i id h world q).sent = c.sent := rfl

/-- The crew after an event; `none` if that cannot happen now. -/
def step? (handler : DocumentHandler) (c : Crew) : CrewEvent → Option Crew
  | .move m => if m.ends then none else (c.pool.move? m).map (c.moved m)
  | .handle i s =>
    ((c.pool.workers[i]?).bind Worker.current?).bind fun id =>
      match handler.handle id s c.world with
      | (.ok h, world) =>
        (c.pool.move? (.finish i h.retryLater)).map (c.answered i id h world)
      | (.error _, _) => none
  | .change world => some { c with world := world }

/-- The crew after events in order; `none` if one of them cannot happen. -/
def run? (handler : DocumentHandler) (c : Crew) (events : List CrewEvent) : Option Crew :=
  events.foldlM (step? handler) c

/-- What an event makes of a crew. -/
inductive Steps (handler : DocumentHandler) (c : Crew) : CrewEvent → Crew → Prop
  | move {m : PoolMove} {q : Pool} (hends : m.ends = false) (hmove : c.pool.move? m = some q) :
      Steps handler c (.move m) (c.moved m q)
  | handle {i : Nat} {s : Surroundings} {queue : List String} {id : String} {h : Handled}
      {world : World} {q : Pool} (hw : c.pool.workers[i]? = some ⟨queue, .busy id⟩)
      (hhandle : handler.handle id s c.world = (.ok h, world))
      (hmove : c.pool.move? (.finish i h.retryLater) = some q) :
      Steps handler c (.handle i s) (c.answered i id h world q)
  | change (world : World) : Steps handler c (.change world) { c with world := world }

variable {handler : DocumentHandler} {c d : Crew} {e : CrewEvent} {i : Nat} {w w' : Worker}

theorem step?_eq_some : c.step? handler e = some d ↔ Steps handler c e d := by
  constructor
  · intro hstep
    cases e with
    | move m =>
        obtain ⟨hends, hstep⟩ := Option.ite_none_left_eq_some.mp hstep
        obtain ⟨q, hmove, rfl⟩ := Option.map_eq_some_iff.mp hstep
        exact .move (by simpa using hends) hmove
    | handle i s =>
        obtain ⟨id, hcurrent, hstep⟩ := Option.bind_eq_some_iff.mp hstep
        obtain ⟨⟨queue, phase⟩, hw, hid⟩ := Option.bind_eq_some_iff.mp hcurrent
        obtain rfl : phase = .busy id := by
          unfold Worker.current? at hid
          split at hid <;> cases hid
          assumption
        rcases hrun : handler.handle id s c.world with ⟨r, world⟩
        rw [hrun] at hstep
        cases r with
        | error i => cases hstep
        | ok h =>
            obtain ⟨q, hmove, rfl⟩ := Option.map_eq_some_iff.mp hstep
            exact .handle hw hrun hmove
    | change world =>
        cases hstep
        exact .change world
  · intro hsteps
    cases hsteps with
    | move hends hmove =>
        simp only [step?, hends, hmove, Bool.false_eq_true, if_false, Option.map_some]
    | @handle i s queue id h world q hw hhandle hmove =>
        have hcurrent : (⟨queue, .busy id⟩ : Worker).current? = some id := rfl
        simp only [step?, hw, Option.bind_some, hcurrent, hhandle, hmove, Option.map_some]
    | change world => rfl

/-- The documents that were sent to a worker are those that it has handled, the one at hand and
those in its queue; and what can be noticed of it is what it does with those that it has handled,
but for what it has begun or still owes. -/
structure Accounts (c : Crew) (i : Nat) (w : Worker) : Prop where
  sent : entriesOf i c.sent = (entriesOf i c.answers).map (·.1) ++ w.phase.atHand ++ w.queue
  log : entriesOf i c.log ++ w.phase.owing =
    workEffects (entriesOf i c.answers) ++ w.phase.begun

namespace Accounts

/-- What others do changes nothing but the queue. -/
theorem stay (h : c.Accounts i w) {more : List String}
    (hsent : entriesOf i d.sent = entriesOf i c.sent ++ more)
    (hanswers : entriesOf i d.answers = entriesOf i c.answers)
    (hlog : entriesOf i d.log = entriesOf i c.log) :
    d.Accounts i { w with queue := w.queue ++ more } where
  sent := by rw [hsent, hanswers, h.sent, List.append_assoc]
  log := by rw [hanswers, hlog, h.log]

/-- With a move of its own a worker does what it owes, or begins a document. -/
theorem own {m : PoolMove} {q : Pool} (h : c.Accounts i w) (hm : m.worker? = some i)
    (hends : m.ends = false) (hw : c.pool.workers[i]? = some w)
    (hgoes : w.Goes false i m w') : (c.moved m q).Accounts i w' := by
  have hsent : entriesOf i (c.moved m q).sent = entriesOf i c.sent := by
    rw [moved, Pool.sent?_of_worker hm, Option.toList_none, List.append_nil]
  have hlog : entriesOf i (c.moved m q).log = entriesOf i c.log ++ w.phase.next := by
    rw [moved, entriesOf_append, Pool.entriesOf_noticed_self hm hw]
  have hbefore := h.sent
  have hnoticed := h.log
  cases hgoes with
  | stay hother => exact absurd hm hother
  | finish => cases hends
  | stop hstop | quit hstop => cases hstop
  | check | take | present | release | report =>
      constructor
      · rw [hsent]
        simpa using hbefore
      · rw [hlog]
        simpa [WorkerPhase.next, WorkerPhase.owing, WorkerPhase.begun] using hnoticed

/-- A worker whose document has been handled, however that ended, owes the rest of what it does with
a document. -/
theorem handled {queue : List String} {id : String} {a : Handled} {world : World} {q : Pool}
    (h : c.Accounts i ⟨queue, .busy id⟩) :
    (c.answered i id a world q).Accounts i ⟨queue, .leaving id a.retryLater⟩ := by
  have hanswers : entriesOf i (c.answered i id a world q).answers =
      entriesOf i c.answers ++ [(id, a)] := by
    rw [answered, entriesOf_append, entriesOf_singleton, if_pos rfl]
  have hlog : entriesOf i (c.answered i id a world q).log = entriesOf i c.log ++
      .handle id :: (a.consequences id ++ [.showNone]) := by
    rw [answered, entriesOf_append, entriesOf_map_self]
  have hbefore : entriesOf i c.sent = (entriesOf i c.answers).map (·.1) ++ [id] ++ queue := h.sent
  have hnoticed : entriesOf i c.log ++ [] = workEffects (entriesOf i c.answers) ++
    [.showCurrent id] := h.log
  constructor
  · rw [answered_sent, hbefore, hanswers]
    simp
  · rw [List.append_nil] at hnoticed
    rw [hlog, hanswers, hnoticed, workEffects_concat, handlingEffects_eq]
    simp [WorkerPhase.owing, WorkerPhase.begun]

/-- With an event a worker goes on from one document to the next, or it is left as it is. -/
theorem step (h : c.Accounts i w) (hgo : c.pool.stopping = false)
    (hw : c.pool.workers[i]? = some w) (hsteps : Steps handler c e d) :
    ∃ w', d.pool.workers[i]? = some w' ∧ d.Accounts i w' := by
  cases hsteps with
  | @move m q hends hmove =>
      by_cases hm : m.worker? = some i
      · obtain ⟨w', hw', hgoes⟩ := Pool.goes_of_move hmove hw
        exact ⟨w', hw', h.own hm hends hw (hgo ▸ hgoes)⟩
      · refine ⟨_, Pool.worker_of_other hmove hw hm, h.stay (entriesOf_append _ _) rfl ?_⟩
        rw [moved, entriesOf_append, Pool.entriesOf_noticed_other hm, List.append_nil]
  | @handle k s queue id a world q hv hhandle hmove =>
      by_cases hk : k = i
      · subst hk
        obtain rfl := Option.some.inj (hw.symm.trans hv)
        obtain ⟨w', hw', hgoes⟩ := Pool.goes_of_move hmove hw
        cases hgoes with
        | stay hother => exact absurd rfl hother
        | finish => exact ⟨_, hw', h.handled⟩
      · have hm : (PoolMove.finish k a.retryLater).worker? ≠ some i := by
          simpa [PoolMove.worker?] using hk
        refine ⟨_, Pool.worker_of_other hmove hw hm, h.stay (List.append_nil _).symm ?_ ?_⟩
        · rw [answered, entriesOf_append, entriesOf_singleton, if_neg hk, List.append_nil]
        · rw [answered, entriesOf_append, entriesOf_map_other hk, List.append_nil]
  | change world => exact ⟨w, hw, h.sent, h.log⟩

end Accounts

/-- A worker shows the document that it is at, and none between two documents. -/
theorem Accounts.current_eq (h : c.Accounts i w) : w.current? = shownAfter (entriesOf i c.log) := by
  have hlog := congrArg shownAfter h.log
  rw [shownAfter_append, shownAfter_append, shownAfter_workEffects] at hlog
  obtain ⟨queue, phase⟩ := w
  cases phase <;> exact hlog.symm

/-! Whole runs. -/

theorem length_workers_of_steps (hsteps : Steps handler c e d) :
    d.pool.workers.length = c.pool.workers.length := by
  cases hsteps with
  | move _ hmove | handle _ _ hmove => exact Pool.length_workers_of_move hmove
  | change world => rfl

/-- A crew that was not told to stop, and in which every worker has accounted for its documents. -/
structure Orderly (handler : DocumentHandler) (c : Crew) : Prop where
  going : c.pool.stopping = false
  sound : ∃ n, c.pool.Sound n
  accounts : ∀ i w, c.pool.workers[i]? = some w → c.Accounts i w
  answers : ∀ e ∈ c.answers, ∃ s u v, handler.Handles e.2.1 s u e.2.2 v
  reports : c.pool.completions <:+ c.log.filterMap fun e => e.2.completed?

theorem orderly_opening (workers capacity batch : Nat) (world : World) :
    (opening workers capacity batch world).Orderly handler where
  going := rfl
  sound := ⟨_, Pool.sound_start workers capacity batch⟩
  accounts i w hw := by
    obtain rfl : w = {} := (List.mem_replicate.mp (List.mem_of_getElem? hw)).2
    exact ⟨rfl, rfl⟩
  answers := by simp [opening]
  reports := List.suffix_rfl

theorem Orderly.step (h : c.Orderly handler) (hsteps : Steps handler c e d)
    (he : e ≠ .move .askStop) : d.Orderly handler := by
  obtain ⟨n, hsound⟩ := h.sound
  have haccounts : ∀ i w', d.pool.workers[i]? = some w' → d.Accounts i w' := by
    intro i w' hw'
    obtain ⟨hi, -⟩ := List.getElem?_eq_some_iff.mp hw'
    rw [length_workers_of_steps hsteps] at hi
    have hw := List.getElem?_eq_getElem hi
    obtain ⟨w'', hw'', haccounts⟩ := (h.accounts i _ hw).step h.going hw hsteps
    exact Option.some.inj (hw''.symm.trans hw') ▸ haccounts
  cases hsteps with
  | @move m q hends hmove =>
      have hgoing := Pool.stopping_of_other_move hmove fun heq => he (congrArg _ heq)
      refine ⟨hgoing.trans h.going, ⟨n, hsound.move hmove⟩, haccounts, h.answers, ?_⟩
      rw [moved, List.filterMap_append]
      exact Pool.completions_of_move hmove h.reports
  | @handle k s queue id a world q hw hhandle hmove =>
      have hgoing := Pool.stopping_of_other_move hmove (by simp)
      refine ⟨hgoing.trans h.going, ⟨n, hsound.move hmove⟩, haccounts, ?_, ?_⟩
      · intro e he
        rcases List.mem_append.mp he with hold | hnew
        · exact h.answers e hold
        · obtain rfl := List.mem_singleton.mp hnew
          exact ⟨s, c.world, world, DocumentHandler.handle_eq_ok.mp hhandle⟩
      · -- To end the handling is no report, and what is noticed with it is none either.
        have hnone : c.pool.noticed (.finish k a.retryLater) = [] := by
          simp [Pool.noticed, PoolMove.worker?, hw, WorkerPhase.next]
        have hsilent : ((WorkerEffect.handle id :: (a.consequences id ++ [.showNone])).map
            (k, ·)).filterMap (fun e => e.2.completed?) = [] := by
          cases a <;> rfl
        have hreports := Pool.completions_of_move hmove h.reports
        rw [hnone, List.filterMap_nil, List.append_nil] at hreports
        rwa [answered, List.filterMap_append, hsilent, List.append_nil]
  | change world => exact ⟨h.going, ⟨n, hsound⟩, haccounts, h.answers, h.reports⟩

theorem Orderly.run {events : List CrewEvent} (h : c.Orderly handler)
    (hrun : c.run? handler events = some d) (hgo : .move .askStop ∉ events) :
    d.Orderly handler := by
  induction events generalizing c with
  | nil =>
      cases hrun
      exact h
  | cons e rest ih =>
      obtain ⟨b, hstep, hlater⟩ := Option.bind_eq_some_iff.mp hrun
      obtain ⟨he, hrest⟩ : .move .askStop ≠ e ∧ .move .askStop ∉ rest := by simpa using hgo
      exact ih (h.step (step?_eq_some.mp hstep) he.symm) hlater hrest

theorem length_workers_of_run {events : List CrewEvent} (hrun : c.run? handler events = some d) :
    d.pool.workers.length = c.pool.workers.length := by
  induction events generalizing c with
  | nil =>
      cases hrun
      rfl
  | cons e rest ih =>
      obtain ⟨b, hstep, hlater⟩ := Option.bind_eq_some_iff.mp hrun
      exact (ih hlater).trans (length_workers_of_steps (step?_eq_some.mp hstep))

/-- Whatever is claimed is in a queue or at hand. -/
theorem Orderly.claimed (h : c.Orderly handler) {id : String} (hid : id ∈ c.pool.claims) :
    ∃ v ∈ c.pool.workers, id ∈ v.held := by
  obtain ⟨n, hsound⟩ := h.sound
  have hpledged : id ∈ c.pool.pledged := by
    unfold Pool.pledged
    split
    · exact List.mem_cons_of_mem _ hid
    · exact hid
  exact List.mem_flatMap.mp (hsound.held_of_pledged (hsound.whole h.going) id hpledged)

/-! Going on. -/

/-- A crew can come to another state without being told to stop. -/
def Leads (handler : DocumentHandler) (c d : Crew) : Prop :=
  ∃ events, c.run? handler events = some d ∧ .move .askStop ∉ events

theorem Leads.refl (c : Crew) : Leads handler c c := ⟨[], rfl, by simp⟩

theorem Leads.head {b : Crew} (he : e ≠ .move .askStop) (hsteps : Steps handler c e b)
    (h : Leads handler b d) : Leads handler c d := by
  obtain ⟨events, hrun, hgo⟩ := h
  refine ⟨e :: events, ?_, by simp [he.symm, hgo]⟩
  exact Option.bind_eq_some_iff.mpr ⟨b, step?_eq_some.mpr hsteps, hrun⟩

theorem Leads.trans {b : Crew} (h : Leads handler c b) (h' : Leads handler b d) :
    Leads handler c d := by
  obtain ⟨events, hrun, hgo⟩ := h
  obtain ⟨events', hrun', hgo'⟩ := h'
  refine ⟨events ++ events', ?_, by simp [hgo, hgo']⟩
  rw [run?, List.foldlM_append]
  exact Option.bind_eq_some_iff.mpr ⟨b, hrun, hrun'⟩

/-- A dispatch that is under way can always come to its end. -/
theorem exists_unlocked (handler : DocumentHandler) (c : Crew) :
    ∃ d, Leads handler c d ∧ d.pool.dispatching = none := by
  cases hlock : c.pool.dispatching with
  | none => exact ⟨c, .refl c, hlock⟩
  | some dispatching =>
      obtain ⟨m, q, hends, hstop, hmove, hless⟩ := c.pool.exists_unlocking hlock
      obtain ⟨d, hleads, hfree⟩ := exists_unlocked handler (c.moved m q)
      exact ⟨d, hleads.head (by simpa using hstop) (.move hends hmove), hfree⟩
termination_by c.pool.unlockSteps

/-- How many moves a worker has before it until it waits for documents and its queue is empty. -/
def toGo (w : Worker) : Nat :=
  6 * w.queue.length + match w.phase with
    | .received _ => 5
    | .busy _ => 4
    | .leaving _ _ => 3
    | .freed _ _ => 2
    | .resting => 1
    | .willing | .ended => 0

theorem toGo_of_goes {m : PoolMove} (hgoes : w.Goes false i m w') (hm : m.worker? = some i) :
    toGo w' < toGo w := by
  cases hgoes with
  | stay hother => exact absurd hm hother
  | stop hstop | quit hstop => cases hstop
  | check | take | present | finish | release | report => simp [toGo] <;> omega

/-- A worker whose handler returns goes on, unless it waits for documents and there is none. -/
theorem exists_next {s : Surroundings} (hreturns : handler.ReturnsIn s) (h : c.Orderly handler)
    (hfree : c.pool.dispatching = none) (hw : c.pool.workers[i]? = some w)
    (hidle : w ≠ ⟨[], .willing⟩) :
    ∃ e d w', e ≠ .move .askStop ∧ Steps handler c e d ∧ d.pool.dispatching = none ∧
      d.pool.workers[i]? = some w' ∧ toGo w' < toGo w := by
  have hended : w.phase ≠ .ended := by
    obtain ⟨n, hsound⟩ := h.sound
    exact hsound.whole h.going w (List.mem_of_getElem? hw)
  -- Whatever the worker does, it gets closer to its rest and leaves the lock alone.
  have hcloser : ∀ {m : PoolMove} {q : Pool}, c.pool.move? m = some q → m.worker? = some i →
      q.dispatching = none ∧ ∃ w', q.workers[i]? = some w' ∧ toGo w' < toGo w := by
    intro m q hmove hm
    obtain ⟨w', hw', hgoes⟩ := Pool.goes_of_move hmove hw
    rw [h.going] at hgoes
    rw [Pool.move?_of_worker hm] at hmove
    obtain ⟨v, -, hmove⟩ := Option.bind_eq_some_iff.mp hmove
    obtain ⟨-, -, hlock, -⟩ := Pool.workerMove_spec hmove
    exact ⟨hlock.trans hfree, w', hw', toGo_of_goes hgoes hm⟩
  obtain ⟨queue, phase⟩ := w
  by_cases hbusy : ∃ id, phase = .busy id
  · obtain ⟨id, rfl⟩ := hbusy
    obtain ⟨a, world, hhandle⟩ := hreturns.handle id c.world
    obtain ⟨q, hmove⟩ : ∃ q, c.pool.move? (.finish i a.retryLater) = some q :=
      ⟨_, by simp only [Pool.move?, hw]; rfl⟩
    obtain ⟨hlock, w', hw', hless⟩ := hcloser hmove rfl
    exact ⟨_, _, w', by simp, .handle hw hhandle hmove, hlock, hw', hless⟩
  · obtain ⟨m, q, hends, hm, hmove⟩ := Pool.exists_own hfree hw
      (fun id hid => hbusy ⟨id, hid⟩) hended hidle
    obtain ⟨hlock, w', hw', hless⟩ := hcloser hmove hm
    refine ⟨_, _, w', ?_, .move hends hmove, hlock, hw', hless⟩
    rintro heq
    cases heq
    cases hm

/-- A worker whose handler returns can always come to the end of its queue. -/
theorem exists_idle {s : Surroundings} (hreturns : handler.ReturnsIn s) (h : c.Orderly handler)
    (hfree : c.pool.dispatching = none) (hw : c.pool.workers[i]? = some w) :
    ∃ d, Leads handler c d ∧ d.pool.workers[i]? = some ⟨[], .willing⟩ := by
  induction hn : toGo w using Nat.strong_induction_on generalizing c w with
  | _ n ih =>
      by_cases hidle : w = ⟨[], .willing⟩
      · exact ⟨c, .refl c, hidle ▸ hw⟩
      · obtain ⟨e, b, w', he, hsteps, hlock, hw', hless⟩ := exists_next hreturns h hfree hw hidle
        obtain ⟨d, hleads, hd⟩ := ih _ (hn ▸ hless) (h.step hsteps he) hlock hw' rfl
        exact ⟨d, hleads.head he hsteps, hd⟩

/-! What a worker makes of the documents that are sent to it. -/

section

variable {α : Type} {f : WorkerEffect → Option α}

/-- What is noticed while documents are handled is, document by document, what follows from how that
ended. -/
theorem Accounts.filterMap_log (h : c.Accounts i w) {g : String × Handled → Option α}
    (hshow : ∀ id, f (.showCurrent id) = none) (hrelease : ∀ id, f (.release id) = none)
    (hcomplete : ∀ id later, f (.complete id later) = none)
    (hfg : ∀ a : String × Handled, (handlingEffects a.1 a.2).filterMap f = (g a).toList) :
    (entriesOf i c.log).filterMap f = (entriesOf i c.answers).filterMap g := by
  have hbegun : w.phase.begun.filterMap f = [] := by
    cases w.phase <;> simp [WorkerPhase.begun, hshow]
  have howing : w.phase.owing.filterMap f = [] := by
    cases w.phase <;> simp [WorkerPhase.owing, hrelease, hcomplete]
  have hanswers : (workEffects (entriesOf i c.answers)).filterMap f =
      (entriesOf i c.answers).filterMap g := by
    rw [workEffects, List.filterMap_flatMap, List.filterMap_eq_flatMap_toList]
    exact congrArg (List.flatMap · _) (funext hfg)
  have hlog := congrArg (List.filterMap f) h.log
  rwa [List.filterMap_append, List.filterMap_append, hbegun, howing, List.append_nil,
    List.append_nil, hanswers] at hlog

end

/-- What is given back, or still owed, is the claim of each document and then its report. -/
theorem Accounts.filter_log (h : c.Accounts i w) :
    (entriesOf i c.log).filter (·.returns) ++ w.phase.owing =
      (entriesOf i c.answers).flatMap fun a =>
        [.release a.1, .complete a.1 (decide (a.2 ≠ .outcome .completed))] := by
  have hbegun : w.phase.begun.filter (·.returns) = [] := by cases w.phase <;> rfl
  have howing : w.phase.owing.filter (·.returns) = w.phase.owing := by cases w.phase <;> rfl
  have hanswer : ∀ a : String × Handled, (handlingEffects a.1 a.2).filter (·.returns) =
      [.release a.1, .complete a.1 (decide (a.2 ≠ .outcome .completed))] := by
    intro a
    rw [← a.2.retryLater_eq]
    cases a.2 <;> rfl
  have hanswers : (workEffects (entriesOf i c.answers)).filter (·.returns) =
      (entriesOf i c.answers).flatMap fun a =>
        [.release a.1, .complete a.1 (decide (a.2 ≠ .outcome .completed))] := by
    rw [workEffects, List.filter_flatMap]
    exact congrArg (List.flatMap · _) (funext hanswer)
  have hlog := congrArg (List.filter (·.returns)) h.log
  rwa [List.filter_append, List.filter_append, hbegun, howing, List.append_nil, hanswers] at hlog

/-- However the handling of its documents ends, a worker goes through all that are sent to it.  In a
run in which nobody tells the pool to stop, the documents that were sent to a worker are those that
it has handled, in this order, the one that it has at hand and those in its queue.  What it has done
and still owes is, document by document, what a worker does when the handling ends as it did, and
what it has begun.  So it has handled each document once; it has published a fault and quarantined
exactly those whose handling panicked, for the same reason; it gives back each claim and then
reports the document, to be retried later unless it was completed; and it shows a document only
while it is at it.  Claims are held only on documents in the pool, the reports that are not read yet
are the last ones sent, and where every handling returns, the worker can come to the end of its
queue. -/
theorem each_delivery_handled {workers capacity batch : Nat} {world : World}
    {events : List CrewEvent}
    (hrun : (opening workers capacity batch world).run? handler events = some c)
    (hgo : .move .askStop ∉ events) (hw : c.pool.workers[i]? = some w) :
    let answers := entriesOf i c.answers
    let log := entriesOf i c.log
    entriesOf i c.sent = answers.map (·.1) ++ w.phase.atHand ++ w.queue ∧
    (∀ a ∈ answers, ∃ s u v, handler.Handles a.1 s u a.2 v) ∧
    log ++ w.phase.owing = workEffects answers ++ w.phase.begun ∧
    log.filterMap (·.handled?) = answers.map (·.1) ∧
    log.filterMap (·.quarantined?) = answers.filterMap (fun a => a.2.fault?.map (a.1, ·)) ∧
    log.filterMap (·.published?) =
      answers.filterMap (fun a => a.2.fault?.map (.documentFailed a.1 ·)) ∧
    log.filter (·.returns) ++ w.phase.owing = answers.flatMap (fun a =>
      [.release a.1, .complete a.1 (decide (a.2 ≠ .outcome .completed))]) ∧
    w.current? = shownAfter log ∧
    (∀ id ∈ c.pool.claims, ∃ v ∈ c.pool.workers, id ∈ v.held) ∧
    (c.pool.completions <:+ c.log.filterMap fun e => e.2.completed?) ∧
    ∀ s, handler.ReturnsIn s →
      ∃ d, Leads handler c d ∧ d.pool.workers[i]? = some ⟨[], .willing⟩ := by
  have horderly := (orderly_opening workers capacity batch world).run hrun hgo
  have haccounts := horderly.accounts i w hw
  refine ⟨haccounts.sent, fun a ha => horderly.answers _ (mem_entriesOf.mp ha), haccounts.log, ?_,
    ?_, ?_, haccounts.filter_log, haccounts.current_eq, fun _ => horderly.claimed, horderly.reports,
    fun s hreturns => ?_⟩
  · rw [← List.filterMap_eq_map]
    exact haccounts.filterMap_log (fun _ => rfl) (fun _ => rfl) (fun _ _ => rfl) fun a => by
      cases a.2 <;> rfl
  · exact haccounts.filterMap_log (fun _ => rfl) (fun _ => rfl) (fun _ _ => rfl) fun a => by
      cases a.2 <;> rfl
  · exact haccounts.filterMap_log (fun _ => rfl) (fun _ => rfl) (fun _ _ => rfl) fun a => by
      cases a.2 <;> rfl
  · obtain ⟨hi, -⟩ := List.getElem?_eq_some_iff.mp hw
    obtain ⟨b, ⟨more, hmore, hgo'⟩, hfree⟩ := exists_unlocked handler c
    rw [← length_workers_of_run hmore] at hi
    obtain ⟨d, hleads, hd⟩ :=
      exists_idle hreturns (horderly.run hmore hgo') hfree (List.getElem?_eq_getElem hi)
    exact ⟨d, .trans ⟨more, hmore, hgo'⟩ hleads, hd⟩

/-- A handler that one document makes panic. The store refuses to take it out of processing. -/
def touchy : DocumentHandler where
  process id := if id = "b" then Act.interrupt (.panic (.text "boom")) else return .completed
  quarantine _ _ := Act.fail (.store (.corrupt "locked"))

/-- One worker gets three documents, and handles them. -/
def touchyRun : List CrewEvent :=
  let hand (id : String) : List CrewEvent :=
    [.move (.claim id), .move .look, .move .send, .move .record]
  let attend : List CrewEvent := [.move (.check 0), .move (.take 0), .move (.present 0),
    .handle 0 .bare, .move (.release 0), .move (.report 0)]
  hand "a" ++ hand "b" ++ attend ++ hand "c" ++ attend ++ attend ++ [.move (.check 0)]

/-- The second document is quarantined and reported, and the third one is handled all the same. -/
theorem each_delivery_handled_touchy :
    ∃ c, (opening 1 3 1 (.stray [])).run? touchy touchyRun = some c ∧
      entriesOf 0 c.sent = ["a", "b", "c"] ∧
      (entriesOf 0 c.log).filterMap (·.handled?) = ["a", "b", "c"] ∧
      (entriesOf 0 c.log).filterMap (·.quarantined?) = [("b", "panic while processing: boom")] ∧
      (entriesOf 0 c.log).filter (·.returns) = [.release "a", .complete "a" false, .release "b",
        .complete "b" true, .release "c", .complete "c" false] := by
  have hend : ((opening 1 3 1 (.stray [])).run? touchy touchyRun).map (fun c =>
      (c.pool.workers[0]?, entriesOf 0 c.sent, entriesOf 0 c.answers)) =
      some (some ⟨[], .willing⟩, ["a", "b", "c"], [("a", .outcome .completed),
        ("b", .panicked (.text "boom")), ("c", .outcome .completed)]) := by decide +kernel
  obtain ⟨c, hrun, hshown⟩ := Option.map_eq_some_iff.mp hend
  simp only [Prod.mk.injEq] at hshown
  obtain ⟨hw, hsent, hanswers⟩ := hshown
  obtain ⟨-, -, -, hhandled, hquarantined, -, hreturned, -⟩ :=
    each_delivery_handled hrun (by simp [touchyRun]) hw
  rw [hanswers] at hhandled hquarantined hreturned
  exact ⟨c, hrun, hsent, hhandled, hquarantined, (List.append_nil _).symm.trans hreturned⟩

end Crew

end Docket
