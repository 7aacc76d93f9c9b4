import Docket.Proofs.Chronology
import Docket.Proofs.Mishaps
import Docket.Proofs.Readiness
import Docket.Proofs.Retrying

/-!
The rows of the jobs of a document during a pass with which nobody interferes, and what is left of
them where the end of a step cannot be noted: the step and those behind it wait.
-/

namespace Docket

open Docket.Calendar (Instant)

/-! The rows of the jobs. -/

/-- A row that waits again after it was begun. -/
def JobRow.renewed (r : JobRow) : JobRow :=
  { r with status := JobStatus.pending.name, startedAt := none, stoppedAt := none }

theorem JobRow.renewed_keepsKey : JobRow.KeepsKey JobRow.renewed := fun _ => ⟨rfl, rfl⟩

theorem JobRow.exists_read_renewed {r : JobRow} {b : Job} (h : r.read = .ok b) :
    ∃ b', r.renewed.read = .ok b' := by
  obtain ⟨step, hstep, h⟩ := exists_of_bind_ok h
  obtain ⟨_, -, h⟩ := exists_of_bind_ok h
  obtain ⟨createdAt, hcreated, -⟩ := exists_of_bind_ok h
  refine ⟨⟨r.documentId, step, .pending, r.message, createdAt, none, none⟩, ?_⟩
  have hstatus : readNamed 2 JobStatus.ofName? JobStatus.unknownMessage JobStatus.pending.name =
      .ok JobStatus.pending := rfl
  unfold JobRow.read JobRow.renewed
  simp only [hstep, hcreated, hstatus]
  rfl

theorem exists_of_mem_mapM {ε α β : Type} {f : α → Except ε β} {as : List α} {bs : List β}
    (h : as.mapM f = .ok bs) {a : α} (ha : a ∈ as) : ∃ b, f a = .ok b := by
  have hall := Store.forall₂_of_mapM h
  clear h
  induction hall with
  | nil => cases ha
  | cons hab _ ih =>
      rcases List.mem_cons.mp ha with rfl | ha
      · exact ⟨_, hab⟩
      · exact ih ha

namespace Store

variable {st st' : Store} {id : String} {t : Step} {jobs : List Job} {earlier later : List Step}

theorem exists_read_of_pending (h : st.pendingJobs id = .ok jobs) {r : JobRow}
    (hr : r ∈ st.jobsFor id) (hpending : r.isPending = true) : ∃ b, r.read = .ok b := by
  unfold pendingJobs at h
  rw [pendingRows_eq] at h
  obtain ⟨unsorted, hread, -⟩ := exists_of_bind_ok h
  refine exists_of_mem_mapM hread ((List.mergeSort_perm _ _).mem_iff.mpr ?_)
  exact List.mem_filter.mpr ⟨hr, hpending⟩

/-- The rows of a document after some of its waiting steps are through, and one waits again. -/
def leftRows (st : Store) (id : String) (t : Step) (earlier : List Step) : List JobRow :=
  JobRow.changeAt id t JobRow.renewed
    ((st.jobsFor id).filter fun r => earlier.all (!r.isFor id ·))

section

variable (hkeyed : st.Keyed) (hjobs : st.pendingJobs id = .ok jobs)
  (hsplit : jobs.map (·.step) = earlier ++ t :: later)

include hkeyed hjobs hsplit

/-- Of these the rows of the steps that were not through wait, and no others. -/
theorem isPending_leftRows {r : JobRow} (hr : r ∈ st.leftRows id t earlier) :
    r.isPending = true ↔ ∃ u ∈ t :: later, r.isFor id u = true := by
  obtain ⟨row, hrow, rfl⟩ := List.mem_map.mp hr
  obtain ⟨hrow, hnot⟩ := List.mem_filter.mp hrow
  cases hfor : row.isFor id t with
  | true =>
      simp only [↓reduceIte]
      refine ⟨fun _ => ⟨t, List.mem_cons_self, ?_⟩, fun _ => decide_eq_true rfl⟩
      rw [JobRow.renewed_keepsKey.isFor, hfor]
  | false =>
      simp only [Bool.false_eq_true, ↓reduceIte]
      rw [isPending_iff hkeyed hjobs hrow, hsplit]
      constructor
      · rintro ⟨u, hu, hru⟩
        refine ⟨u, (List.mem_append.mp hu).resolve_left fun hmem => ?_, hru⟩
        have hother := List.all_eq_true.mp hnot u hmem
        rw [hru] at hother
        cases hother
      · rintro ⟨u, hu, hru⟩
        exact ⟨u, List.mem_append_right _ hu, hru⟩

theorem exists_read_leftRows {r : JobRow} (hr : r ∈ st.leftRows id t earlier)
    (hpending : r.isPending = true) : ∃ b, r.read = .ok b := by
  obtain ⟨u, hu, hru⟩ := (isPending_leftRows hkeyed hjobs hsplit hr).mp hpending
  obtain ⟨row, hrow, rfl⟩ := List.mem_map.mp hr
  have hrow := (List.mem_filter.mp hrow).1
  have hrowFor : row.isFor id u = true := by
    split at hru
    · rwa [JobRow.renewed_keepsKey.isFor] at hru
    · exact hru
  have hwaits : u ∈ jobs.map (·.step) := by
    rw [hsplit]
    exact List.mem_append_right _ hu
  obtain ⟨b, hb⟩ := exists_read_of_pending hjobs hrow
    ((isPending_iff hkeyed hjobs hrow).mpr ⟨u, hwaits, hrowFor⟩)
  split
  · exact JobRow.exists_read_renewed hb
  · exact ⟨b, hb⟩

/-- A step was not through if one of these rows waits for it. -/
theorem mem_left_iff {u : Step} :
    u ∈ t :: later ↔ ∃ r ∈ st.leftRows id t earlier, r.isPending ∧ r.isFor id u := by
  constructor
  · intro hu
    have hincreasing := pendingSteps_increasing hkeyed hjobs
    rw [hsplit, List.pairwise_append] at hincreasing
    have hwaits : u ∈ jobs.map (·.step) := by
      rw [hsplit]
      exact List.mem_append_right _ hu
    obtain ⟨row, hrow, -, hrowFor⟩ := (mem_pendingSteps hjobs).mp hwaits
    have hkept : row ∈ (st.jobsFor id).filter fun r => earlier.all (!r.isFor id ·) := by
      refine List.mem_filter.mpr ⟨hrow, List.all_eq_true.mpr fun v hv => ?_⟩
      cases hother : row.isFor id v with
      | false => rfl
      | true =>
          have hlt := hincreasing.2.2 v hv u hu
          rw [JobRow.step_unique hother hrowFor] at hlt
          exact absurd hlt (Nat.lt_irrefl _)
    have hmem : (if row.isFor id t then row.renewed else row) ∈ st.leftRows id t earlier :=
      List.mem_map_of_mem hkept
    have hfor : (if row.isFor id t then row.renewed else row).isFor id u = true := by
      split
      · rwa [JobRow.renewed_keepsKey.isFor]
      · exact hrowFor
    exact ⟨_, hmem, (isPending_leftRows hkeyed hjobs hsplit hmem).mpr ⟨u, hu, hfor⟩, hfor⟩
  · rintro ⟨r, hr, hpending, hru⟩
    obtain ⟨v, hv, hrv⟩ := (isPending_leftRows hkeyed hjobs hsplit hr).mp hpending
    rwa [JobRow.step_unique hru hrv]

/-- The steps that were not through are read as those that wait. -/
theorem pendingJobs_leftRows (hrows : st'.jobsFor id = st.leftRows id t earlier) :
    ∃ jobs', st'.pendingJobs id = .ok jobs' ∧ jobs'.map (·.step) = t :: later := by
  have hincreasing := pendingSteps_increasing hkeyed hjobs
  rw [hsplit, List.pairwise_append] at hincreasing
  let alone : Store := { jobs := st.leftRows id t earlier }
  have halone : alone.jobsFor id = st.leftRows id t earlier := by
    refine List.filter_eq_self.mpr fun r hr => ?_
    obtain ⟨row, hrow, rfl⟩ := List.mem_map.mp hr
    have hid := (mem_jobsFor.mp (List.mem_filter.mp hrow).1).2
    split
    · exact decide_eq_true hid
    · exact decide_eq_true hid
  have hkeyed' : alone.Keyed := by
    refine List.pairwise_map.mpr ?_
    refine (hkeyed.sublist (List.filter_sublist.trans List.filter_sublist)).imp ?_
    intro a b hne hsame
    apply hne
    split at hsame <;> split at hsame <;> exact hsame
  rw [pendingJobs_congr (hrows.trans halone.symm)]
  obtain ⟨jobs', hjobs'⟩ : ∃ jobs', alone.pendingJobs id = .ok jobs' := by
    unfold pendingJobs
    rw [pendingRows_eq, halone]
    refine readJobs_ok fun r hr => ?_
    obtain ⟨hr, hpending⟩ := List.mem_filter.mp hr
    exact exists_read_leftRows hkeyed hjobs hsplit hr hpending
  refine ⟨jobs', hjobs', pendingSteps_eq hkeyed' hjobs' hincreasing.2.1 fun u => ?_⟩
  rw [halone]
  exact mem_left_iff hkeyed hjobs hsplit

theorem not_pending_leftRows (hrows : st'.jobsFor id = st.leftRows id t earlier) :
    ∀ r ∈ (st'.jobsFor id).filter fun r => (t :: later).all (!r.isFor id ·),
      r.isPending = false := by
  intro r hr
  obtain ⟨hr, hnot⟩ := List.mem_filter.mp hr
  rw [hrows] at hr
  cases hpending : r.isPending with
  | false => rfl
  | true =>
      obtain ⟨u, hu, hfor⟩ := (isPending_leftRows hkeyed hjobs hsplit hr).mp hpending
      have hother := List.all_eq_true.mp hnot u hu
      rw [hfor] at hother
      cases hother

end

end Store

/-- However the end of a step could not be noted, its row waits again and nothing else of the
document's rows has changed, if no other step of it was running. -/
theorem Mishap.jobsFor_leave {st : Store} {id : String} {t : Step} {now : Instant}
    {rows : List JobRow} (how : Mishap)
    (hidle : how = .stop → ∀ r ∈ rows, r.status ≠ JobStatus.running.name)
    (hrows : st.jobsFor id = JobRow.changeAt id t (.started now) rows) :
    (how.leave id t st).jobsFor id = JobRow.changeAt id t JobRow.renewed rows := by
  have hstarted : JobRow.KeepsKey (JobRow.started now) := fun _ => ⟨rfl, rfl⟩
  cases how with
  | refusal e =>
      have hrequeued : JobRow.KeepsKey JobRow.requeued := fun _ => ⟨rfl, rfl⟩
      change (st.changeJob id t JobRow.requeued).jobsFor id = _
      rw [Store.jobsFor_changeJob hrequeued, hrows, JobRow.changeAt_changeAt hstarted]
      rfl
  | stop =>
      have hidle := hidle rfl
      change st.resetRunning.2.jobsFor id = _
      have hreset : st.resetRunning.2.jobsFor id = (st.jobsFor id).map fun r =>
          if r.status = JobStatus.running.name then r.requeued else r := by
        simp only [Store.jobsFor, Store.resetRunning, List.filter_map, decide_eq_true_eq]
        congr 1
        apply List.filter_congr
        intro r _
        simp only [Function.comp]
        split <;> rfl
      rw [hreset, hrows]
      simp only [JobRow.changeAt, List.map_map]
      apply List.map_congr_left
      intro r hr
      simp only [Function.comp]
      split
      · rfl
      · exact if_neg (hidle r hr)

/-- What goes wrong changes nothing but jobs. -/
theorem Mishap.leave_jobs (how : Mishap) (id : String) (t : Step) (st : Store) :
    ∃ jobs, how.leave id t st = { st with jobs := jobs } := by
  cases how with
  | refusal e => exact ⟨_, rfl⟩
  | stop => exact ⟨_, rfl⟩

/-! The rows during a pass. -/

theorem Registry.ActsBuiltin.keepsIdentity {r : Registry} (hr : r.ActsBuiltin) :
    r.KeepsIdentity :=
  fun a d d' h => builtin_keepsIdentity a d d' (hr.apply_ok h)

theorem Surroundings.Quiet.calm {s : Surroundings} (hquiet : s.Quiet) (id : String) :
    s.Calm id where
  goes := hquiet.goes
  heeds past c _ := hquiet.heeds past c
  spares past st := by rw [hquiet.alone]
  status past st := by rw [hquiet.alone]

namespace Pass

variable {s : Surroundings} {id : String} {t : Step} {started steps : List Step}
  {rows : List JobRow} {status : DocumentStatus} {desk desk' : Desk} {handler : Handler}
  {handlers : Step → Handler}

/-- While a step is at work its row says that it was started. -/
theorem ended_standing (hcalm : s.Calm id) (hhandler : handler.Minds s (Document.Is id status))
    (hdesk : Desk.Has (Document.Is id status) (Standing id started rows status) desk)
    {began : Desk} (hbegin : begin id t s desk = (.ok (), began)) :
    ∃ now, Desk.Has (Document.Is id status) (Standing id (started ++ [t])
      (JobRow.changeAt id t (.started now) rows) status) (handler s began).2 := by
  obtain ⟨desk₁, hbegin', now, hbegun⟩ := begin_of_calm (t := t) hcalm hdesk
  rw [hbegin] at hbegin'
  cases hbegin'
  exact ⟨now, (hhandler _ hcalm.maintains_standing began hbegun).1⟩

theorem runStep_standing (hcalm : s.Calm id) (hhandler : handler.Minds s (Document.Is id status))
    (hdesk : Desk.Has (Document.Is id status) (Standing id started rows status) desk)
    (h : runStep handler id t s desk = (.ok none, desk')) :
    Desk.Has (Document.Is id status)
      (Standing id (started ++ [t]) (rows.filter (!·.isFor id t)) status) desk' := by
  obtain ⟨_, began, hbegin, hrest⟩ := Act.exists_of_bind_ok h
  obtain ⟨r, ended, hattempt, -⟩ := Act.exists_of_bind_ok hrest
  have hresult : ∀ desk₁, begin id t s desk = (.ok (), desk₁) →
      (handler s desk₁).1 = r.mapError .error := by
    intro desk₁ hbegin'
    rw [hbegin] at hbegin'
    cases hbegin'
    rw [Act.attempt_eq_ok.mp hattempt]
  obtain ⟨desk₁, hstep, time, hsettled⟩ := runStep_of_calm hcalm hhandler hdesk hresult
  rw [h] at hstep
  obtain ⟨hgoes, rfl⟩ := Prod.mk.inj hstep
  rw [← Except.ok.inj hgoes] at hsettled
  exact hsettled

/-- After steps from all of which the pass goes on, their rows are gone. -/
theorem runSteps_standing (hcalm : s.Calm id)
    (hhandlers : ∀ t, (handlers t).Minds s (Document.Is id status))
    (hdesk : Desk.Has (Document.Is id status) (Standing id started rows status) desk)
    (h : runSteps handlers id steps s desk = (.ok none, desk')) :
    Desk.Has (Document.Is id status)
      (Standing id (started ++ steps) (rows.filter fun r => steps.all (!r.isFor id ·)) status)
      desk' := by
  induction steps generalizing desk started rows with
  | nil =>
      cases h
      simpa using hdesk
  | cons t rest ih =>
      obtain ⟨answer, desk₁, hstep, hrest⟩ := Act.exists_of_bind_ok h
      cases answer with
      | some reason => cases hrest
      | none =>
          have hlast := ih (runStep_standing hcalm (hhandlers t) hdesk hstep) hrest
          have hrows : ((rows.filter (!·.isFor id t)).filter fun r =>
              rest.all (!r.isFor id ·)) = rows.filter fun r => (t :: rest).all (!r.isFor id ·) := by
            rw [List.filter_filter]
            refine List.filter_congr fun r _ => ?_
            rw [List.all_cons, Bool.and_comm]
          rwa [hrows, List.append_assoc] at hlast

/-- A document none of whose rows waits is called ready, and nothing else changes. -/
theorem settle_of_quiet (hquiet : s.Quiet) {w : World} (hjobs : w.store.pendingJobs id = .ok [])
    (hdoc : w.store.hasDocument id = true) :
    ∃ w' now, settle id s w = (.ok (), w') ∧
      w'.store = (w.store.setStatus id .ready now).2 := by
  have hcalm := hquiet.calm id
  have hpending : pending id s w = (.ok [], w.next s (.call (.pendingSteps id))) :=
    ask_of_calm hcalm rfl (fun _ _ => rfl) (by rw [hquiet.alone, hjobs]; rfl)
  let asked := w.next s (.call (.pendingSteps id))
  have hasked : asked.store = w.store :=
    (hcalm.after_eq (c := .pendingSteps id) rfl rfl).trans (hquiet.alone _ _)
  have hperform : (StoreCall.setStatus id .ready).perform (s.clock asked.moments)
      (s.others asked.moments asked.store) =
        .ok (w.store.setStatus id .ready (s.clock asked.moments)).2 := by
    rw [hquiet.alone, hasked]
    exact orNoDocument_changeDocument _ hdoc
  refine ⟨_, s.clock asked.moments, (Act.bind_of_ok hpending).trans
    (hcalm.tell_eq (w := asked) (c := .setStatus id .ready) rfl hperform), ?_⟩
  exact hcalm.after_eq (c := .setStatus id .ready) rfl hperform

/-- A pass from all of whose steps it goes on is completed, and calls its document ready. -/
theorem process_of_steps (hquiet : s.Quiet) (hregistry : s.registry.KeepsIdentity)
    {w w₁ w₂ w₃ : World} {d : Document} {last : Desk} (hd : d.id = id)
    (hget : Act.ask (.getDocument id) (·.getDocument id) s w = (.ok d, w₁))
    (hpending : pending id s w₁ = (.ok steps, w₂)) (hopen : openScratch s w₂ = (.ok (), w₃))
    (hw₃ : World.Has (Standing id started rows d.status) w₃)
    (hrun : runSteps (Handler.ofStep s.scratch) id steps s ⟨w₃, d⟩ = (.ok none, last))
    (hdone : ∀ r ∈ rows.filter fun r => steps.all (!r.isFor id ·), r.isPending = false) :
    (process id s w).1 = .ok .completed ∧
      last.world.store.statusOf? id = some d.status.name ∧
      ∃ now, (process id s w).2.store = (last.world.store.setStatus id .ready now).2 := by
  have hminds : ∀ t, (Handler.ofStep s.scratch t).Minds s (Document.Is id d.status) :=
    fun t => Handler.ofStep_minds (hregistry.lasting id d.status) _ t
  have hstands := (runSteps_standing (hquiet.calm id) hminds ⟨⟨hd, rfl⟩, hw₃⟩ hrun).2
  have hnone : (last.world.store.jobsFor id).filter (·.isPending) = [] := by
    rw [hstands.rows]
    exact List.filter_eq_nil_iff.mpr fun r hr => by simp [hdone r hr]
  have hjobs : last.world.store.pendingJobs id = .ok [] := by
    rw [Store.pendingJobs, Store.pendingRows_eq, hnone, Store.readJobs_nil]
  obtain ⟨w', now, hsettle, hstore⟩ :=
    settle_of_quiet hquiet hjobs (Store.hasDocument_of_statusOf? hstands.status)
  have hwith : runWith (Handler.ofStep s.scratch) d id steps s w₃ =
      (.ok .completed, { w' with events := .documentFinished id true :: w'.events }) :=
    (runWith_of_none hrun).trans (Act.bind_of_ok hsettle)
  have hprocess : process id s w =
      (runWith (Handler.ofStep s.scratch) d id steps).followedBy closeScratch s w₃ :=
    run_of_opened hget hpending hopen
  refine ⟨?_, hstands.status, now, ?_⟩
  · rw [hprocess, Act.followedBy_result, hwith]
  · rw [hprocess, followedBy_closeScratch_store, hwith]
    exact hstore

end Pass

/-! The record of a document that was called ready. -/

theorem Store.sameRecord_setStatus {st st' : Store} {id : String} (status : DocumentStatus)
    (now now' : Instant) (hstatus : st'.statusOf? id = st.statusOf? id) :
    (st.setStatus id status now).2.SameRecord id (st'.setStatus id status now').2 ↔
      st.SameRecord id st' := by
  have hset : ∀ (st : Store) (now : Instant), (st.setStatus id status now).2.documentRow? id =
      (st.documentRow? id).map fun r =>
        { r with status := status.name, updatedAt := now.toMicrosText } := by
    intro st now
    let f (r : DocumentRow) : DocumentRow :=
      { r with status := status.name, updatedAt := now.toMicrosText }
    refine (documentRow?_changeDocument (f := f) fun _ => rfl).trans ?_
    cases hrow : st.documentRow? id with
    | none => rfl
    | some r => exact congrArg some (if_pos (id_of_documentRow? hrow))
  unfold statusOf? at hstatus
  constructor
  · rintro ⟨⟨changed, hrow⟩, hentries⟩
    refine ⟨?_, hentries⟩
    rw [hset, hset] at hrow
    rcases hleft : st.documentRow? id with - | r <;>
      rcases hright : st'.documentRow? id with - | r' <;> rw [hleft, hright] at hrow hstatus
    · exact ⟨changed, rfl⟩
    · cases hrow
    · cases hrow
    · have hfields := Option.some.inj hrow
      have hsame : r'.status = r.status := Option.some.inj hstatus
      refine ⟨r'.updatedAt, congrArg some ?_⟩
      cases r
      cases r'
      simp only [DocumentRow.mk.injEq] at hfields hsame ⊢
      simp only [hfields, hsame, and_self]
  · rintro ⟨⟨changed, hrow⟩, hentries⟩
    refine ⟨⟨now'.toMicrosText, ?_⟩, hentries⟩
    rw [hset, hset, hrow]
    cases st.documentRow? id with
    | none => rfl
    | some r => rfl

end Docket
