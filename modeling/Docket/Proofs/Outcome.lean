import Docket.Proofs.Pass

/-!
What a pass makes of a document when no call of its own fails and nobody else writes
the jobs or the status of the document: it runs the waiting steps in order, up to the
first mandatory one that fails.
-/

namespace Docket

open Act (Keeps)

/-- The text in the status column of a document. -/
def Store.statusOf? (s : Store) (id : String) : Option String :=
  (s.documentRow? id).map (·.status)

/-- The calls that a pass makes itself, not on behalf of a step. -/
def StoreCall.OfPass (id : String) : StoreCall → Prop
  | .getDocument i | .pendingSteps i | .startJob i _ | .finishJob i _ _
  | .requeueJob i _ | .clearJob i _ | .setStatus i _ => i = id
  | _ => False

/-- The process does not stop, no call that a pass over a document makes itself is
refused, and others leave the jobs and the status of the document alone. -/
structure Surroundings.Calm (s : Surroundings) (id : String) : Prop where
  goes : ∀ past, s.stops past = false
  heeds : ∀ past c, c.OfPass id → s.refuses past c = none
  spares : s.Spares id
  status : ∀ past st, (s.others past st).statusOf? id = st.statusOf? id

/-- No action changes the id or the status of a document. -/
def Registry.KeepsIdentity (r : Registry) : Prop :=
  ∀ a d d', r.apply a d = .ok d' → d'.id = d.id ∧ d'.status = d.status

theorem Registry.builtin_keepsIdentity : builtin.KeepsIdentity := by
  intro a d d' h
  change a.apply d = .ok d' at h
  unfold Action.apply at h
  split at h
  · cases h
    exact ⟨rfl, rfl⟩
  · cases h
    exact ⟨rfl, rfl⟩
  · cases h
    exact ⟨rfl, rfl⟩
  · cases h
    exact ⟨rfl, rfl⟩
  · obtain ⟨date, -, h⟩ := exists_of_bind_ok h
    cases h
    exact ⟨rfl, rfl⟩
  · obtain ⟨⟨k, v⟩, -, h⟩ := exists_of_bind_ok h
    cases h
    unfold Document.addEntry
    split <;> exact ⟨rfl, rfl⟩
  · obtain ⟨⟨k, v⟩, -, h⟩ := exists_of_bind_ok h
    cases h
    exact ⟨rfl, rfl⟩

/-- A copy of a document with a status. -/
def Document.Is (id : String) (status : DocumentStatus) (d : Document) : Prop :=
  d.id = id ∧ d.status = status

theorem Registry.KeepsIdentity.lasting {r : Registry} (hr : r.KeepsIdentity)
    (id : String) (status : DocumentStatus) :
    Document.Lasting r (Document.Is id status) where
  rehashed _ _ _ _ hd := hd
  content _ _ hd := hd
  lang _ _ hd := hd
  metadata _ _ hd := hd
  tags _ _ hd := hd
  action a d d' hd h := ⟨(hr d a d' h).1.trans hd.1, (hr d a d' h).2.trans hd.2⟩

/-! The status of a document in the store. -/

theorem Store.documentRow?_changeDocument {s : Store} {i id : String}
    {f : DocumentRow → DocumentRow} (hf : ∀ r, (f r).id = r.id) :
    (s.changeDocument i f).2.documentRow? id =
      (s.documentRow? id).map fun r => if r.id = i then f r else r := by
  simp only [documentRow?, changeDocument, List.find?_map]
  have hsame : ((fun r : DocumentRow => decide (r.id = id)) ∘
      fun r => if r.id = i then f r else r) = fun r => decide (r.id = id) := by
    funext r
    simp only [Function.comp]
    split
    · rw [hf]
    · rfl
  rw [hsame]

theorem Store.exists_documentRow? {s : Store} {id : String} (h : s.hasDocument id = true) :
    ∃ r, s.documentRow? id = some r := by
  apply Option.isSome_iff_exists.mp
  rw [documentRow?, List.find?_isSome]
  simpa [hasDocument] using h

theorem Store.statusOf?_changeDocument {s : Store} {i id : String}
    {f : DocumentRow → DocumentRow} (hf : ∀ r, (f r).id = r.id) :
    (s.changeDocument i f).2.statusOf? id =
      (s.documentRow? id).map fun r => (if r.id = i then f r else r).status := by
  rw [statusOf?, documentRow?_changeDocument hf, Option.map_map]
  rfl

theorem Store.statusOf?_setStatus {s : Store} {id : String} {status : DocumentStatus}
    {now : Calendar.Instant} (hdoc : s.hasDocument id = true) :
    (s.setStatus id status now).2.statusOf? id = some status.name := by
  refine (statusOf?_changeDocument (by intro r; rfl)).trans ?_
  obtain ⟨r, hr⟩ := exists_documentRow? hdoc
  have hid : r.id = id := by simpa using List.find?_some hr
  simp [hr, hid]

theorem Store.id_of_documentRow? {s : Store} {id : String} {r : DocumentRow}
    (h : s.documentRow? id = some r) : r.id = id := by
  simpa using List.find?_some h

theorem Store.hasDocument_of_documentRow? {s : Store} {id : String} {r : DocumentRow}
    (h : s.documentRow? id = some r) : s.hasDocument id = true := by
  simp only [hasDocument, List.any_eq_true, decide_eq_true_eq]
  exact ⟨r, List.mem_of_find?_eq_some h, id_of_documentRow? h⟩

theorem Store.hasDocument_of_statusOf? {s : Store} {id status : String}
    (h : s.statusOf? id = some status) : s.hasDocument id = true := by
  obtain ⟨r, hr, -⟩ := Option.map_eq_some_iff.mp h
  exact hasDocument_of_documentRow? hr

/-- A document that is stored with the status that it had keeps it. -/
theorem Store.statusOf?_updateDocument {s : Store} {d : Document} {id : String}
    {status : DocumentStatus} {now : Calendar.Instant} (hd : d.Is id status)
    (hs : s.statusOf? id = some status.name) :
    (s.updateDocument d now).2.statusOf? id = some status.name := by
  refine (statusOf?_changeDocument (by intro r; rfl)).trans ?_
  obtain ⟨r, hr, hstatus⟩ := Option.map_eq_some_iff.mp hs
  rw [hr, Option.map_some]
  split
  · rw [← hd.2]
    rfl
  · rw [hstatus]

theorem StoreCall.statusOf?_perform {c : StoreCall} {now : Calendar.Instant}
    {st st' : Store} {id : String} {status : DocumentStatus}
    (hc : Moment.OnBehalf (Document.Is id status) (.call c))
    (h : c.perform now st = .ok st') (hst : st.statusOf? id = some status.name) :
    st'.statusOf? id = some status.name := by
  cases c with
  | updateDocument d =>
      obtain ⟨-, rfl⟩ := orNoDocument_ok h
      exact Store.statusOf?_updateDocument hc hst
  | updateWithEntries d =>
      obtain ⟨r, hr, h⟩ := exists_of_bind_ok h
      obtain ⟨-, rfl⟩ := orNoDocument_ok h
      rcases updateWithEntries_ok hr with heq | ⟨entries, heq⟩
      · rw [heq]
        exact hst
      · rw [heq]
        exact Store.statusOf?_updateDocument hc hst
  | setContent i content =>
      obtain ⟨-, rfl⟩ := orNoDocument_ok h
      refine (Store.statusOf?_changeDocument (by intro r; rfl)).trans ?_
      obtain ⟨r, hr, hstatus⟩ := Option.map_eq_some_iff.mp hst
      rw [hr, Option.map_some]
      split <;> rw [hstatus]
  | activeRules | documentEntries | autoMatchValues | documentTags =>
      cases h
      exact hst
  | _ => cases hc

/-! What is known of a document while a pass over it goes on. -/

/-- The step of a document whose job a moment starts. -/
def Moment.started? (id : String) : Moment → Option Step
  | .call (.startJob i t) => if i = id then some t else none
  | _ => none

/-- The steps of a document whose jobs were started, in the order in which they were. -/
def startedSteps (id : String) (past : List Moment) : List Step :=
  (past.filterMap (Moment.started? id)).reverse

theorem startedSteps_cons (id : String) (m : Moment) (past : List Moment) :
    startedSteps id (m :: past) = startedSteps id past ++ (m.started? id).toList := by
  unfold startedSteps
  cases h : m.started? id with
  | none => simp [List.filterMap_cons_none h]
  | some t => simp [List.filterMap_cons_some h]

/-- The steps of a document that were started, its rows, and its status. -/
structure Standing (id : String) (started : List Step) (rows : List JobRow)
    (status : DocumentStatus) (past : List Moment) (st : Store) : Prop where
  started : startedSteps id past = started
  rows : st.jobsFor id = rows
  status : st.statusOf? id = some status.name

namespace Surroundings.Calm

variable {s : Surroundings} {id : String} {t : Step} {c : StoreCall}
  {started : List Step} {rows : List JobRow} {status : DocumentStatus}
  {past : List Moment} {st st' : Store}

theorem after_eq (hcalm : s.Calm id) (hc : c.OfPass id)
    (hperform : c.perform (s.clock past) (s.others past st) = .ok st') :
    s.after past st (.call c) = st' :=
  after_of_heeded (hcalm.heeds past c hc) hperform

theorem tell_eq (hcalm : s.Calm id) (hc : c.OfPass id) {w : World}
    (hperform : c.perform (s.clock w.moments) (s.others w.moments w.store) = .ok st') :
    Act.tell c s w = (.ok (), w.next s (.call c)) := by
  rw [Act.tell_of_go c (hcalm.goes _), verdict, hcalm.heeds _ c hc]
  simp only [hperform]

/-- Work on behalf of a copy changes nothing that is known of the document. -/
theorem maintains_standing (hcalm : s.Calm id) :
    s.Maintains (Moment.OnBehalf (Document.Is id status))
      (Standing id started rows status) := by
  rintro past st m hm ⟨hstarted, hrows, hstatus⟩
  have hkept := (hcalm.spares.maintains_jobsFor rows) past st m (hm.spares id) hrows
  refine ⟨?_, hkept, ?_⟩
  · rw [startedSteps_cons, hstarted]
    cases m with
    | call c => cases c <;> first | exact List.append_nil _ | cases hm
    | effect e => exact List.append_nil _
  · have hothers : (s.others past st).statusOf? id = some status.name :=
      (hcalm.status past st).trans hstatus
    cases m with
    | call c =>
        rcases s.after_call_cases past st c with heq | ⟨-, hok⟩
        · rw [heq]
          exact hothers
        · exact StoreCall.statusOf?_perform hm hok hothers
    | effect e => exact hstatus

/-- A call that changes the row of a step. -/
theorem standing_change (hcalm : s.Calm id) {f : Calendar.Instant → JobRow → JobRow}
    (hc : c.OfPass id)
    (hperform : ∀ now st, c.perform now st = .ok (st.changeJob id t (f now)))
    (hf : ∀ now, JobRow.KeepsKey (f now))
    (h : Standing id started rows status past st) :
    Standing id (started ++ ((Moment.call c).started? id).toList)
      (JobRow.changeAt id t (f (s.clock past)) rows) status
      (.call c :: past) (s.after past st (.call c)) := by
  rw [hcalm.after_eq hc (hperform _ _)]
  refine ⟨?_, ?_, ?_⟩
  · rw [startedSteps_cons, h.started]
  · rw [Store.jobsFor_changeJob (hf _), hcalm.spares, h.rows]
  · exact (hcalm.status past st).trans h.status

/-- A call that deletes the row of a step. -/
theorem standing_clear (hcalm : s.Calm id)
    (h : Standing id started rows status past st) :
    Standing id started (rows.filter (!·.isFor id t)) status
      (.call (.clearJob id t) :: past) (s.after past st (.call (.clearJob id t))) := by
  rw [hcalm.after_eq (c := .clearJob id t) rfl rfl]
  refine ⟨?_, ?_, ?_⟩
  · rw [startedSteps_cons, h.started]
    exact List.append_nil _
  · rw [Store.jobsFor_clearJob, hcalm.spares, h.rows]
  · exact (hcalm.status past st).trans h.status

end Surroundings.Calm

/-- A row that waits again after its step has failed. -/
def JobRow.deferred (message time : String) (r : JobRow) : JobRow :=
  { r with
    status := JobStatus.pending.name
    message := some message
    startedAt := none
    stoppedAt := some time }

namespace Pass

variable {s : Surroundings} {id : String} {t : Step}
  {started : List Step} {rows before : List JobRow} {status : DocumentStatus}
  {desk : Desk}

/-- Why a pass cannot go on after a step that has ended, if it cannot. -/
def obstacle (t : Step) (result : Except PipelineError Unit) : Option String :=
  if t.mandatory then note result else none

theorem obstacle_eq_some {result : Except PipelineError Unit} {reason : String} :
    obstacle t result = some reason ↔
      t.mandatory = true ∧ ∃ e, result = .error e ∧ reason = e.message := by
  unfold obstacle
  cases t.mandatory with
  | false => simp
  | true => cases result <;> simp [note, eq_comm]

/-- The rows after a step has been settled. -/
def settled (id : String) (t : Step) (time : String) (rows : List JobRow) :
    Option String → List JobRow
  | none => rows.filter (!·.isFor id t)
  | some message => JobRow.changeAt id t (.deferred message time) rows

theorem onWorld_tell_of_calm (hcalm : s.Calm id) {c : StoreCall} {st' : Store}
    (hc : c.OfPass id) (hperform : c.perform (s.clock desk.world.moments)
      (s.others desk.world.moments desk.world.store) = .ok st') :
    Act.onWorld (Act.tell c) s desk =
      (.ok (), desk.next s (.call c)) := by
  simp only [Act.onWorld, Act.within, hcalm.tell_eq hc hperform]
  rfl

theorem begin_of_calm (hcalm : s.Calm id)
    (hdesk : Desk.Has (Document.Is id status) (Standing id started rows status) desk) :
    ∃ desk', begin id t s desk = (.ok (), desk') ∧ ∃ now,
      Desk.Has (Document.Is id status) (Standing id (started ++ [t])
        (JobRow.changeAt id t (.started now) rows) status) desk' := by
  have hstart : Act.onWorld (start id t) s desk =
      (.ok (), desk.next s (.call (.startJob id t))) :=
    onWorld_tell_of_calm hcalm rfl rfl
  have hnext := hcalm.standing_change (c := .startJob id t) rfl (fun _ _ => rfl)
    (fun _ _ => ⟨rfl, rfl⟩) hdesk.2
  simp only [Moment.started?, ↓reduceIte, Option.toList_some] at hnext
  exact ⟨_, begin_of_started hstart, s.clock desk.world.moments, hdesk.1, hnext⟩

/-- Noting how a step has ended settles its row: it waits again if the pass cannot go
on, and else it is deleted. -/
theorem conclude_of_calm (hcalm : s.Calm id) (result : Except PipelineError Unit)
    (hdesk : Desk.Has (Document.Is id status) (Standing id started rows status) desk) :
    ∃ desk', conclude id t (note result) s desk = (.ok (obstacle t result), desk') ∧
      ∃ now : Calendar.Instant, ∀ began,
        rows = JobRow.changeAt id t (.started began) before →
        Desk.Has (Document.Is id status) (Standing id started
          (settled id t now.toMicrosText before (obstacle t result)) status) desk' := by
  let noted := desk.next s (.call (.finishJob id t (note result)))
  have hfinish : Act.onWorld (finish id t (note result)) s desk = (.ok (), noted) :=
    onWorld_tell_of_calm hcalm rfl rfl
  have hended : ∀ now, JobRow.KeepsKey (JobRow.ended (note result).isNone (note result) now) :=
    fun _ _ => ⟨rfl, rfl⟩
  have hnoted := hcalm.standing_change (c := .finishJob id t (note result)) rfl
    (fun _ _ => rfl) hended hdesk.2
  simp only [Moment.started?, Option.toList_none, List.append_nil] at hnoted
  have hstarted : ∀ began, JobRow.KeepsKey (JobRow.started began) := fun _ _ => ⟨rfl, rfl⟩
  by_cases hfinal : t.mandatory = false ∨ note result = none
  · have hobstacle : obstacle t result = none := by
      unfold obstacle
      rcases hfinal with hfinal | hfinal <;> simp [hfinal]
    have hclear : Act.onWorld (clear id t) s (noted.reported (.stepFinished id t (note result)))
        = (.ok (), _) := onWorld_tell_of_calm hcalm rfl rfl
    have hcleared := hcalm.standing_clear hnoted (t := t)
    rw [JobRow.filter_changeAt_of_not (hended _) (fun r hr => by simp [hr])] at hcleared
    rw [conclude_of_cleared hfinal hfinish, hobstacle]
    refine ⟨_, Act.bind_of_ok hclear, default, ?_⟩
    rintro began rfl
    rw [JobRow.filter_changeAt_of_not (hstarted _) (fun r hr => by simp [hr])] at hcleared
    exact ⟨hdesk.1, hcleared⟩
  · obtain ⟨hmandatory, e, rfl⟩ : t.mandatory = true ∧ ∃ e, result = .error e := by
      cases result with
      | ok u => exact absurd (.inr rfl) hfinal
      | error e => exact ⟨by simpa using fun h => hfinal (.inl h), e, rfl⟩
    have hobstacle : obstacle t (.error e) = some e.message := by
      simp [obstacle, hmandatory, note]
    have hrequeue : Act.onWorld (requeue id t) s
        (noted.reported (.stepFinished id t (some e.message))) = (.ok (), _) :=
      onWorld_tell_of_calm hcalm rfl rfl
    have hrequeued := hcalm.standing_change (c := .requeueJob id t) rfl
      (fun _ _ => rfl) (fun _ _ => ⟨rfl, rfl⟩) hnoted
    simp only [Moment.started?, Option.toList_none, List.append_nil] at hrequeued
    rw [JobRow.changeAt_changeAt (hended _)] at hrequeued
    rw [hobstacle]
    refine ⟨_, (conclude_of_deferred hmandatory hfinish).trans (Act.bind_of_ok hrequeue),
      s.clock desk.world.moments, ?_⟩
    rintro began rfl
    rw [JobRow.changeAt_changeAt (hstarted _)] at hrequeued
    exact ⟨hdesk.1, hrequeued⟩

/-- A step that is run under its job leaves the row of the job behind only where the
pass cannot go on. -/
theorem runStep_of_calm (hcalm : s.Calm id) {handler : Handler}
    (hhandler : handler.Minds s (Document.Is id status))
    (hdesk : Desk.Has (Document.Is id status) (Standing id started rows status) desk)
    {result : Except PipelineError Unit}
    (hresult : ∀ desk', begin id t s desk = (.ok (), desk') →
      (handler s desk').1 = result.mapError .error) :
    ∃ desk', runStep handler id t s desk = (.ok (obstacle t result), desk') ∧ ∃ time,
      Desk.Has (Document.Is id status) (Standing id (started ++ [t])
        (settled id t time rows (obstacle t result)) status) desk' := by
  obtain ⟨desk₁, hbegin, began, hbegun⟩ := begin_of_calm (t := t) hcalm hdesk
  have hworked := (hhandler _ hcalm.maintains_standing desk₁ hbegun).1
  have hattempt : handler.attempt s desk₁ = (.ok result, (handler s desk₁).2) := by
    have hends := hresult desk₁ hbegin
    cases result with
    | ok u => exact Act.attempt_of_ok (Prod.ext hends rfl)
    | error e => exact Act.attempt_of_fail (Prod.ext hends rfl)
  obtain ⟨desk₂, hconclude, now, hsettled⟩ :=
    conclude_of_calm (t := t) hcalm result hworked
  refine ⟨desk₂, ?_, now.toMicrosText, hsettled began rfl⟩
  unfold runStep
  rw [Act.bind_of_ok hbegin, Act.bind_of_ok hattempt]
  exact hconclude

variable {handlers : Step → Handler} {outcome : Step → Except PipelineError Unit}

/-- Steps none of which stops the pass are all run, and their rows are gone. -/
theorem runSteps_of_calm (hcalm : s.Calm id)
    (hhandlers : ∀ t, (handlers t).Minds s (Document.Is id status)) {steps rest : List Step}
    (hclear : ∀ t ∈ steps, obstacle t (outcome t) = none)
    (houtcome : ∀ t desk', Begins handlers id s (steps ++ rest) desk t desk' →
      (handlers t s desk').1 = (outcome t).mapError .error)
    (hdesk : Desk.Has (Document.Is id status) (Standing id started rows status) desk) :
    ∃ desk', runSteps handlers id (steps ++ rest) s desk = runSteps handlers id rest s desk' ∧
      Desk.Has (Document.Is id status) (Standing id (started ++ steps)
        (rows.filter fun r => steps.all (!r.isFor id ·)) status) desk' ∧
      ∀ t desk'', Begins handlers id s rest desk' t desk'' →
        (handlers t s desk'').1 = (outcome t).mapError .error := by
  induction steps generalizing desk started rows with
  | nil => exact ⟨desk, rfl, by simpa using hdesk, houtcome⟩
  | cons t later ih =>
      obtain ⟨desk₁, hstep, time, hsettled⟩ := runStep_of_calm (t := t) hcalm
        (hhandlers t) hdesk fun desk' hbegin => houtcome t desk' (.here hbegin)
      rw [hclear t List.mem_cons_self] at hstep hsettled
      obtain ⟨desk', hrun, hstands, hlater⟩ := ih
        (fun u hu => hclear u (List.mem_cons_of_mem t hu))
        (fun u desk'' hu => houtcome u desk'' (.later hstep hu)) hsettled
      refine ⟨desk', (runSteps_of_none hstep).trans hrun, ?_, hlater⟩
      have hrows : ((settled id t time rows none).filter fun r =>
          later.all (!r.isFor id ·)) =
            rows.filter fun r => (t :: later).all (!r.isFor id ·) := by
        rw [settled, List.filter_filter]
        apply List.filter_congr
        intro r _
        rw [List.all_cons, Bool.and_comm]
      rw [hrows, List.append_assoc] at hstands
      exact hstands

/-- The first step that stops the pass waits again; the rows of those before it are
gone, and those of the steps behind it are as they were. -/
theorem runSteps_of_calm_deferred (hcalm : s.Calm id)
    (hhandlers : ∀ t, (handlers t).Minds s (Document.Is id status))
    {earlier later : List Step} {reason : String}
    (hclear : ∀ u ∈ earlier, obstacle u (outcome u) = none)
    (hreason : obstacle t (outcome t) = some reason)
    (houtcome : ∀ u desk', Begins handlers id s (earlier ++ t :: later) desk u desk' →
      (handlers u s desk').1 = (outcome u).mapError .error)
    (hdesk : Desk.Has (Document.Is id status) (Standing id started rows status) desk) :
    ∃ desk' time, runSteps handlers id (earlier ++ t :: later) s desk =
        (.ok (some (t, reason)), desk') ∧
      Desk.Has (Document.Is id status) (Standing id (started ++ (earlier ++ [t]))
        (JobRow.changeAt id t (.deferred reason time)
          (rows.filter fun r => earlier.all (!r.isFor id ·))) status) desk' := by
  obtain ⟨desk₁, hrun, hstands, hrest⟩ :=
    runSteps_of_calm hcalm hhandlers hclear houtcome hdesk
  obtain ⟨desk', hstep, time, hsettled⟩ := runStep_of_calm (t := t) hcalm (hhandlers t)
    hstands fun desk'' hbegin => hrest t desk'' (.here hbegin)
  rw [hreason] at hstep hsettled
  refine ⟨desk', time, hrun.trans (runSteps_of_some hstep), ?_⟩
  rw [List.append_assoc] at hsettled
  exact hsettled

/-! The calls around the steps. -/

theorem name_of_ofName? {text : String} {status : DocumentStatus}
    (h : DocumentStatus.ofName? text = some status) : status.name = text := by
  unfold DocumentStatus.ofName? at h
  split at h <;> cases h <;> rfl

theorem status_of_read {r : DocumentRow} {d : Document} (h : r.read = .ok d) :
    d.id = r.id ∧ d.status.name = r.status := by
  obtain ⟨_, -, h⟩ := exists_of_bind_ok h
  obtain ⟨status, hstatus, h⟩ := exists_of_bind_ok h
  obtain ⟨_, -, h⟩ := exists_of_bind_ok h
  obtain ⟨_, -, h⟩ := exists_of_bind_ok h
  cases h
  refine ⟨rfl, ?_⟩
  change status.name = r.status
  unfold readNamed at hstatus
  split at hstatus
  · next hname =>
      cases hstatus
      exact name_of_ofName? hname
  · cases hstatus

theorem row_of_getDocument {st : Store} {d : Document} {i : String}
    (h : st.getDocument i = .ok d) : ∃ r, st.documentRow? i = some r ∧ r.read = .ok d := by
  obtain ⟨found, hfound, h⟩ := exists_of_bind_ok h
  cases found with
  | none => cases h
  | some d' =>
      cases h
      unfold Store.findDocument at hfound
      cases hr : st.documentRow? i with
      | none =>
          rw [hr] at hfound
          cases hfound
      | some r =>
          simp only [hr] at hfound
          cases hread : r.read with
          | error e =>
              rw [hread] at hfound
              cases hfound
          | ok d =>
              rw [hread] at hfound
              cases hfound
              exact ⟨r, rfl, hread⟩

theorem status_of_getDocument {st : Store} {d : Document} {i : String}
    (h : st.getDocument i = .ok d) :
    d.id = i ∧ st.statusOf? i = some d.status.name := by
  obtain ⟨r, hr, hread⟩ := row_of_getDocument h
  obtain ⟨hid, hstatus⟩ := status_of_read hread
  refine ⟨hid.trans (Store.id_of_documentRow? hr), ?_⟩
  rw [Store.statusOf?, hr, hstatus]
  rfl

theorem ask_of_calm (hcalm : s.Calm id) {c : StoreCall} {α : Type}
    {ask : Store → Except StoreError α} {a : α} {w : World} (hc : c.OfPass id)
    (hasks : ∀ now st, c.perform now st = .ok st)
    (ha : ask (s.others w.moments w.store) = .ok a) :
    Act.ask c ask s w = (.ok a, w.next s (.call c)) := by
  rw [Act.ask_of_go c ask hasks (hcalm.goes _), hcalm.heeds _ c hc]
  simp only [ha]
  rfl

theorem standing_ask (hcalm : s.Calm id) {c : StoreCall} {past : List Moment} {st : Store}
    (hc : c.OfPass id) (hasks : ∀ now st, c.perform now st = .ok st)
    (hstarts : (Moment.call c).started? id = none)
    (h : Standing id started rows status past st) :
    Standing id started rows status (.call c :: past) (s.after past st (.call c)) := by
  rw [hcalm.after_eq hc (hasks _ _)]
  refine ⟨?_, (hcalm.spares past st).trans h.rows, (hcalm.status past st).trans h.status⟩
  rw [startedSteps_cons, hstarts, h.started]
  exact List.append_nil _

/-- A document none of whose rows waits is called ready. -/
theorem settle_of_calm (hcalm : s.Calm id) {w : World}
    (hw : World.Has (Standing id started rows status) w)
    (hrows : ∀ r ∈ rows, r.isPending = false) :
    ∃ w', settle id s w = (.ok (), w') ∧
      World.Has (Standing id started rows .ready) w' := by
  have hnone : (w.store.jobsFor id).filter (·.isPending) = [] := by
    rw [hw.rows]
    exact List.filter_eq_nil_iff.mpr fun r hr => by simp [hrows r hr]
  have hread : (s.others w.moments w.store).pendingJobs id = .ok [] := by
    rw [Store.pendingJobs_congr (hcalm.spares _ _), Store.pendingJobs,
      Store.pendingRows_eq, hnone, Store.readJobs_nil]
  have hpending : pending id s w = (.ok [], w.next s (.call (.pendingSteps id))) :=
    ask_of_calm hcalm rfl (fun _ _ => rfl) (by rw [hread]; rfl)
  have hasked : World.Has (Standing id started rows status)
      (w.next s (.call (.pendingSteps id))) :=
    standing_ask hcalm rfl (fun _ _ => rfl) rfl hw
  let asked := w.next s (.call (.pendingSteps id))
  have hstatus : (s.others asked.moments asked.store).statusOf? id = some status.name :=
    (hcalm.status _ _).trans hasked.status
  have hdoc := Store.hasDocument_of_statusOf? hstatus
  have hperform : (StoreCall.setStatus id .ready).perform (s.clock asked.moments)
      (s.others asked.moments asked.store) =
        .ok ((s.others asked.moments asked.store).setStatus id .ready
          (s.clock asked.moments)).2 := by
    unfold StoreCall.perform Store.setStatus Store.changeDocument
    simp only [hdoc]
    rfl
  refine ⟨_, (Act.bind_of_ok hpending).trans
    (hcalm.tell_eq (w := asked) (c := .setStatus id .ready) rfl hperform), ?_, ?_, ?_⟩
  · rw [World.next_moments, startedSteps_cons, hasked.started]
    exact List.append_nil _
  · rw [World.next_store, hcalm.after_eq (c := .setStatus id .ready) rfl hperform]
    exact (hcalm.spares _ _).trans hasked.rows
  · rw [World.next_store, hcalm.after_eq (c := .setStatus id .ready) rfl hperform]
    exact Store.statusOf?_setStatus hdoc

theorem openScratch_of_ok {w : World} {files : FileTree}
    (hfiles : w.files.makeDirectories s.scratch = .ok files) :
    openScratch s w = (.ok (), { w with files := files }) := by
  refine (Act.bind_of_ok (a := s) rfl).trans ((Act.bind_of_ok (a := w) rfl).trans ?_)
  rw [hfiles]
  rfl

/-- A pass opens on a document that is stored, with the steps that wait for it. -/
theorem opened_of_calm (hcalm : s.Calm id) {w : World} {d : Document} {jobs : List Job}
    (hstored : (s.others w.moments w.store).getDocument id = .ok d)
    (hpending : w.store.pendingJobs id = .ok jobs)
    (hscratch : ∃ files, w.files.makeDirectories s.scratch = .ok files) :
    ∃ w₁ w₂ w₃, Act.ask (.getDocument id) (·.getDocument id) s w = (.ok d, w₁) ∧
      pending id s w₁ = (.ok (jobs.map (·.step)), w₂) ∧
      openScratch s w₂ = (.ok (), w₃) ∧
      World.Has (Standing id (startedSteps id w.moments) (w.store.jobsFor id) d.status) w₃ := by
  obtain ⟨files, hfiles⟩ := hscratch
  have hstatus := (hcalm.status w.moments w.store).symm.trans
    (status_of_getDocument hstored).2
  have hw : World.Has (Standing id (startedSteps id w.moments) (w.store.jobsFor id)
      d.status) w := ⟨rfl, rfl, hstatus⟩
  let w₁ := w.next s (.call (.getDocument id))
  have hw₁ : World.Has (Standing id (startedSteps id w.moments) (w.store.jobsFor id)
      d.status) w₁ := standing_ask hcalm rfl (fun _ _ => rfl) rfl hw
  have hread : (s.others w₁.moments w₁.store).pendingJobs id = .ok jobs := by
    rw [Store.pendingJobs_congr ((hcalm.spares _ _).trans hw₁.rows), hpending]
  have hsteps : pending id s w₁ =
      (.ok (jobs.map (·.step)), w₁.next s (.call (.pendingSteps id))) :=
    ask_of_calm hcalm rfl (fun _ _ => rfl) (by rw [hread]; rfl)
  have hw₂ : World.Has (Standing id (startedSteps id w.moments) (w.store.jobsFor id)
      d.status) (w₁.next s (.call (.pendingSteps id))) :=
    standing_ask hcalm rfl (fun _ _ => rfl) rfl hw₁
  exact ⟨w₁, _, _, ask_of_calm hcalm rfl (fun _ _ => rfl) hstored, hsteps,
    openScratch_of_ok hfiles, hw₂⟩

section

variable {w w₁ w₂ w₃ : World} {d : Document} {steps : List Step}

theorem closeScratch_keeps_standing
    (hw : World.Has (Standing id started rows status) w) :
    World.Has (Standing id started rows status) (closeScratch s w).2 :=
  (closeScratch_keeps w hw).1

/-- A pass that no step stops. -/
theorem process_of_clear (hcalm : s.Calm id) (hregistry : s.registry.KeepsIdentity)
    (hget : Act.ask (.getDocument id) (·.getDocument id) s w = (.ok d, w₁))
    (hsteps : pending id s w₁ = (.ok steps, w₂)) (hopen : openScratch s w₂ = (.ok (), w₃))
    (hw₃ : World.Has (Standing id started rows d.status) w₃) (hd : d.id = id)
    (houtcome : ∀ t desk, BeginsIn Handler.ofStep id s w t desk →
      (Handler.ofStep s.scratch t s desk).1 = (outcome t).mapError .error)
    (hclear : ∀ t ∈ steps, obstacle t (outcome t) = none)
    (hdone : ∀ r ∈ rows.filter fun r => steps.all (!r.isFor id ·), r.isPending = false) :
    (process id s w).1 = .ok .completed ∧
      World.Has (Standing id (started ++ steps)
        (rows.filter fun r => steps.all (!r.isFor id ·)) .ready) (process id s w).2 := by
  have hminds : ∀ t, (Handler.ofStep s.scratch t).Minds s (Document.Is id d.status) :=
    fun t => Handler.ofStep_minds (hregistry.lasting id d.status) _ t
  have hbegins : ∀ t desk, Begins (Handler.ofStep s.scratch) id s (steps ++ []) ⟨w₃, d⟩ t desk →
      (Handler.ofStep s.scratch t s desk).1 = (outcome t).mapError .error := by
    intro t desk hbegins
    rw [List.append_nil] at hbegins
    exact houtcome t desk ⟨d, w₁, steps, w₂, w₃, hget, hsteps, hopen, hbegins⟩
  obtain ⟨desk, hrun, hstands, -⟩ :=
    runSteps_of_calm hcalm hminds hclear hbegins ⟨⟨hd, rfl⟩, hw₃⟩
  rw [List.append_nil] at hrun
  obtain ⟨w', hsettle, hready⟩ := settle_of_calm hcalm hstands.2 hdone
  have hwith : runWith (Handler.ofStep s.scratch) d id steps s w₃ =
      (.ok .completed, { w' with events := .documentFinished id true :: w'.events }) :=
    (runWith_of_none hrun).trans (Act.bind_of_ok hsettle)
  rw [process, run_of_opened hget hsteps hopen]
  simp only [Act.followedBy, hwith]
  exact ⟨trivial, closeScratch_keeps_standing hready⟩

/-- A pass that a step stops. -/
theorem process_of_obstacle (hcalm : s.Calm id) (hregistry : s.registry.KeepsIdentity)
    {earlier later : List Step} {reason : String}
    (hget : Act.ask (.getDocument id) (·.getDocument id) s w = (.ok d, w₁))
    (hsteps : pending id s w₁ = (.ok (earlier ++ t :: later), w₂))
    (hopen : openScratch s w₂ = (.ok (), w₃))
    (hw₃ : World.Has (Standing id started rows d.status) w₃) (hd : d.id = id)
    (houtcome : ∀ t desk, BeginsIn Handler.ofStep id s w t desk →
      (Handler.ofStep s.scratch t s desk).1 = (outcome t).mapError .error)
    (hclear : ∀ u ∈ earlier, obstacle u (outcome u) = none)
    (hreason : obstacle t (outcome t) = some reason) :
    (process id s w).1 = .ok (.deferred t reason) ∧ ∃ time,
      World.Has (Standing id (started ++ (earlier ++ [t]))
        (JobRow.changeAt id t (.deferred reason time)
          (rows.filter fun r => earlier.all (!r.isFor id ·))) d.status)
        (process id s w).2 := by
  have hminds : ∀ t, (Handler.ofStep s.scratch t).Minds s (Document.Is id d.status) :=
    fun t => Handler.ofStep_minds (hregistry.lasting id d.status) _ t
  obtain ⟨desk, time, hrun, hstands⟩ := runSteps_of_calm_deferred hcalm hminds hclear
    hreason (fun u desk hu => houtcome u desk ⟨d, w₁, _, w₂, w₃, hget, hsteps, hopen, hu⟩)
    ⟨⟨hd, rfl⟩, hw₃⟩
  rw [process, run_of_opened hget hsteps hopen]
  simp only [Act.followedBy, runWith_of_deferred hrun]
  exact ⟨trivial, time, closeScratch_keeps_standing hstands.2⟩

end

theorem filter_not_pending_changeAt {f : JobRow → JobRow} {rows : List JobRow}
    (hrows : ∀ r ∈ rows, r.isFor id t → r.isPending = true)
    (hf : ∀ r, (f r).isPending = true) :
    (JobRow.changeAt id t f rows).filter (!·.isPending) = rows.filter (!·.isPending) := by
  induction rows with
  | nil => rfl
  | cons r rest ih =>
      have hrest := ih fun r hr => hrows r (List.mem_cons_of_mem _ hr)
      cases hr : r.isFor id t with
      | true =>
          have hpending := hrows r List.mem_cons_self hr
          simpa [JobRow.changeAt, hr, hf, hpending] using hrest
      | false =>
          simp only [JobRow.changeAt, List.map_cons, hr, Bool.false_eq_true, ↓reduceIte,
            List.filter_cons]
          rw [← JobRow.changeAt, hrest]

/-- Deleting the rows of some waiting steps, and changing that of one more so that it
waits, is not seen among the rows that do not wait. -/
theorem filter_not_pending_settled {f : JobRow → JobRow} {rows : List JobRow}
    {earlier : List Step} (hf : ∀ r, (f r).isPending = true)
    (hwaited : ∀ u ∈ earlier ++ [t], ∀ r ∈ rows, r.isFor id u = true →
      r.isPending = true) :
    (JobRow.changeAt id t f (rows.filter fun r => earlier.all (!r.isFor id ·))).filter
      (!·.isPending) = rows.filter (!·.isPending) := by
  have hchanged : ∀ r ∈ rows.filter fun r => earlier.all (!r.isFor id ·),
      r.isFor id t → r.isPending = true :=
    fun r hr hfor => hwaited t (by simp) r (List.mem_filter.mp hr).1 hfor
  rw [filter_not_pending_changeAt hchanged hf, List.filter_filter]
  apply List.filter_congr
  intro r hr
  cases hpending : r.isPending with
  | true => rfl
  | false =>
      simp only [Bool.not_false, Bool.true_and, List.all_eq_true, Bool.not_eq_true']
      intro u hu
      cases hfor : r.isFor id u with
      | false => rfl
      | true =>
          have hwait := hwaited u (List.mem_append_left _ hu) r hr hfor
          rw [hpending] at hwait
          cases hwait

/-- A pass over a document that nobody else touches, of which no call of its own fails,
runs the waiting steps in increasing order, each once, up to the first mandatory one
that fails.  If there is such a step it waits again with the message of its failure,
the rows of the waiting steps before it are gone and the status of the document stays;
else no row waits any more and the document is ready.  Rows that did not wait, and rows
of other documents, stay as they are. -/
theorem process_outcome {w : World} {d : Document} {jobs : List Job}
    (hcalm : s.Calm id) (hregistry : s.registry.KeepsIdentity) (hkeyed : w.store.Keyed)
    (hstored : (s.others w.moments w.store).getDocument id = .ok d)
    (hpending : w.store.pendingJobs id = .ok jobs)
    (hscratch : ∃ files, w.files.makeDirectories s.scratch = .ok files)
    (houtcome : ∀ t desk, BeginsIn Handler.ofStep id s w t desk →
      (Handler.ofStep s.scratch t s desk).1 = (outcome t).mapError .error) :
    ((jobs.map (·.step)).Pairwise fun t u => t.position < u.position) ∧
    (∀ t, t ∈ jobs.map (·.step) ↔
      ∃ r ∈ w.store.jobsFor id, r.isPending ∧ r.isFor id t) ∧
    ((process id s w).1 = .ok .completed ∧
        (∀ t ∈ jobs.map (·.step), obstacle t (outcome t) = none) ∧
        startedSteps id (process id s w).2.moments =
          startedSteps id w.moments ++ jobs.map (·.step) ∧
        (process id s w).2.store.jobsFor id =
          (w.store.jobsFor id).filter (!·.isPending) ∧
        (process id s w).2.store.statusOf? id = some DocumentStatus.ready.name ∨
      ∃ earlier t later e time, jobs.map (·.step) = earlier ++ t :: later ∧
        (∀ u ∈ earlier, obstacle u (outcome u) = none) ∧
        t.mandatory = true ∧ outcome t = .error e ∧
        (process id s w).1 = .ok (.deferred t e.message) ∧
        startedSteps id (process id s w).2.moments =
          startedSteps id w.moments ++ (earlier ++ [t]) ∧
        (process id s w).2.store.jobsFor id =
          JobRow.changeAt id t (.deferred e.message time)
            ((w.store.jobsFor id).filter fun r => earlier.all (!r.isFor id ·)) ∧
        (process id s w).2.store.statusOf? id = w.store.statusOf? id) ∧
    ((process id s w).2.store.jobsFor id).filter (!·.isPending) =
      (w.store.jobsFor id).filter (!·.isPending) ∧
    ∀ other, other ≠ id → s.Spares other →
      (process id s w).2.store.jobsFor other = w.store.jobsFor other := by
  obtain ⟨w₁, w₂, w₃, hget, hsteps, hopen, hw₃⟩ :=
    opened_of_calm hcalm hstored hpending hscratch
  obtain ⟨hd, hstatus⟩ := status_of_getDocument hstored
  rw [hcalm.status] at hstatus
  have hwaits := fun r hr => Store.isPending_iff (r := r) hkeyed hpending hr
  have hgone := Store.filter_not_pendingSteps hkeyed hpending
  refine ⟨Store.pendingSteps_increasing hkeyed hpending,
    fun t => Store.mem_pendingSteps hpending, ?_⟩
  refine and_assoc.mp ⟨?_, fun other hne hspares => process_jobsFor_of_ne hne hspares w⟩
  cases hfind : (jobs.map (·.step)).find? fun t => (obstacle t (outcome t)).isSome with
  | none =>
      have hclear : ∀ t ∈ jobs.map (·.step), obstacle t (outcome t) = none := by
        intro t ht
        simpa using List.find?_eq_none.mp hfind t ht
      obtain ⟨hresult, hstands⟩ := process_of_clear hcalm hregistry hget hsteps hopen hw₃ hd
        houtcome hclear (by rw [hgone]; intro r hr; simpa using (List.mem_filter.mp hr).2)
      rw [hgone] at hstands
      refine ⟨.inl ⟨hresult, hclear, hstands.started, hstands.rows, hstands.status⟩, ?_⟩
      rw [hstands.rows, List.filter_filter]
      simp only [Bool.and_self]
  | some t =>
      obtain ⟨hsome, earlier, later, hsplit, hclear⟩ := List.find?_eq_some_iff_append.mp hfind
      obtain ⟨reason, hreason⟩ := Option.isSome_iff_exists.mp hsome
      obtain ⟨hmandatory, e, he, rfl⟩ := obstacle_eq_some.mp hreason
      have hwaited : ∀ u ∈ earlier ++ [t], ∀ r ∈ w.store.jobsFor id, r.isFor id u →
          r.isPending = true := by
        intro u hu r hr hfor
        refine (hwaits r hr).mpr ⟨u, ?_, hfor⟩
        rw [hsplit, List.append_cons]
        exact List.mem_append_left _ hu
      rw [hsplit] at hsteps
      obtain ⟨hresult, time, hstands⟩ := process_of_obstacle hcalm hregistry hget hsteps
        hopen hw₃ hd houtcome (by simpa using hclear) hreason
      refine ⟨.inr ⟨earlier, t, later, e, time, hsplit, by simpa using hclear, hmandatory, he,
        hresult, hstands.started, hstands.rows, hstands.status.trans hstatus.symm⟩, ?_⟩
      rw [hstands.rows, filter_not_pending_settled (fun _ => rfl) hwaited]

theorem bare_calm (id : String) : Surroundings.bare.Calm id :=
  ⟨fun _ => rfl, fun _ _ _ => rfl, fun _ _ => rfl, fun _ _ => rfl⟩

theorem hash_stray (s : Surroundings) {desk : Desk} (hcopy : desk.copy = .stray) :
    (Handler.hash s desk).1 = .error (.error (.storage (.invalidHash "?"))) := by
  have hnone : isContentHash "?" = false := by decide
  refine congrArg Prod.fst (Handler.hash_of_noPath ?_)
  rw [hcopy]
  simp [Storage.documentPath, Storage.documentPath?, Storage.contentPath?, Document.stray,
    hnone]

/-- What becomes of the steps of a document that cannot be hashed. -/
def strayOutcome (t : Step) : Except PipelineError Unit :=
  if t = .hash then .error (.storage (.invalidHash "?")) else .ok ()

/-- The rows of a document that waits to be hashed and for its rules. -/
def strayRows : List JobRow := [.pending "d" .hash default, .pending "d" .rules default]

theorem pendingJobs_strayRows : ∃ jobs, (World.stray strayRows).store.pendingJobs "d" = .ok jobs ∧
    jobs.map (·.step) = [.hash, .rules] :=
  ⟨_, Store.readJobs_of_sorted (by decide) rfl (by decide), rfl⟩

theorem outcome_strayRows {t : Step} {desk : Desk}
    (h : BeginsIn Handler.ofStep "d" .bare (.stray strayRows) t desk) :
    (Handler.ofStep Surroundings.bare.scratch t .bare desk).1 =
      (strayOutcome t).mapError .error := by
  obtain ⟨jobs, hpending, hsteps⟩ := pendingJobs_strayRows
  obtain ⟨d, w₁, steps, w₂, w₃, hget, hread, -, hbegins⟩ := h
  obtain ⟨_, _, _, hget', hread', -, -⟩ := opened_of_calm (w := .stray strayRows)
    (bare_calm "d") (d := .stray) rfl hpending ⟨_, rfl⟩
  rw [hget'] at hget
  cases hget
  rw [hread', hsteps] at hread
  cases hread
  cases hbegins with
  | here hbegin =>
      have hcopy := congrArg (fun r => r.2.copy) hbegin
      exact hash_stray _ (hcopy.symm.trans begin_copy)
  | later hstep _ =>
      obtain ⟨began, hbegin, hresult⟩ := succeeded_of_runStep_none rfl hstep
      have hcopy := congrArg (fun r => r.2.copy) hbegin
      have hfails := hash_stray .bare (hcopy.symm.trans begin_copy)
      cases hresult.symm.trans hfails

/-- A document that cannot be hashed: nothing behind the hash is run. -/
theorem process_outcome_stray :
    ∃ time, (process "d" .bare (.stray [.pending "d" .hash default,
        .pending "d" .rules default])).2.store.jobsFor "d" =
      [(JobRow.pending "d" .hash default).deferred "Invalid content hash: '?'" time,
        .pending "d" .rules default] := by
  obtain ⟨jobs, hpending, hsteps⟩ := pendingJobs_strayRows
  obtain ⟨-, -, hresult, -⟩ := process_outcome (w := .stray strayRows) (d := .stray)
    (bare_calm "d") Registry.builtin_keepsIdentity (by decide) rfl hpending ⟨_, rfl⟩
    fun _ _ => outcome_strayRows
  rw [hsteps] at hresult
  rcases hresult with ⟨-, hclear, -⟩ |
    ⟨earlier, t, later, e, time, hsplit, hclear, -, he, -, -, hrows, -⟩
  · have hhash := hclear .hash List.mem_cons_self
    cases hhash
  · cases earlier with
    | cons u rest =>
        obtain ⟨rfl, -⟩ := List.cons.inj hsplit
        have hhash := hclear .hash List.mem_cons_self
        cases hhash
    | nil =>
        cases hsplit
        cases he
        exact ⟨time, hrows⟩

end Pass

end Docket
