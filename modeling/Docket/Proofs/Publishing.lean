import Docket.Proofs.Mirror
import Docket.Search.Basic

/-!
What a pass hands to the search index, and why it is not always what is stored.
-/

namespace Docket

open Docket.Calendar (Instant)


/-! What is published. -/

/-- An entry as it is published. -/
def Entry.text (e : Entry) : String := e.key ++ ":" ++ e.value

theorem Store.nameEntry?_isSome {st : Store} {r : EntryRow} (hkey : st.hasKey r.keyId = true)
    (hvalue : st.hasValue r.valueId = true) : (st.nameEntry? r).isSome = true := by
  obtain ⟨k, hk⟩ : ∃ k, st.keys.find? (·.id = r.keyId) = some k := by
    apply Option.isSome_iff_exists.mp
    simpa [hasKey] using hkey
  obtain ⟨v, hv⟩ : ∃ v, st.values.find? (·.id = r.valueId) = some v := by
    apply Option.isSome_iff_exists.mp
    simpa [hasValue] using hvalue
  rw [nameEntry?_of_find? hk hv]
  rfl

/-- Entries of a copy are published like what is stored of them, but for those that were
added without names. -/
theorem Attached.texts_perm {base st : Store} {Added : Int × Int → Prop} {id : String}
    {entries : List Entry} (h : Attached base Added entries) (hvocabulary : base.SameVocabulary st)
    (hthere : ∀ e ∈ entries, base.hasKey e.keyId = true ∧ base.hasValue e.valueId = true)
    (hrows : st.entryRows id = entries.map (Entry.row id)) :
    ∃ added : List (Int × Int), (∀ ids ∈ added, Added ids) ∧
      (entries.map Entry.text).Perm ((st.documentEntries id).map fun e =>
        if e.ids ∈ added then ":" else e.text) := by
  classical
  let nameless := entries.filter fun e => ¬ base.Names e
  let stored (e : Entry) : Entry := (base.nameEntry? (e.row id)).getD e
  have hstored : ∀ e ∈ entries, base.nameEntry? (e.row id) = some (stored e) := by
    intro e he
    obtain ⟨e', he'⟩ := Option.isSome_iff_exists.mp
      (Store.nameEntry?_isSome (r := e.row id) (hthere e he).1 (hthere e he).2)
    simp only [stored, he', Option.getD_some]
  have hperm : (st.documentEntries id).Perm (entries.map stored) := by
    refine (st.documentEntries_perm id).trans (.of_eq ?_)
    obtain ⟨documents, jobs, rows, rfl⟩ := hvocabulary
    rw [hrows, List.filterMap_map, ← List.filterMap_eq_map]
    exact List.filterMap_congr hstored
  refine ⟨nameless.map Entry.ids, ?_, ?_⟩
  · intro ids hids
    obtain ⟨e, he, rfl⟩ := List.mem_map.mp hids
    obtain ⟨hmem, hnot⟩ := List.mem_filter.mp he
    exact ((h.named e hmem).resolve_left (by simpa using hnot)).1
  · refine List.Perm.trans (.of_eq ?_) (hperm.symm.map _)
    rw [List.map_map]
    apply List.map_congr_left
    intro e he
    have hids : (stored e).ids = e.ids := Store.ids_of_named (hstored e he)
    have hnameless : (stored e).ids ∈ nameless.map Entry.ids ↔ ¬ base.Names e := by
      rw [hids]
      constructor
      · intro hmem
        obtain ⟨e', he', heq⟩ := List.mem_map.mp hmem
        obtain ⟨hmem', hnot⟩ := List.mem_filter.mp he'
        rw [← List.inj_on_of_nodup_map h.nodup hmem' he heq]
        simpa using hnot
      · intro hnot
        exact List.mem_map_of_mem (List.mem_filter.mpr ⟨he, by simpa using hnot⟩)
    simp only [Function.comp]
    by_cases hnames : base.Names e
    · rw [if_neg (by rw [hnameless]; exact not_not_intro hnames)]
      have hsame := hstored e he
      rw [hnames id] at hsame
      rw [← Option.some.inj hsame]
    · obtain ⟨-, hkey, hvalue⟩ := (h.named e he).resolve_left hnames
      rw [if_pos (hnameless.mpr hnames), Entry.text, hkey, hvalue]
      rfl

/-- The document that the last step hands over. -/
def Desk.handed (desk : Desk) : Document :=
  { desk.copy with
    metadata := some (desk.copy.metadata.getD (desk.world.store.documentEntries desk.copy.id))
    tags := some (desk.world.store.documentTags desk.copy.id) }

namespace Handler

theorem offer_snd (d : Document) (s : Surroundings) (w : World) :
    (offer d s w).2 = { w with offered := d :: w.offered } := by
  have hoffer : offer d s w =
      Act.ofExcept .search (s.search d) s { w with offered := d :: w.offered } := rfl
  rw [hoffer]
  cases s.search d <;> rfl

theorem offer_copy_snd (s : Surroundings) (desk : Desk) :
    ((Act.copy >>= fun d => Act.onWorld (offer d)) s desk).2 =
      { desk with world :=
        { desk.world with offered := desk.copy :: desk.world.offered } } :=
  congrArg (fun w => ({ desk with world := w } : Desk)) (offer_snd desk.copy s desk.world)

/-- What follows once the entries of the copy are loaded: its tags are, and it is handed
over. -/
theorem offer_with_tags {s : Surroundings} (hquiet : s.Quiet) (desk : Desk)
    (htags : desk.copy.tags = none) :
    let x : Act Desk Unit := do
      let d ← Act.copy
      if d.tags.isNone then
        let tags ← Act.onWorld
          (.ask (.documentTags d.id) fun st => .ok (st.documentTags d.id))
        Act.setCopy { d with tags := some tags }
      Act.onWorld (offer (← Act.copy))
    (x s desk).2.world.offered = { desk.copy with
        tags := some (desk.world.store.documentTags desk.copy.id) } :: desk.world.offered ∧
      (x s desk).2.world.store = desk.world.store := by
  intro x
  let asked := desk.next s (.call (.documentTags desk.copy.id))
  let loaded : Desk := { asked with copy := { desk.copy with
    tags := some (desk.world.store.documentTags desk.copy.id) } }
  have hasks : ∀ now st, (StoreCall.documentTags desk.copy.id).perform now st = .ok st :=
    fun _ _ => rfl
  have hx : x s desk = (Act.copy >>= fun d => Act.onWorld (offer d)) s loaded := by
    have hcopy : Act.copy s desk = (.ok desk.copy, desk) := rfl
    have hnone : desk.copy.tags.isNone = true := by
      rw [htags]
      rfl
    have hask := hquiet.ask_eq desk hasks fun st => .ok (st.documentTags desk.copy.id)
    simp only [x]
    rw [Act.bind_of_ok hcopy, if_pos hnone, Act.bind_of_ok hask]
    rfl
  rw [hx, offer_copy_snd]
  exact ⟨rfl, hquiet.next_store_of_ask desk hasks⟩

/-- The last step hands over the copy, with what is stored of its entries where none are
loaded, and with its tags. -/
theorem ftsIndex_of_quiet {s : Surroundings} (hquiet : s.Quiet) {desk : Desk}
    (htags : desk.copy.tags = none) :
    (ftsIndex s desk).2.world.offered = desk.handed :: desk.world.offered ∧
      (ftsIndex s desk).2.world.store = desk.world.store := by
  have hcopy : Act.copy s desk = (.ok desk.copy, desk) := rfl
  unfold ftsIndex
  rw [Act.bind_of_ok hcopy]
  cases hmetadata : desk.copy.metadata with
  | none =>
      let entries := desk.world.store.documentEntries desk.copy.id
      let asked := desk.next s (.call (.documentEntries desk.copy.id))
      let loaded : Desk := { asked with copy := { desk.copy with metadata := some entries } }
      have hasks : ∀ now st,
          (StoreCall.documentEntries desk.copy.id).perform now st = .ok st :=
        fun _ _ => rfl
      have hask := hquiet.ask_eq desk hasks fun st => .ok (st.documentEntries desk.copy.id)
      have hstore : loaded.world.store = desk.world.store :=
        hquiet.next_store_of_ask desk hasks
      have hload : Act.setCopy { desk.copy with metadata := some entries } s asked =
          (.ok (), loaded) := rfl
      obtain ⟨hoffered, hkept⟩ := offer_with_tags hquiet loaded htags
      have hnone : (none : Option (List Entry)).isNone = true := rfl
      dsimp only
      rw [if_pos hnone, Act.bind_of_ok hask, Act.bind_of_ok hload]
      refine ⟨hoffered.trans ?_, hkept.trans hstore⟩
      unfold Desk.handed
      rw [hstore, hmetadata]
      rfl
  | some entries =>
      have hloaded : ¬ (some entries).isNone = true := Bool.false_ne_true
      dsimp only
      rw [if_neg hloaded]
      obtain ⟨hoffered, hkept⟩ := offer_with_tags hquiet desk htags
      refine ⟨hoffered.trans ?_, hkept⟩
      unfold Desk.handed
      rw [hmetadata, Option.getD_some, ← hmetadata]

end Handler

namespace Pass

open Act (Keeps)

/-- An assertion about desks that says nothing of jobs, moments and events. -/
def Aside (J : Desk → Prop) : Prop :=
  ∀ desk jobs moments events, J desk → J { desk with world := { desk.world with
    store := { desk.world.store with jobs := jobs }, moments := moments, events := events } }

variable {s : Surroundings} {id : String} {t : Step} {J : Desk → Prop}

theorem tell_job_keeps_aside (hquiet : s.Quiet) (hJ : Aside J) {c : StoreCall}
    {job : String × Step} (hjob : c.job? = some job) : Keeps s J (Act.onWorld (.tell c)) := by
  intro desk hdesk
  obtain ⟨jobs, hperform⟩ : ∃ jobs, c.perform (s.clock desk.world.moments) desk.world.store =
      .ok { desk.world.store with jobs := jobs } := by
    cases c with
    | startJob | finishJob | requeueJob | clearJob => exact ⟨_, rfl⟩
    | _ => cases hjob
  have hstore := hquiet.next_store_of_ok hperform
  rw [Desk.next_store] at hstore
  rw [hquiet.tell_of_ok hperform]
  refine ⟨?_, fun _ _ => trivial⟩
  unfold Desk.next World.next
  rw [hstore]
  exact hJ desk jobs _ desk.world.events hdesk

theorem report_keeps_aside (hJ : Aside J) (e : Event) :
    Keeps s J (Act.onWorld (Act.report e)) :=
  fun desk hdesk => ⟨hJ desk desk.world.store.jobs desk.world.moments _ hdesk, fun _ _ => trivial⟩

theorem begin_keeps_aside (hquiet : s.Quiet) (hJ : Aside J) : Keeps s J (begin id t) :=
  .bind (tell_job_keeps_aside hquiet hJ rfl) fun _ _ => report_keeps_aside hJ _

theorem conclude_keeps_aside (hquiet : s.Quiet) (hJ : Aside J) (message : Option String) :
    Keeps s J (conclude id t message) := by
  refine .bind (.attempt (tell_job_keeps_aside hquiet hJ rfl)) fun r _ => ?_
  cases r with
  | error e =>
      refine .bind (tell_job_keeps_aside hquiet hJ rfl) fun _ _ => ?_
      exact .bind (report_keeps_aside hJ _) fun _ _ => .pure trivial
  | ok u =>
      refine .bind (report_keeps_aside hJ _) fun _ _ => ?_
      split
      · exact .bind (tell_job_keeps_aside hquiet hJ rfl) fun _ _ => .pure trivial
      · exact .bind (tell_job_keeps_aside hquiet hJ rfl) fun _ _ => .pure trivial

theorem runStep_keeps_aside (hquiet : s.Quiet) (hJ : Aside J) {handler : Handler}
    (hhandler : Keeps s J handler) : Keeps s J (runStep handler id t) :=
  .bind (begin_keeps_aside hquiet hJ) fun _ _ =>
    .bind (.attempt hhandler) fun _ _ => conclude_keeps_aside hquiet hJ _

/-- What was handed over under a step, its handler has handed over. -/
theorem runStep_offered (hquiet : s.Quiet) {handler : Handler} {desk began : Desk}
    (hbegin : begin id t s desk = (.ok (), began)) :
    (runStep handler id t s desk).2.world.offered = (handler s began).2.world.offered := by
  unfold runStep
  rw [Act.bind_of_ok hbegin]
  rcases Act.attempt_cases handler s began with ⟨r, hr, -⟩ | ⟨i, hi, -⟩
  · rw [Act.bind_of_ok hr]
    exact (conclude_keeps_aside (J := fun desk => desk.world.offered =
      (handler s began).2.world.offered) hquiet (fun _ _ _ _ h => h) (note r) _ rfl).1
  · rw [Act.bind_of_error hi]

theorem runSteps_single_snd {handlers : Step → Handler} {desk : Desk} :
    (runSteps handlers id [t] s desk).2 = (runStep (handlers t) id t s desk).2 := by
  rcases hstep : runStep (handlers t) id t s desk with ⟨i | _ | reason, desk₁⟩
  · rw [runSteps_of_error hstep]
  · rw [runSteps_of_none hstep]
    rfl
  · rw [runSteps_of_some hstep]

theorem Begins.mem {handlers : Step → Handler} {steps : List Step} {desk began : Desk}
    (h : Begins handlers id s steps desk t began) : t ∈ steps := by
  induction h with
  | here => exact List.mem_cons_self
  | later _ _ ih => exact List.mem_cons_of_mem _ ih

/-- A copy that mirrors the store, of a desk from which nothing more was handed over. -/
def Mirrored (base : Store) (Added : Int × Int → Prop) (origin : Document)
    (offered : List Document) (desk : Desk) : Prop :=
  Mirrors base Added origin desk.copy desk.world.store ∧ desk.world.offered = offered

section

variable {base : Store} {Added : Int × Int → Prop} {origin : Document}
  {offered : List Document} {scratch : String} {steps : List Step} {desk began : Desk}

theorem mirrored_aside : Aside (Mirrored base Added origin offered) :=
  fun _ jobs _ _ h => ⟨h.1.changeJobs jobs, h.2⟩

theorem ofStep_keeps_mirrored (hquiet : s.Quiet) (hr : s.registry.ActsBuiltin)
    (hdistinct : base.Distinct)
    (hadds : t = .rules → ∀ ids, base.RuleAdds origin.userId ids → Added ids)
    (ht : t ≠ .ftsIndex) :
    Keeps s (Mirrored base Added origin offered) (Handler.ofStep scratch t) := by
  intro desk hdesk
  have hedited := Handler.ofStep_edits hquiet hdesk.1.hasDocument scratch ht
  refine ⟨⟨?_, hedited.offered.trans hdesk.2⟩, fun _ _ => trivial⟩
  exact hdesk.1.edit hr hdistinct hadds hedited.edit

/-- The last step begins with a copy that mirrors the store, and only it hands over. -/
theorem mirrored_of_begins (hquiet : s.Quiet) (hr : s.registry.ActsBuiltin)
    (hdistinct : base.Distinct)
    (hincreasing : steps.Pairwise fun t u => t.position < u.position)
    (hadds : .rules ∈ steps → ∀ ids, base.RuleAdds origin.userId ids → Added ids)
    (hbegins : Begins (Handler.ofStep scratch) id s steps desk .ftsIndex began)
    (hdesk : Mirrored base Added origin offered desk) :
    Mirrored base Added origin offered began ∧
      (runSteps (Handler.ofStep scratch) id steps s desk).2.world.offered =
        (Handler.ftsIndex s began).2.world.offered := by
  induction steps generalizing desk with
  | nil => cases hbegins
  | cons u rest ih =>
      obtain ⟨hfirst, hrest⟩ := List.pairwise_cons.mp hincreasing
      cases hbegins with
      | here hbegin =>
          have hlast : rest = [] := by
            apply List.eq_nil_iff_forall_not_mem.mpr
            intro v hv
            have hbehind : Step.ftsIndex.position < v.position := hfirst v hv
            cases v <;> exact absurd hbehind (by decide)
          have hbegun : Mirrored base Added origin offered (begin id .ftsIndex s desk).2 :=
            (begin_keeps_aside hquiet mirrored_aside desk hdesk).1
          rw [hbegin] at hbegun
          refine ⟨hbegun, ?_⟩
          rw [hlast, runSteps_single_snd, runStep_offered hquiet hbegin]
          rfl
      | later hstep hlater =>
          have hu : u ≠ .ftsIndex := by
            rintro rfl
            exact absurd (hfirst _ hlater.mem) (Nat.lt_irrefl _)
          have hkept : Keeps s (Mirrored base Added origin offered)
              (Handler.ofStep scratch u) :=
            ofStep_keeps_mirrored hquiet hr hdistinct
              (fun h => hadds (h ▸ List.mem_cons_self)) hu
          have hnext : Mirrored base Added origin offered
              (runStep (Handler.ofStep scratch u) id u s desk).2 :=
            (runStep_keeps_aside hquiet mirrored_aside hkept desk hdesk).1
          rw [hstep] at hnext
          rw [runSteps_of_none hstep]
          exact ih hrest (fun h => hadds (List.mem_cons_of_mem u h)) hlater hnext

end

/-! A whole pass. -/

/-- A call that asks leaves the store as it is, and hands nothing over. -/
theorem ask_ok {α : Type} (hquiet : s.Quiet) {c : StoreCall}
    (hasks : ∀ now st, c.perform now st = .ok st) {run : Store → Except StoreError α}
    {w w' : World} {a : α} (h : Act.ask c run s w = (.ok a, w')) :
    run w.store = .ok a ∧ w'.store = w.store ∧ w'.offered = w.offered := by
  obtain ⟨hrun, rfl, hstore⟩ := Act.ask_eq_ok hasks h
  rw [hquiet.alone] at hrun hstore
  exact ⟨hrun, hstore, rfl⟩

theorem openScratch_shown (s : Surroundings) (w : World) :
    (openScratch s w).2.store = w.store ∧ (openScratch s w).2.offered = w.offered := by
  have hsurroundings : Act.surroundings s w = (.ok s, w) := rfl
  have hstate : Act.state s w = (.ok w, w) := rfl
  unfold openScratch
  rw [Act.bind_of_ok hsurroundings, Act.bind_of_ok hstate]
  cases w.files.makeDirectories s.scratch with
  | ok files => exact ⟨rfl, rfl⟩
  | error fault => exact ⟨rfl, rfl⟩

theorem tell_offered (c : StoreCall) (s : Surroundings) (w : World) :
    (Act.tell c s w).2.offered = w.offered := by
  cases hstop : s.stops w.moments with
  | true => rw [Act.tell_of_stop c hstop]
  | false =>
      rw [Act.tell_of_go c hstop]
      rfl

theorem ask_offered {α : Type} {c : StoreCall} (hasks : ∀ now st, c.perform now st = .ok st)
    (run : Store → Except StoreError α) (s : Surroundings) (w : World) :
    (Act.ask c run s w).2.offered = w.offered := by
  cases hstop : s.stops w.moments with
  | true => rw [Act.ask_of_stop c run hstop]
  | false =>
      rw [Act.ask_of_go c run hasks hstop]
      rfl

theorem settle_offered (id : String) (s : Surroundings) (w : World) :
    (settle id s w).2.offered = w.offered := by
  have hkeeps : Keeps s (fun w' : World => w'.offered = w.offered) (settle id) := by
    refine .bind (Q := fun _ => True) ?_ fun steps _ => ?_
    · intro w' hw'
      exact ⟨(ask_offered (fun _ _ => rfl) _ s w').trans hw', fun _ _ => trivial⟩
    · split
      · intro w' hw'
        exact ⟨(tell_offered _ s w').trans hw', fun _ _ => trivial⟩
      · exact .pure trivial
  exact (hkeeps w rfl).1

/-- A pass that has opened hands over what its steps hand over. -/
theorem process_offered {w w₁ w₂ w₃ : World} {d : Document} {steps : List Step}
    (hget : Act.ask (.getDocument id) (·.getDocument id) s w = (.ok d, w₁))
    (hpending : pending id s w₁ = (.ok steps, w₂))
    (hopen : openScratch s w₂ = (.ok (), w₃)) :
    (process id s w).2.offered =
      (runSteps (Handler.ofStep s.scratch) id steps s ⟨w₃, d⟩).2.world.offered := by
  have hclosed : ∀ (x : Act World DocumentOutcome) w,
      (x.followedBy closeScratch s w).2.offered = (x s w).2.offered := by
    intro x w
    rcases hx : x s w with ⟨i | a, w'⟩
    · cases i <;> simp only [Act.followedBy, hx] <;> rfl
    · simp only [Act.followedBy, hx]
      rfl
  rw [process, run_of_opened hget hpending hopen, hclosed]
  rcases hrun : runSteps (Handler.ofStep s.scratch) id steps s ⟨w₃, d⟩ with
    ⟨i | _ | ⟨t, reason⟩, desk⟩
  · rw [runWith_of_error hrun]
  · rw [runWith_of_none hrun]
    have hsettled := settle_offered id s desk.world
    rcases hsettle : settle id s desk.world with ⟨i | u, w'⟩
    · rw [hsettle] at hsettled
      rw [Act.bind_of_error hsettle]
      exact hsettled
    · rw [hsettle] at hsettled
      rw [Act.bind_of_ok hsettle]
      exact hsettled
  · rw [runWith_of_deferred hrun]
    rfl

/-- Steps among which the last does not begin hand nothing over. -/
theorem runSteps_offered_of_not_begins {scratch : String} {steps : List Step} {desk : Desk}
    {base : Store} {origin : Document} {offered : List Document} (hquiet : s.Quiet)
    (hr : s.registry.ActsBuiltin) (hdistinct : base.Distinct)
    (hnot : ∀ began, ¬ Begins (Handler.ofStep scratch) id s steps desk .ftsIndex began)
    (hdesk : Mirrored base (fun _ => True) origin offered desk) :
    (runSteps (Handler.ofStep scratch) id steps s desk).2.world.offered = offered := by
  induction steps generalizing desk with
  | nil => exact hdesk.2
  | cons u rest ih =>
      by_cases hu : u = .ftsIndex
      · subst hu
        have hbegun : Mirrored base (fun _ => True) origin offered
            (begin id .ftsIndex s desk).2 :=
          (begin_keeps_aside hquiet mirrored_aside desk hdesk).1
        rcases hbegin : begin id .ftsIndex s desk with ⟨i | v, desk₁⟩
        · rw [hbegin] at hbegun
          have hstep : runStep (Handler.ofStep scratch .ftsIndex) id .ftsIndex s desk =
              (.error i, desk₁) := Act.bind_of_error hbegin
          rw [runSteps_of_error hstep]
          exact hbegun.2
        · exact absurd (.here hbegin) (hnot desk₁)
      · have hkept : Keeps s (Mirrored base (fun _ => True) origin offered)
            (Handler.ofStep scratch u) :=
          ofStep_keeps_mirrored hquiet hr hdistinct (fun _ _ _ => trivial) hu
        have hnext : Mirrored base (fun _ => True) origin offered
            (runStep (Handler.ofStep scratch u) id u s desk).2 :=
          (runStep_keeps_aside hquiet mirrored_aside hkept desk hdesk).1
        rcases hstep : runStep (Handler.ofStep scratch u) id u s desk with
          ⟨i | _ | reason, desk₁⟩
        · rw [hstep] at hnext
          rw [runSteps_of_error hstep]
          exact hnext.2
        · rw [hstep] at hnext
          rw [runSteps_of_none hstep]
          exact ih (fun began hbegins => hnot began (.later hstep hbegins)) hnext
        · rw [hstep] at hnext
          rw [runSteps_of_some hstep]
          exact hnext.2

/-- A pass opens, or it has ended before with nothing handed over. -/
theorem opened_or_offered (id : String) (s : Surroundings) (w : World) :
    (∃ d w₁ steps w₂ w₃,
      Act.ask (.getDocument id) (·.getDocument id) s w = (.ok d, w₁) ∧
      pending id s w₁ = (.ok steps, w₂) ∧ openScratch s w₂ = (.ok (), w₃)) ∨
    (process id s w).2.offered = w.offered := by
  have hsurroundings : Act.surroundings s w = (.ok s, w) := rfl
  have hasked := ask_offered (c := .getDocument id) (fun _ _ => rfl) (·.getDocument id) s w
  rcases hget : Act.ask (.getDocument id) (·.getDocument id) s w with ⟨i | d, w₁⟩
  · rw [hget] at hasked
    rw [process, run, Act.bind_of_ok hsurroundings, Act.bind_of_error hget]
    exact .inr hasked
  rw [hget] at hasked
  have hwaiting : (pending id s w₁).2.offered = w₁.offered :=
    ask_offered (fun _ _ => rfl) _ s w₁
  rcases hpending : pending id s w₁ with ⟨i | steps, w₂⟩
  · rw [hpending] at hwaiting
    rw [process, run, Act.bind_of_ok hsurroundings, Act.bind_of_ok hget,
      Act.bind_of_error hpending]
    exact .inr (hwaiting.trans hasked)
  rw [hpending] at hwaiting
  have hopened := (openScratch_shown s w₂).2
  rcases hopen : openScratch s w₂ with ⟨i | u, w₃⟩
  · rw [hopen] at hopened
    rw [process, run, Act.bind_of_ok hsurroundings, Act.bind_of_ok hget,
      Act.bind_of_ok hpending, Act.bind_of_error hopen]
    exact .inr (hopened.trans (hwaiting.trans hasked))
  · exact .inl ⟨d, w₁, steps, w₂, w₃, rfl, hpending, hopen⟩

/-- The copy that a pass opens with mirrors the store. -/
theorem mirrored_of_opened (hquiet : s.Quiet) {w w₁ w₂ w₃ : World} {d : Document}
    {steps : List Step} (hdistinct : w.store.Distinct) (Added : Int × Int → Prop)
    (hget : Act.ask (.getDocument id) (·.getDocument id) s w = (.ok d, w₁))
    (hpending : pending id s w₁ = (.ok steps, w₂)) (hopen : openScratch s w₂ = (.ok (), w₃)) :
    (∃ row, w.store.documentRow? id = some row ∧ row.read = .ok d) ∧
      (∃ jobs, w.store.pendingJobs id = .ok jobs ∧ jobs.map (·.step) = steps) ∧
      Mirrored w.store Added d w.offered ⟨w₃, d⟩ := by
  obtain ⟨hread, hstore₁, hoffered₁⟩ := ask_ok hquiet (fun _ _ => rfl) hget
  obtain ⟨hjobs, hstore₂, hoffered₂⟩ := ask_ok hquiet (fun _ _ => rfl) hpending
  have hopened := openScratch_shown s w₂
  rw [hopen] at hopened
  have hstore : w₃.store = w.store := hopened.1.trans (hstore₂.trans hstore₁)
  obtain ⟨row, hrow, hrowRead⟩ := row_of_getDocument hread
  obtain ⟨hshows, -, hmetadata, -⟩ := DocumentRow.shows_of_read hrowRead
  have hid := (status_of_getDocument hread).1
  refine ⟨⟨row, hrow, hrowRead⟩, ?_, ⟨.refl d, ?_, ?_, ?_, ?_⟩,
    hopened.2.trans (hoffered₂.trans hoffered₁)⟩
  · rw [hstore₁] at hjobs
    cases hpendingJobs : w.store.pendingJobs id with
    | error e =>
        rw [hpendingJobs] at hjobs
        cases hjobs
    | ok jobs =>
        rw [hpendingJobs] at hjobs
        cases hjobs
        exact ⟨jobs, rfl, rfl⟩
  · rw [hstore]
    exact ⟨w.store.documents, w.store.jobs, w.store.entries, rfl⟩
  · rw [hstore, hid]
    exact ⟨row, hrow, hshows⟩
  · rw [hstore]
    exact hdistinct.entries.filter _
  · intro entries hentries
    rw [hmetadata] at hentries
    cases hentries

/-- Where the last step begins, its copy mirrors the store, and is what the pass hands
over. -/
theorem mirrors_of_beginsIn (hquiet : s.Quiet) (hr : s.registry.ActsBuiltin) {w : World}
    (hkeyed : w.store.Keyed) (hdistinct : w.store.Distinct) {began : Desk}
    (hbegins : BeginsIn Handler.ofStep id s w .ftsIndex began) :
    ∃ d before jobs, w.store.documentRow? id = some before ∧ before.read = .ok d ∧
      w.store.pendingJobs id = .ok jobs ∧
      Mirrors w.store (fun ids => w.store.RuleAdds d.userId ids ∧ .rules ∈ jobs.map (·.step)) d
        began.copy began.world.store ∧
      (process id s w).2.offered = began.handed :: w.offered := by
  obtain ⟨d, w₁, steps, w₂, w₃, hget, hpending, hopen, hbegins⟩ := hbegins
  obtain ⟨⟨before, hbefore, hread⟩, ⟨jobs, hjobs, hsteps⟩, hopened⟩ :=
    mirrored_of_opened hquiet hdistinct
      (fun ids => w.store.RuleAdds d.userId ids ∧ .rules ∈ steps) hget hpending hopen
  obtain ⟨-, -, -, htags⟩ := DocumentRow.shows_of_read hread
  have hincreasing := Store.pendingSteps_increasing hkeyed hjobs
  rw [hsteps] at hincreasing
  obtain ⟨⟨hmirrors, hbegun⟩, hoffered⟩ := mirrored_of_begins hquiet hr hdistinct hincreasing
    (fun hrules ids hadds => ⟨hadds, hrules⟩) hbegins hopened
  obtain ⟨hhanded, -⟩ := Handler.ftsIndex_of_quiet hquiet (hmirrors.same.tags.trans htags)
  rw [← hsteps] at hmirrors
  refine ⟨d, before, jobs, hbefore, hread, hjobs, hmirrors, ?_⟩
  rw [process_offered hget hpending hopen, hoffered, hhanded, hbegun]

end Pass

/-! A rule whose entry is published without names. -/

theorem Store.activeRules_of_single {st : Store} {userId : Int} {r : RuleRow} {rule : Rule}
    {conditions : List Condition} {actions : List Action}
    (hrow : (st.rules.filter fun r => r.userId = userId && r.enabled) = [r])
    (hread : r.read = .ok rule) (hconditions : st.conditionsOf rule.id = .ok conditions)
    (hactions : st.actionsOf rule.id = .ok actions) :
    st.activeRules userId = .ok [{ rule with conditions := conditions, actions := actions }] := by
  unfold activeRules
  rw [hrow, List.mergeSort_singleton]
  simp only [List.mapM_cons, List.mapM_nil, hread, bind, Except.bind, pure, Except.pure,
    hconditions, hactions]

/-- A rule that adds the entry of a vendor. -/
def Rule.vendor : Rule where
  id := 1
  userId := 0
  name := "vendor"
  order := 0
  actions := [{ id := 1, kind := .addEntry, metadataKey := some 1, metadataValue := some 1 }]

/-- A world with one document, whose owner has the rule of a vendor, and some jobs. -/
def World.ruled (jobs : List JobRow) : World where
  store := {
    documents := [.ofDocument .stray]
    jobs := jobs
    keys := [⟨1, 0, "vendor"⟩]
    values := [⟨1, 1, "ACME", false, "exact", ""⟩]
    rules := [.ofRule 1 .vendor]
    actions := [⟨1, 1, 0, "metadata_add", "", true, true, some 1, some 1⟩] }
  files := .empty

namespace Pass

/-- The jobs of a document whose rules are to be applied before it is published. -/
def ruledJobs : List JobRow := [.pending "d" .rules default, .pending "d" .ftsIndex default]

theorem bare_quiet : Surroundings.bare.Quiet :=
  ⟨fun _ => rfl, fun _ _ => rfl, fun _ _ => rfl⟩

theorem builtin_actsBuiltin : Registry.builtin.ActsBuiltin := by
  rintro kind f ⟨⟩
  rfl

theorem activeRules_ruled (jobs : List JobRow) :
    (World.ruled jobs).store.activeRules 0 = .ok [.vendor] := by
  refine Store.activeRules_of_single (r := .ofRule 1 .vendor) rfl rfl ?_ ?_
  · exact congrArg (List.mapM ConditionRow.read) List.mergeSort_nil
  · exact congrArg (List.mapM ActionRow.read) (List.mergeSort_singleton _)

theorem autoMatchValues_ruled (jobs : List JobRow) :
    (World.ruled jobs).store.autoMatchValues 0 = .ok [] := by
  have hnone : ((World.ruled jobs).store.values.filterMap fun v =>
      ((World.ruled jobs).store.keys.find? fun k => k.id = v.keyId && k.userId = 0).map
        fun k => (k, v)).filter (·.2.automatic) = [] := rfl
  unfold Store.autoMatchValues
  dsimp only
  rw [hnone, List.mergeSort_nil]
  rfl

theorem documentEntries_ruled (jobs : List JobRow) :
    (World.ruled jobs).store.documentEntries "d" = [] := by
  have hperm := (World.ruled jobs).store.documentEntries_perm "d"
  exact hperm.eq_nil

theorem pendingJobs_ruled : ∃ jobs, (World.ruled ruledJobs).store.pendingJobs "d" = .ok jobs ∧
    jobs.map (·.step) = [.rules, .ftsIndex] := by
  have hreads : ∀ r ∈ ruledJobs, ∃ b, r.read = .ok b := by
    intro r hr
    simp only [ruledJobs, List.mem_cons, List.not_mem_nil, or_false] at hr
    rcases hr with rfl | rfl
    · exact ⟨_, rfl⟩
    · exact ⟨_, rfl⟩
  obtain ⟨jobs, hjobs⟩ : ∃ jobs, (World.ruled ruledJobs).store.pendingJobs "d" = .ok jobs :=
    Store.readJobs_ok hreads
  refine ⟨jobs, hjobs, ?_⟩
  apply Store.pendingSteps_eq (by decide) hjobs (by decide)
  intro t
  cases t <;> decide

theorem opened_ruled : ∃ w₁ w₂ w₃,
    Act.ask (.getDocument "d") (·.getDocument "d") .bare (.ruled ruledJobs) = (.ok .stray, w₁) ∧
    pending "d" .bare w₁ = (.ok [.rules, .ftsIndex], w₂) ∧
    openScratch .bare w₂ = (.ok (), w₃) ∧ w₃.store = (World.ruled ruledJobs).store := by
  obtain ⟨jobs, hjobs, hsteps⟩ := pendingJobs_ruled
  obtain ⟨w₁, w₂, w₃, hget, hpending, hopen, -⟩ :=
    opened_of_calm (w := .ruled ruledJobs) (bare_calm "d") rfl hjobs ⟨_, rfl⟩
  rw [hsteps] at hpending
  have hstore₁ := (ask_ok bare_quiet (fun _ _ => rfl) hget).2.1
  have hstore₂ := (ask_ok bare_quiet (fun _ _ => rfl) hpending).2.1
  have hstore₃ := (openScratch_shown .bare w₂).1
  rw [hopen] at hstore₃
  exact ⟨w₁, w₂, w₃, hget, hpending, hopen, hstore₃.trans (hstore₂.trans hstore₁)⟩

theorem begin_of_quiet {s : Surroundings} (hquiet : s.Quiet) (id : String) (t : Step)
    (desk : Desk) : ∃ desk', begin id t s desk = (.ok (), desk') :=
  ⟨_, begin_of_started (hquiet.tell_of_ok rfl)⟩

theorem conclude_of_quiet {s : Surroundings} (hquiet : s.Quiet) (id : String) (t : Step)
    (desk : Desk) : ∃ desk', conclude id t none s desk = (.ok none, desk') := by
  have hfinish : Act.onWorld (finish id t none) s desk =
      (.ok (), desk.next s (.call (.finishJob id t none))) := hquiet.tell_of_ok rfl
  rw [conclude_of_cleared (.inr rfl) hfinish]
  exact ⟨_, Act.bind_of_ok (hquiet.tell_of_ok rfl)⟩

/-- The entry of the vendor as it is stored. -/
def VendorStored (st : Store) : Prop :=
  st.entries = [⟨"d", 1, 1⟩] ∧ st.keys = [⟨1, 0, "vendor"⟩] ∧
    st.values = [⟨1, 1, "ACME", false, "exact", ""⟩]

theorem documentEntries_of_vendorStored {st : Store} (h : VendorStored st) :
    st.documentEntries "d" = [⟨1, "vendor", 1, "ACME"⟩] := by
  obtain ⟨hentries, hkeys, hvalues⟩ := h
  have hname : st.nameEntry? ⟨"d", 1, 1⟩ = some ⟨1, "vendor", 1, "ACME"⟩ := by
    unfold Store.nameEntry?
    rw [hkeys, hvalues]
    rfl
  apply List.perm_singleton.mp
  have hperm := st.documentEntries_perm "d"
  unfold Store.entryRows at hperm
  rw [hentries] at hperm
  exact hperm.trans (.of_eq (List.filterMap_cons_some hname))

/-- The entry of the vendor is stored with its names, and the copy has it without. -/
theorem begins_ruled : ∃ began,
    BeginsIn Handler.ofStep "d" .bare (.ruled ruledJobs) .ftsIndex began ∧
      began.copy.metadata = some [⟨1, "", 1, ""⟩] ∧
      began.world.store.documentEntries "d" = [⟨1, "vendor", 1, "ACME"⟩] := by
  obtain ⟨w₁, w₂, w₃, hget, hpending, hopen, hstore⟩ := opened_ruled
  let updated : Document := { Document.stray with metadata := some [⟨1, "", 1, ""⟩] }
  let J (desk : Desk) : Prop :=
    desk.copy = .stray ∧ ∃ jobs, desk.world.store = (World.ruled jobs).store
  let K (desk : Desk) : Prop := desk.copy = updated ∧ VendorStored desk.world.store
  have hJ : Aside J := by
    rintro desk jobs moments events ⟨hcopy, rows, hrows⟩
    refine ⟨hcopy, jobs, ?_⟩
    dsimp only
    rw [hrows]
    rfl
  have hK : Aside K := fun _ _ _ _ h => h
  -- The rules are applied, and the copy and the store are changed.
  obtain ⟨desk₁, hbegin⟩ := begin_of_quiet bare_quiet "d" .rules ⟨w₃, .stray⟩
  have hdesk₁ : J (begin "d" .rules .bare ⟨w₃, .stray⟩).2 :=
    (begin_keeps_aside bare_quiet hJ _ ⟨rfl, ruledJobs, hstore⟩).1
  rw [hbegin] at hdesk₁
  obtain ⟨hcopy₁, jobs, hstore₁⟩ := hdesk₁
  have hvendor : desk₁.world.store.activeRules desk₁.copy.userId = .ok [.vendor] := by
    rw [hstore₁, hcopy₁]
    exact activeRules_ruled jobs
  have hvalues : desk₁.world.store.autoMatchValues desk₁.copy.userId = .ok [] := by
    rw [hstore₁, hcopy₁]
    exact autoMatchValues_ruled jobs
  have hupdated : desk₁.copy.ruled Surroundings.bare.registry
      (desk₁.world.store.documentEntries desk₁.copy.id) [] [.vendor] = updated := by
    have hnone : desk₁.world.store.documentEntries desk₁.copy.id = [] := by
      rw [hstore₁, hcopy₁]
      exact documentEntries_ruled jobs
    rw [hnone, hcopy₁]
    rfl
  have hfits : ∀ now, ∃ st', (StoreCall.updateWithEntries updated).perform now
      desk₁.world.store = .ok st' := by
    rw [hstore₁]
    exact fun now => ⟨_, rfl⟩
  obtain ⟨desk₂, now, hrules, hcopy₂, hstored⟩ :=
    Handler.rules_of_quiet bare_quiet desk₁ hvendor hvalues hupdated hfits
  have hdesk₂ : K desk₂ := by
    rw [hstore₁] at hstored
    have hstore₂ := Except.ok.inj hstored
    refine ⟨hcopy₂, ?_⟩
    rw [← hstore₂]
    exact ⟨rfl, rfl, rfl⟩
  obtain ⟨desk₃, hconclude⟩ := conclude_of_quiet bare_quiet "d" .rules desk₂
  have hdesk₃ : K (conclude "d" .rules none .bare desk₂).2 :=
    (conclude_keeps_aside bare_quiet hK none desk₂ hdesk₂).1
  rw [hconclude] at hdesk₃
  have hstep : runStep (Handler.ofStep "/scratch" .rules) "d" .rules .bare ⟨w₃, .stray⟩ =
      (.ok none, desk₃) := by
    unfold runStep
    have hattempt : (Handler.ofStep "/scratch" .rules).attempt .bare desk₁ =
        (.ok (.ok ()), desk₂) := Act.attempt_of_ok hrules
    rw [Act.bind_of_ok hbegin, Act.bind_of_ok hattempt]
    exact hconclude
  -- The last step begins with what they have made.
  obtain ⟨began, hlast⟩ := begin_of_quiet bare_quiet "d" .ftsIndex desk₃
  have hbegan : K (begin "d" .ftsIndex .bare desk₃).2 :=
    (begin_keeps_aside bare_quiet hK desk₃ hdesk₃).1
  rw [hlast] at hbegan
  obtain ⟨hcopy, hentry⟩ := hbegan
  refine ⟨began, ⟨.stray, w₁, _, w₂, w₃, hget, hpending, hopen, .later hstep (.here hlast)⟩,
    ?_, documentEntries_of_vendorStored hentry⟩
  rw [hcopy]

variable {s : Surroundings} {id : String}

/-- What is handed over in a pass of which no call is refused, and with which nobody
interferes, is what is stored: the fields of the document, its tags and its entries, but
for some that an active rule has added in the pass, which are published without names.
When it was last changed is the one field that is not kept up with the store. -/
theorem process_publishes {w : World} (hquiet : s.Quiet) (hr : s.registry.ActsBuiltin)
    (hkeyed : w.store.Keyed) (hdistinct : w.store.Distinct) :
    ((∀ began, ¬ BeginsIn Handler.ofStep id s w .ftsIndex began) →
      (process id s w).2.offered = w.offered) ∧
    ∀ began, BeginsIn Handler.ofStep id s w .ftsIndex began →
      ∃ d row, ∃ added : List (Int × Int), (process id s w).2.offered = d :: w.offered ∧
        began.world.store.documentRow? id = some row ∧ row.Shows d ∧
        (∃ before, w.store.documentRow? id = some before ∧
          readMoment 13 before.updatedAt = .ok d.updatedAt) ∧
        (SearchDocument.ofDocument d).tags =
          (began.world.store.documentTags id).map (·.key) ∧
        (SearchDocument.ofDocument d).metadata.Perm
          ((began.world.store.documentEntries id).map fun e =>
            if e.ids ∈ added then ":" else e.text) ∧
        ∀ ids ∈ added, w.store.RuleAdds d.userId ids ∧
          ∃ jobs, w.store.pendingJobs id = .ok jobs ∧ .rules ∈ jobs.map (·.step) := by
  constructor
  · intro hnot
    rcases opened_or_offered id s w with ⟨d, w₁, steps, w₂, w₃, hget, hpending, hopen⟩ | hended
    · obtain ⟨-, -, hopened⟩ :=
        mirrored_of_opened hquiet hdistinct (fun _ => True) hget hpending hopen
      rw [process_offered hget hpending hopen]
      refine runSteps_offered_of_not_begins hquiet hr hdistinct (fun began hbegins => ?_) hopened
      exact hnot began ((beginsIn_iff_of_opened hget hpending hopen).mpr hbegins)
    · exact hended
  · intro began hbegins
    obtain ⟨d, before, jobs, hbefore, hread, hjobs, hmirrors, hoffered⟩ :=
      mirrors_of_beginsIn hquiet hr hkeyed hdistinct hbegins
    obtain ⟨-, hupdated, -, -⟩ := DocumentRow.shows_of_read hread
    have hid : d.id = id := (status_of_read hread).1.trans (Store.id_of_documentRow? hbefore)
    have hbeganId : began.copy.id = id := hmirrors.same.id.trans hid
    have hupdatedAt : readMoment 13 before.updatedAt = .ok began.handed.updatedAt := by
      rw [hupdated, ← hmirrors.same.updatedAt]
      rfl
    obtain ⟨row, hrow, hshows⟩ := hmirrors.row
    rw [hid] at hrow
    obtain ⟨added, hadded, hperm⟩ : ∃ added : List (Int × Int),
        (∀ ids ∈ added, w.store.RuleAdds d.userId ids ∧ .rules ∈ jobs.map (·.step)) ∧
        ((began.copy.metadata.getD (began.world.store.documentEntries id)).map Entry.text).Perm
          ((began.world.store.documentEntries id).map fun e =>
            if e.ids ∈ added then ":" else e.text) := by
      cases hmetadata : began.copy.metadata with
      | none => exact ⟨[], by simp, by simp⟩
      | some entries =>
          obtain ⟨hattached, hthere, hrows⟩ := hmirrors.entries entries hmetadata
          rw [hid] at hrows
          exact hattached.texts_perm hmirrors.vocabulary hthere hrows
    refine ⟨began.handed, row, added, hoffered, hrow,
      ⟨hshows.fields, hshows.date, hshows.createdAt⟩, ⟨before, hbefore, hupdatedAt⟩, ?_, ?_, ?_⟩
    · rw [← hbeganId]
      rfl
    · rw [← hbeganId] at hperm ⊢
      exact hperm
    · intro ids hids
      obtain ⟨hadds, hrules⟩ := hadded ids hids
      have huser : began.handed.userId = d.userId := hmirrors.same.userId
      rw [huser]
      exact ⟨hadds, jobs, hjobs, hrules⟩

/-- The pass with the rule, as an instance of what is published in general. -/
theorem process_publishes_ruled : ∃ d, ∃ added : List (Int × Int),
    (process "d" .bare (.ruled ruledJobs)).2.offered = [d] ∧
      (SearchDocument.ofDocument d).metadata.Perm
        ([⟨1, "vendor", 1, "ACME"⟩].map fun e : Entry =>
          if e.ids ∈ added then ":" else e.text) ∧
      ∀ ids ∈ added, (World.ruled ruledJobs).store.RuleAdds d.userId ids := by
  obtain ⟨began, hbegins, -, hentries⟩ := begins_ruled
  obtain ⟨d, row, added, hoffered, -, -, -, -, hperm, hadded⟩ :=
    (process_publishes (w := .ruled ruledJobs) bare_quiet builtin_actsBuiltin (by decide)
      ⟨by decide, by decide, by decide⟩).2 began hbegins
  rw [hentries] at hperm
  exact ⟨d, added, hoffered, hperm, fun ids hids => (hadded ids hids).1⟩

/-- What a rule has added is stored with its names, and published without. -/
theorem ruled_entry_nameless : ∃ began d,
    BeginsIn Handler.ofStep "d" .bare (.ruled ruledJobs) .ftsIndex began ∧
      (process "d" .bare (.ruled ruledJobs)).2.offered = [d] ∧
      (SearchDocument.ofDocument d).metadata = [":"] ∧
      (began.world.store.documentEntries "d").map Entry.text = ["vendor:ACME"] := by
  obtain ⟨began, hbegins, hmetadata, hentries⟩ := begins_ruled
  obtain ⟨-, -, -, -, -, -, -, hoffered⟩ := mirrors_of_beginsIn (w := .ruled ruledJobs)
    bare_quiet builtin_actsBuiltin (by decide) ⟨by decide, by decide, by decide⟩ hbegins
  refine ⟨began, began.handed, hbegins, hoffered, ?_, by rw [hentries]; rfl⟩
  have hhanded : began.handed.entries = [⟨1, "", 1, ""⟩] := by
    unfold Document.entries Desk.handed
    rw [hmetadata]
    rfl
  unfold SearchDocument.ofDocument
  rw [hhanded]
  rfl

end Pass

end Docket
