import Docket.Proofs.Edits

/-!
A pass in which one thing goes wrong: the store refuses a call, or the process stops before it.
Up to that call the pass is the one in which nothing goes wrong.
-/

namespace Docket

/-- What goes wrong with a call. -/
inductive Mishap where
  /-- The store refuses it. -/
  | refusal (e : StoreError)
  /-- The process stops before it. -/
  | stop

namespace Mishap

/-- What is done after a pass in which something went wrong, before the next: a process that has
stopped is started again, and lets wait what was running. -/
def aftermath : Mishap → World → World
  | .refusal _, w => w
  | .stop, w => { w with store := w.store.resetRunning.2 }

/-- What is left of the files: a process that stops does not delete those that were made on the
way. -/
def keep (scratch : String) : Mishap → FileTree → FileTree
  | .refusal _, files => (files.removeAll scratch).toOption.getD files
  | .stop, files => files

/-- What is left of the store after a step whose end could not be noted. -/
def leave (id : String) (t : Step) : Mishap → Store → Store
  | .refusal _, st => st.requeueJob id t
  | .stop, st => st.resetRunning.2

end Mishap

namespace Surroundings

/-- Surroundings in which the process stops elsewhere, and the store refuses something else. -/
def altered (s : Surroundings) (stops : List Moment → Bool)
    (refuses : List Moment → StoreCall → Option StoreError) : Surroundings :=
  { s with stops := stops, refuses := refuses }

/-- Surroundings in which something goes wrong with the call that comes after a past. -/
def failing (s : Surroundings) (past : List Moment) : Mishap → Surroundings
  | .refusal e => s.altered s.stops fun p c => if p = past then some e else s.refuses p c
  | .stop => s.altered (fun p => decide (p = past) || s.stops p) s.refuses

/-- Surroundings that agree on the first moments, in which the process does not stop. -/
structure AgreesUntil (s s' : Surroundings) (n : Nat) : Prop where
  altered : ∃ stops refuses, s' = s.altered stops refuses
  goes : ∀ past, s.stops past = false
  stops : ∀ past, past.length < n → s'.stops past = false
  refuses : ∀ past c, past.length < n → s'.refuses past c = s.refuses past c

theorem AgreesUntil.scratch {s s' : Surroundings} {n : Nat} (h : s.AgreesUntil s' n) :
    s'.scratch = s.scratch := by
  obtain ⟨_, _, rfl⟩ := h.altered
  rfl

theorem failing_agreesUntil {s : Surroundings} (hgoes : ∀ past, s.stops past = false)
    (past : List Moment) (m : Mishap) : s.AgreesUntil (s.failing past m) past.length := by
  have hne : ∀ p : List Moment, p.length < past.length → p ≠ past := by
    rintro p hp rfl
    exact Nat.lt_irrefl _ hp
  cases m with
  | refusal e => exact ⟨⟨_, _, rfl⟩, hgoes, fun p _ => hgoes p, fun p _ hp => if_neg (hne p hp)⟩
  | stop =>
      refine ⟨⟨_, _, rfl⟩, hgoes, fun p hp => ?_, fun _ _ _ => rfl⟩
      simp [failing, Surroundings.altered, hne p hp, hgoes]

end Surroundings

/-- How many moments have passed. -/
def World.age (w : World) : Nat := w.moments.length

/-- How many moments have passed. -/
def Desk.age (desk : Desk) : Nat := desk.world.age

/-! Work that depends on the surroundings only moment by moment. -/

/-- Work that takes its time forward, and that goes the same way in other surroundings where it
is over before some moment. -/
structure Act.Steady {σ α : Type} (s s' : Surroundings) (n : Nat) (age : σ → Nat)
    (x : Act σ α) : Prop where
  ages : ∀ w, age w ≤ age (x s w).2
  same : ∀ w, age (x s w).2 ≤ n → x s' w = x s w

namespace Act.Steady

variable {σ α β : Type} {s s' : Surroundings} {n : Nat} {age : σ → Nat} {x : Act σ α}

theorem age_le {w w' : σ} {r : Except (Interruption PipelineError) α}
    (hx : Steady s s' n age x) (h : x s w = (r, w')) : age w ≤ age w' := by
  have hages := hx.ages w
  rwa [h] at hages

theorem eq_of_le {w w' : σ} {r : Except (Interruption PipelineError) α}
    (hx : Steady s s' n age x) (h : x s w = (r, w')) (hw : age w' ≤ n) : x s' w = (r, w') :=
  (hx.same w (by rwa [h])).trans h

theorem pure (a : α) : Steady s s' n age (Pure.pure a) :=
  ⟨fun _ => Nat.le_refl _, fun _ _ => rfl⟩

theorem bind {f : α → Act σ β} (hx : Steady s s' n age x) (hf : ∀ a, Steady s s' n age (f a)) :
    Steady s s' n age (x >>= f) := by
  refine ⟨fun w => ?_, fun w hw => ?_⟩
  · have hages := hx.ages w
    rcases heq : x s w with ⟨i | a, w'⟩
    · rw [heq] at hages
      rwa [bind_of_error heq]
    · rw [heq] at hages
      rw [bind_of_ok heq]
      exact hages.trans ((hf a).ages w')
  · rcases heq : x s w with ⟨i | a, w'⟩
    · rw [bind_of_error heq] at hw
      have hsame := hx.same w (by rwa [heq])
      rw [bind_of_error heq, bind_of_error (hsame.trans heq)]
    · rw [bind_of_ok heq] at hw
      have hsame := hx.same w (by rw [heq]; exact ((hf a).ages w').trans hw)
      rw [bind_of_ok heq, bind_of_ok (hsame.trans heq)]
      exact (hf a).same w' hw

theorem interrupt (i : Interruption PipelineError) :
    Steady s s' n age (Act.interrupt i : Act σ α) :=
  ⟨fun _ => Nat.le_refl _, fun _ _ => rfl⟩

theorem ofExcept {ε : Type} (wrap : ε → PipelineError) (r : Except ε α) :
    Steady s s' n age (Act.ofExcept wrap r) := by
  cases r with
  | ok a => exact .pure a
  | error e => exact .interrupt _

theorem state : Steady s s' n age Act.state :=
  ⟨fun _ => Nat.le_refl _, fun _ _ => rfl⟩

theorem change {f : σ → σ} (hf : ∀ w, age (f w) = age w) : Steady s s' n age (Act.change f) :=
  ⟨fun w => (hf w).ge, fun _ _ => rfl⟩

/-- Work that looks at its surroundings, but not at what is altered in them. -/
theorem surroundings_bind {f : Surroundings → Act σ β} (hsame : f s' = f s)
    (hf : Steady s s' n age (f s)) : Steady s s' n age (Act.surroundings >>= f) := by
  refine ⟨hf.ages, fun w hw => ?_⟩
  change f s' s' w = f s s w
  rw [hsame]
  exact hf.same w hw

theorem attempt (hx : Steady s s' n age x) : Steady s s' n age x.attempt := by
  have hworld : ∀ w, (x.attempt s w).2 = (x s w).2 := by
    intro w
    rcases attempt_cases x s w with ⟨r, hr, -⟩ | ⟨i, hi, -⟩
    · rw [hr]
    · rw [hi]
  refine ⟨fun w => ?_, fun w hw => ?_⟩
  · rw [hworld]
    exact hx.ages w
  · rw [hworld] at hw
    unfold Act.attempt
    rw [hx.same w hw]

theorem within {ρ : Type} {get : ρ → σ} {set : σ → ρ → ρ} (hset : ∀ w r, get (set w r) = w)
    (hx : Steady s s' n age x) : Steady s s' n (fun r => age (get r)) (Act.within get set x) := by
  refine ⟨fun r => ?_, fun r hr => ?_⟩
  · change age (get r) ≤ age (get (set (x s (get r)).2 r))
    rw [hset]
    exact hx.ages (get r)
  · change age (get (set (x s (get r)).2 r)) ≤ n at hr
    rw [hset] at hr
    simp only [Act.within, hx.same (get r) hr]

theorem onWorld {x : Act World α} (hx : Steady s s' n World.age x) :
    Steady s s' n Desk.age (Act.onWorld x) :=
  hx.within fun _ _ => rfl

section

variable (h : s.AgreesUntil s' n)

include h

theorem call (c : StoreCall) (run : Calendar.Instant → Store → Except StoreError (α × Store)) :
    Steady s s' n World.age (Act.call c run) := by
  have hages : ∀ w, (Act.call c run s w).2.moments = .call c :: w.moments := by
    intro w
    simp only [Act.call, h.goes, Bool.false_eq_true, ↓reduceIte]
    cases s.refuses w.moments c with
    | some e => rfl
    | none => cases run (s.clock w.moments) (s.others w.moments w.store) <;> rfl
  refine ⟨fun w => ?_, fun w hw => ?_⟩
  · rw [World.age, World.age, hages]
    exact Nat.le_succ _
  · rw [World.age, hages] at hw
    have hgo := h.stops w.moments hw
    have hheed := h.refuses w.moments c hw
    obtain ⟨stops, refuses, rfl⟩ := h.altered
    simp only [Act.call, h.goes, hgo, hheed]
    rfl

theorem ask (c : StoreCall) (run : Store → Except StoreError α) :
    Steady s s' n World.age (Act.ask c run) :=
  call h c _

theorem tell (c : StoreCall) : Steady s s' n World.age (Act.tell c) :=
  call h c _

theorem effect (e : FileEffect) : Steady s s' n World.age (Act.effect e) := by
  have hages : ∀ w, (Act.effect e s w).2.moments = .effect e :: w.moments := by
    intro w
    simp only [Act.effect, h.goes, Bool.false_eq_true, ↓reduceIte]
    cases w.files.perform e <;> rfl
  refine ⟨fun w => ?_, fun w hw => ?_⟩
  · rw [World.age, World.age, hages]
    exact Nat.le_succ _
  · rw [World.age, hages] at hw
    simp only [Act.effect, h.goes, h.stops w.moments hw]

theorem carryOut (plan : FileTree → Except StorageError (List FileEffect × String)) :
    Steady s s' n World.age (Act.carryOut plan) := by
  have heffects : ∀ effects : List FileEffect,
      Steady s s' n World.age (effects.forM Act.effect) := by
    intro effects
    induction effects with
    | nil => exact .pure ()
    | cons e rest ih => exact .bind (effect h e) fun _ => ih
  exact .bind .state fun _ => .bind (.ofExcept _ _) fun a => .bind (heffects a.1) fun _ => .pure _

end

theorem extract (x : Extraction α) : Steady s s' n World.age (Act.extract x) :=
  ⟨fun _ => Nat.le_refl _, fun _ _ => rfl⟩

theorem report (e : Event) : Steady s s' n World.age (Act.report e) :=
  .change fun _ => rfl

theorem copy : Steady s s' n Desk.age Act.copy :=
  .bind .state fun _ => .pure _

theorem setCopy (d : Document) : Steady s s' n Desk.age (Act.setCopy d) :=
  .change fun _ => rfl

end Act.Steady

/-! The steps. -/

namespace Handler

open Act (Steady)

variable {s s' : Surroundings} {n : Nat}

theorem store_steady (h : s.AgreesUntil s' n) (d : Document) :
    Steady s s' n Desk.age (store d) :=
  .onWorld (.tell h _)

theorem hash_steady (h : s.AgreesUntil s' n) : Steady s s' n Desk.age hash := by
  obtain ⟨stops, refuses, rfl⟩ := h.altered
  refine .surroundings_bind rfl (.bind .copy fun d => ?_)
  refine .bind (.ofExcept _ _) fun path => .bind .state fun _ => .bind (.ofExcept _ _) fun hash => ?_
  split
  · exact .pure ()
  · refine .bind (.onWorld (.carryOut h _)) fun target => .bind .state fun _ => ?_
    refine .bind (.attempt (store_steady h _)) fun r => ?_
    cases r with
    | ok u => exact .setCopy _
    | error e => exact .bind (.attempt (.onWorld (.carryOut h _))) fun _ => .interrupt _

theorem thumbnail_steady (h : s.AgreesUntil s' n) (scratch : String) :
    Steady s s' n Desk.age (thumbnail scratch) := by
  obtain ⟨stops, refuses, rfl⟩ := h.altered
  refine .surroundings_bind rfl (.bind .copy fun d => ?_)
  split
  · exact .pure ()
  · refine .bind (.ofExcept _ _) fun source => .bind (.ofExcept _ _) fun target => ?_
    exact .bind (.onWorld (.extract _)) fun _ => .pure ()

theorem parseContent_steady (h : s.AgreesUntil s' n) (scratch : String) :
    Steady s s' n Desk.age (parseContent scratch) := by
  obtain ⟨stops, refuses, rfl⟩ := h.altered
  refine .surroundings_bind rfl (.bind .copy fun d => .bind (.ofExcept _ _) fun path => ?_)
  refine .bind (.onWorld (.extract _)) fun text => ?_
  exact .bind (.onWorld (.tell h _)) fun _ => .setCopy _

theorem identify_steady (h : s.AgreesUntil s' n) (sample : String) :
    Steady s s' n World.age (identify sample) := by
  obtain ⟨stops, refuses, rfl⟩ := h.altered
  exact .surroundings_bind rfl (.bind (.change fun _ => rfl) fun _ => .pure _)

theorem detectLanguage_steady (h : s.AgreesUntil s' n) :
    Steady s s' n Desk.age detectLanguage := by
  have hidentify := identify_steady h
  obtain ⟨stops, refuses, rfl⟩ := h.altered
  refine .surroundings_bind rfl (.bind .copy fun d => ?_)
  split
  · exact .pure ()
  · dsimp only
    split
    · exact .pure ()
    · refine .bind (.onWorld (hidentify _)) fun found => ?_
      cases found with
      | none => exact .pure ()
      | some lang => exact .bind (.setCopy _) fun _ => store_steady h _

theorem rules_steady (h : s.AgreesUntil s' n) : Steady s s' n Desk.age rules := by
  obtain ⟨stops, refuses, rfl⟩ := h.altered
  refine .surroundings_bind rfl (.bind .copy fun d => .bind (.onWorld (.ask h _ _)) fun rules => ?_)
  refine .bind (.onWorld (.ask h _ _)) fun entries => .bind (.onWorld (.ask h _ _)) fun values => ?_
  exact .bind (.onWorld (.tell h _)) fun _ => .setCopy _

theorem offer_steady (h : s.AgreesUntil s' n) (d : Document) :
    Steady s s' n World.age (offer d) := by
  obtain ⟨stops, refuses, rfl⟩ := h.altered
  exact .surroundings_bind rfl (.bind (.change fun _ => rfl) fun _ => .ofExcept _ _)

theorem ftsIndex_steady (h : s.AgreesUntil s' n) : Steady s s' n Desk.age ftsIndex := by
  have hoffer : Steady s s' n Desk.age (Act.copy >>= fun d => Act.onWorld (offer d)) :=
    .bind .copy fun d => .onWorld (offer_steady h d)
  have htagged : Steady s s' n Desk.age (do
      let d ← Act.copy
      if d.tags.isNone then
        let tags ← Act.onWorld (.ask (.documentTags d.id) fun st => .ok (st.documentTags d.id))
        Act.setCopy { d with tags := some tags }
      Act.onWorld (offer (← Act.copy))) := by
    refine .bind .copy fun d => ?_
    dsimp only
    split
    · exact .bind (.onWorld (.ask h _ _)) fun _ => .bind (.setCopy _) fun _ => hoffer
    · exact hoffer
  refine .bind .copy fun d => ?_
  dsimp only
  split
  · exact .bind (.onWorld (.ask h _ _)) fun _ => .bind (.setCopy _) fun _ => htagged
  · exact htagged

theorem ofStep_steady (h : s.AgreesUntil s' n) (scratch : String) (t : Step) :
    Steady s s' n Desk.age (ofStep scratch t) := by
  cases t with
  | hash => exact hash_steady h
  | thumbnail => exact thumbnail_steady h scratch
  | parseContent => exact parseContent_steady h scratch
  | detectLanguage => exact detectLanguage_steady h
  | rules => exact rules_steady h
  | ftsIndex => exact ftsIndex_steady h

end Handler

/-! The pass. -/

namespace Pass

open Act (Steady)

variable {s s' : Surroundings} {n : Nat} {id : String} {t : Step}

theorem begin_steady (h : s.AgreesUntil s' n) (id : String) (t : Step) :
    Steady s s' n Desk.age (begin id t) :=
  .bind (.onWorld (.tell h _)) fun _ => .onWorld (.report _)

theorem conclude_steady (h : s.AgreesUntil s' n) (message : Option String) :
    Steady s s' n Desk.age (conclude id t message) := by
  refine .bind (.attempt (.onWorld (.tell h _))) fun r => ?_
  cases r with
  | error e =>
      refine .bind (.onWorld (.tell h _)) fun _ => ?_
      exact .bind (.onWorld (.report _)) fun _ => .pure _
  | ok u =>
      refine .bind (.onWorld (.report _)) fun _ => ?_
      split
      · exact .bind (.onWorld (.tell h _)) fun _ => .pure _
      · exact .bind (.onWorld (.tell h _)) fun _ => .pure _

theorem runStep_steady (h : s.AgreesUntil s' n) {handler : Handler}
    (hhandler : Steady s s' n Desk.age handler) :
    Steady s s' n Desk.age (runStep handler id t) :=
  .bind (begin_steady h id t) fun _ => .bind (.attempt hhandler) fun _ => conclude_steady h _

theorem runSteps_steady (h : s.AgreesUntil s' n) {handlers : Step → Handler}
    (hhandlers : ∀ t, Steady s s' n Desk.age (handlers t)) (steps : List Step) :
    Steady s s' n Desk.age (runSteps handlers id steps) := by
  induction steps with
  | nil => exact .pure _
  | cons t rest ih =>
      refine .bind (runStep_steady h (hhandlers t)) fun r => ?_
      cases r with
      | some reason => exact .pure _
      | none => exact ih

theorem openScratch_steady (h : s.AgreesUntil s' n) : Steady s s' n World.age openScratch := by
  obtain ⟨stops, refuses, rfl⟩ := h.altered
  refine .surroundings_bind rfl (.bind .state fun w => ?_)
  split
  · exact .change fun _ => rfl
  · exact .interrupt _

/-- Before a step begins, the steps before it are run. -/
theorem Begins.split {handlers : Step → Handler} {steps : List Step} {desk began : Desk}
    (h : Begins handlers id s steps desk t began) :
    ∃ earlier later before, steps = earlier ++ t :: later ∧
      runSteps handlers id earlier s desk = (.ok none, before) ∧
      begin id t s before = (.ok (), began) := by
  induction h with
  | here hbegin => exact ⟨[], _, _, rfl, rfl, hbegin⟩
  | @later t u rest desk desk₁ began hstep _ ih =>
      obtain ⟨earlier, later, before, rfl, hearlier, hbegin⟩ := ih
      exact ⟨u :: earlier, later, before, rfl, (runSteps_of_none hstep).trans hearlier, hbegin⟩

/-- What is left of a step whose end could not be noted. -/
theorem conclude_failing (hquiet : s.Quiet) (id : String) (t : Step) (ended : Desk)
    (message : Option String) :
    (∀ e, ∃ desk, conclude id t message (s.failing ended.world.moments (.refusal e)) ended =
        (.ok (some (unrecorded (.store e))), desk) ∧
      desk.world.store = ended.world.store.requeueJob id t ∧
      desk.world.files = ended.world.files) ∧
    conclude id t message (s.failing ended.world.moments .stop) ended = (.error .stop, ended) := by
  refine ⟨fun e => ?_, ?_⟩
  · let s' := s.failing ended.world.moments (.refusal e)
    have hrefused : s'.refuses ended.world.moments (.finishJob id t message) = some e := if_pos rfl
    have hlonger : ended.world.moments.length <
        (.call (.finishJob id t message) :: ended.world.moments).length := Nat.lt_succ_self _
    have hheeded : s'.refuses (.call (.finishJob id t message) :: ended.world.moments)
        (.requeueJob id t) = none := by
      refine (if_neg fun heq => ?_).trans (hquiet.heeds _ _)
      rw [heq] at hlonger
      exact Nat.lt_irrefl _ hlonger
    let noted := ended.next s' (.call (.finishJob id t message))
    have hnoted : noted.world.store = ended.world.store := by
      rw [Desk.next_store, Surroundings.after_of_refused hrefused]
      exact hquiet.alone _ _
    have hfinish : Act.onWorld (finish id t message) s' ended =
        (.error (.error (.store e)), noted) := by
      rcases Act.onWorld_tell_cases s' (c := .finishJob id t message) rfl ended with
        ⟨hstop, -⟩ | ⟨-, ⟨e', he', h⟩⟩ | ⟨-, hnone, -⟩
      · cases hstop.symm.trans (hquiet.goes _)
      · cases hrefused.symm.trans he'
        exact h
      · cases hrefused.symm.trans hnone
    have hrequeue : Act.onWorld (requeue id t) s' noted =
        (.ok (), noted.next s' (.call (.requeueJob id t))) := by
      rcases Act.onWorld_tell_cases s' (c := .requeueJob id t) rfl noted with
        ⟨hstop, -⟩ | ⟨-, ⟨e', he', -⟩⟩ | ⟨-, -, h⟩
      · cases hstop.symm.trans (hquiet.goes _)
      · cases hheeded.symm.trans he'
      · exact h
    refine ⟨_, (conclude_of_error hfinish).trans (Act.bind_of_ok hrequeue), ?_, rfl⟩
    change s'.after noted.world.moments noted.world.store (.call (.requeueJob id t)) =
      ended.world.store.requeueJob id t
    rw [hnoted]
    exact (Surroundings.after_of_heeded hheeded rfl).trans
      (congrArg (Store.requeueJob · id t) (hquiet.alone _ _))
  · have hstops : (s.failing ended.world.moments .stop).stops ended.world.moments = true := by
      simp [Surroundings.failing, Surroundings.altered]
    have hfinish : Act.onWorld (finish id t message) (s.failing ended.world.moments .stop) ended =
        (.error .stop, ended) := by
      simp only [Act.onWorld, Act.within, finish, Act.tell_of_stop _ hstops]
    exact conclude_of_interrupt hfinish (by simp)

theorem followedBy_closeScratch_store {α : Type} (x : Act World α) (s : Surroundings) (w : World) :
    (x.followedBy closeScratch s w).2.store = (x s w).2.store := by
  rcases hx : x s w with ⟨i | a, w'⟩
  · cases i <;> simp only [Act.followedBy, hx] <;> rfl
  · simp only [Act.followedBy, hx]
    rfl

theorem followedBy_closeScratch_files {α : Type} {x : Act World α} {a : α} {w w' : World}
    (hx : x s w = (.ok a, w')) :
    (x.followedBy closeScratch s w).2.files =
      (w'.files.removeAll s.scratch).toOption.getD w'.files := by
  simp only [Act.followedBy, hx]
  rfl

/-- In surroundings that agree up to the end of a step, a pass is the same up to there. -/
theorem process_until {s' : Surroundings} {w : World} {began ended : Desk}
    {r : Except PipelineError Unit} (h : s.AgreesUntil s' ended.age)
    (hbegins : BeginsIn Handler.ofStep id s w t began)
    (hended : (Handler.ofStep s.scratch t).attempt s began = (.ok r, ended)) :
    ∃ d w₃ earlier later before,
      process id s' w = (runWith (Handler.ofStep s.scratch) d id (earlier ++ t :: later)).followedBy
        closeScratch s' w₃ ∧
      runSteps (Handler.ofStep s.scratch) id earlier s' ⟨w₃, d⟩ = (.ok none, before) ∧
      runStep (Handler.ofStep s.scratch t) id t s' before = conclude id t (note r) s' ended := by
  obtain ⟨d, w₁, steps, w₂, w₃, hget, hpending, hopen, hbegins⟩ := hbegins
  obtain ⟨earlier, later, before, rfl, hearlier, hbegin⟩ := hbegins.split
  have hhandlers := Handler.ofStep_steady h s.scratch
  have hpending' : Act.ask (.pendingSteps id) (fun st =>
      (st.pendingJobs id).map (·.map (·.step))) s w₁ = (.ok (earlier ++ t :: later), w₂) := hpending
  -- Nothing that happens before the end of the step comes later than it.
  have hage := (hhandlers t).attempt.age_le hended
  have hbefore := ((begin_steady h id t).age_le hbegin).trans hage
  have hage₃ : w₃.age ≤ ended.age :=
    ((runSteps_steady h hhandlers earlier).age_le hearlier).trans hbefore
  have hage₂ := ((openScratch_steady h).age_le hopen).trans hage₃
  have hage₁ := ((Steady.ask h _ _).age_le hpending').trans hage₂
  have hget' := (Steady.ask h _ _).eq_of_le hget hage₁
  have hsteps' := (Steady.ask h _ _).eq_of_le hpending' hage₂
  have hopen' := (openScratch_steady h).eq_of_le hopen hage₃
  have hbegin' := (begin_steady h id t).eq_of_le hbegin hage
  have hattempt' := (hhandlers t).attempt.eq_of_le hended (Nat.le_refl _)
  refine ⟨d, w₃, earlier, later, before, ?_,
    (runSteps_steady h hhandlers earlier).eq_of_le hearlier hbefore, ?_⟩
  · rw [← h.scratch]
    exact run_of_opened hget' hsteps' hopen'
  · unfold runStep
    rw [Act.bind_of_ok hbegin', Act.bind_of_ok hattempt']

/-- A pass in which the end of a step cannot be noted is the undisturbed pass up to then.  It is
not completed, and it leaves what the step has made of the store and of the files, and the job of
the step. -/
theorem process_failing (hquiet : s.Quiet) {w : World} {began ended : Desk}
    {r : Except PipelineError Unit} (hbegins : BeginsIn Handler.ofStep id s w t began)
    (hended : (Handler.ofStep s.scratch t).attempt s began = (.ok r, ended)) (how : Mishap) :
    let left := process id (s.failing ended.world.moments how) w
    left.1 ≠ .ok .completed ∧
      (how.aftermath left.2).store = how.leave id t ended.world.store ∧
      (how.aftermath left.2).files = how.keep s.scratch ended.world.files := by
  intro left
  let s' := s.failing ended.world.moments how
  have h : s.AgreesUntil s' ended.age :=
    Surroundings.failing_agreesUntil hquiet.goes ended.world.moments how
  obtain ⟨d, w₃, earlier, later, before, hrun, hearlier, hstep⟩ := process_until h hbegins hended
  have hleft := (rfl : left = process id s' w).trans hrun
  obtain ⟨hrefusal, hstop⟩ := conclude_failing hquiet id t ended (note r)
  cases how with
  | refusal e =>
      obtain ⟨desk, hconclude, hstore, hfiles⟩ := hrefusal e
      have hsteps := (runSteps_append (t :: later) hearlier).trans
        (runSteps_of_some (hstep.trans hconclude))
      have hwith := runWith_of_deferred hsteps
      rw [hleft]
      refine ⟨?_, (followedBy_closeScratch_store _ s' w₃).trans ?_, ?_⟩
      · rw [Act.followedBy_result, hwith]
        simp
      · rw [hwith]
        exact hstore
      · rw [← hfiles]
        exact (followedBy_closeScratch_files hwith).trans (by rw [h.scratch]; rfl)
  | stop =>
      have hsteps := (runSteps_append (t :: later) hearlier).trans
        (runSteps_of_error (hstep.trans hstop))
      have hwith := runWith_of_error hsteps
      rw [hleft]
      refine ⟨?_, congrArg (fun st => st.resetRunning.2)
        ((followedBy_closeScratch_store _ s' w₃).trans ?_), ?_⟩
      · rw [Act.followedBy_result, hwith]
        simp
      · rw [hwith]
      · simp only [Act.followedBy, hwith]
        rfl

end Pass

end Docket
