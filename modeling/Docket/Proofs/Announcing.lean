import Docket.Proofs.Pass

/-!
What a pass announces.  No step announces anything; that a document is finished and ready is
announced by a pass over it alone, as the last thing that it does before it ends as completed.
-/

namespace Docket

open Act (Keeps)

/-- An assertion about the events that were announced. -/
def World.Announced (P : List Event → Prop) (w : World) : Prop := P w.events

/-- An assertion about the events that were announced, of a desk. -/
def Desk.Announced (P : List Event → Prop) (desk : Desk) : Prop := desk.world.Announced P

namespace Act

variable {α : Type} {s : Surroundings} {P : List Event → Prop}

theorem call_events (c : StoreCall) (run : Calendar.Instant → Store → Except StoreError (α × Store))
    (w : World) : (call c run s w).2.events = w.events := by
  simp only [call]
  cases s.stops w.moments with
  | true => rfl
  | false =>
      cases s.refuses w.moments c with
      | some e => rfl
      | none => cases run (s.clock w.moments) (s.others w.moments w.store) <;> rfl

theorem Keeps.call_announced (c : StoreCall)
    (run : Calendar.Instant → Store → Except StoreError (α × Store)) :
    Keeps s (World.Announced P) (Act.call c run) := by
  intro w hw
  refine ⟨?_, fun _ _ => trivial⟩
  rw [World.Announced, call_events]
  exact hw

theorem Keeps.tell_announced (c : StoreCall) : Keeps s (World.Announced P) (Act.tell c) :=
  .call_announced _ _

theorem Keeps.ask_announced (c : StoreCall) (run : Store → Except StoreError α) :
    Keeps s (World.Announced P) (Act.ask c run) :=
  .call_announced _ _

theorem Keeps.effect_announced (e : FileEffect) :
    Keeps s (World.Announced P) (Act.effect e) := by
  intro w hw
  refine ⟨?_, fun _ _ => trivial⟩
  simp only [Act.effect]
  cases s.stops w.moments with
  | true => exact hw
  | false => cases w.files.perform e <;> exact hw

theorem Keeps.effects_announced (effects : List FileEffect) :
    Keeps s (World.Announced P) (effects.forM Act.effect) := by
  induction effects with
  | nil => exact .pure trivial
  | cons e rest ih => exact .bind (.effect_announced e) fun _ _ => ih

theorem Keeps.carryOut_announced
    (plan : FileTree → Except StorageError (List FileEffect × String)) :
    Keeps s (World.Announced P) (Act.carryOut plan) :=
  .bind .state fun _ _ => .bind (.ofExcept _ _) fun a _ =>
    .bind (.effects_announced a.1) fun _ _ => .pure trivial

theorem Keeps.extract_announced (x : Extraction α) :
    Keeps s (World.Announced P) (Act.extract x) :=
  fun _ hw => ⟨hw, fun _ _ => trivial⟩

theorem Keeps.onWorld_announced {x : Act World α} (hx : Keeps s (World.Announced P) x) :
    Keeps s (Desk.Announced P) (Act.onWorld x) :=
  .within (fun _ h => h) (fun _ _ _ h => h) hx

theorem Keeps.copy_announced : Keeps s (Desk.Announced P) Act.copy :=
  .bind .state fun _ _ => .pure trivial

theorem Keeps.setCopy_announced (d : Document) : Keeps s (Desk.Announced P) (Act.setCopy d) :=
  .change fun _ h => h

end Act

namespace Handler

open Act (Keeps)

variable {s : Surroundings} {P : List Event → Prop}

theorem store_announced (d : Document) : Keeps s (Desk.Announced P) (store d) :=
  .onWorld_announced (.tell_announced _)

theorem hash_announced : Keeps s (Desk.Announced P) hash := by
  unfold hash
  refine .bind .surroundings fun s _ => ?_
  refine .bind .copy_announced fun d _ => ?_
  refine .bind (.ofExcept _ _) fun path _ => ?_
  refine .bind .state fun before _ => ?_
  refine .bind (.ofExcept _ _) fun hash _ => ?_
  split
  · exact .pure trivial
  · refine .bind (.onWorld_announced (.carryOut_announced _)) fun target _ => ?_
    refine .bind .state fun after _ => ?_
    refine .bind (.attempt (store_announced _)) fun r _ => ?_
    cases r with
    | ok u => exact .setCopy_announced _
    | error e =>
        refine .bind (.attempt (.onWorld_announced (.carryOut_announced _))) fun _ _ => ?_
        exact .fail e

theorem thumbnail_announced (scratch : String) :
    Keeps s (Desk.Announced P) (thumbnail scratch) := by
  unfold thumbnail
  refine .bind .surroundings fun _ _ => ?_
  refine .bind .copy_announced fun d _ => ?_
  split
  · exact .pure trivial
  · refine .bind (.ofExcept _ _) fun source _ => ?_
    refine .bind (.ofExcept _ _) fun target _ => ?_
    exact .bind (.onWorld_announced (.extract_announced _)) fun _ _ => .pure trivial

theorem parseContent_announced (scratch : String) :
    Keeps s (Desk.Announced P) (parseContent scratch) := by
  unfold parseContent
  refine .bind .surroundings fun _ _ => ?_
  refine .bind .copy_announced fun d _ => ?_
  refine .bind (.ofExcept _ _) fun path _ => ?_
  refine .bind (.onWorld_announced (.extract_announced _)) fun text _ => ?_
  refine .bind (.onWorld_announced (.tell_announced _)) fun _ _ => ?_
  exact .setCopy_announced _

theorem identify_announced (sample : String) :
    Keeps s (World.Announced P) (identify sample) := by
  unfold identify
  refine .bind .surroundings fun _ _ => ?_
  exact .bind (.change fun _ h => h) fun _ _ => .pure trivial

theorem detectLanguage_announced : Keeps s (Desk.Announced P) detectLanguage := by
  unfold detectLanguage
  refine .bind .surroundings fun _ _ => ?_
  refine .bind .copy_announced fun d _ => ?_
  split
  · exact .pure trivial
  · dsimp only
    split
    · exact .pure trivial
    · refine .bind (.onWorld_announced (identify_announced _)) fun found _ => ?_
      cases found with
      | none => exact .pure trivial
      | some lang =>
          exact .bind (.setCopy_announced _) fun _ _ => store_announced _

theorem rules_announced : Keeps s (Desk.Announced P) rules := by
  unfold rules
  refine .bind .surroundings fun _ _ => ?_
  refine .bind .copy_announced fun d _ => ?_
  refine .bind (.onWorld_announced (.ask_announced _ _)) fun rules _ => ?_
  refine .bind (.onWorld_announced (.ask_announced _ _)) fun entries _ => ?_
  refine .bind (.onWorld_announced (.ask_announced _ _)) fun values _ => ?_
  refine .bind (.onWorld_announced (.tell_announced _)) fun _ _ => ?_
  exact .setCopy_announced _

theorem offer_announced (d : Document) : Keeps s (World.Announced P) (offer d) := by
  unfold offer
  refine .bind .surroundings fun _ _ => ?_
  exact .bind (.change fun _ h => h) fun _ _ => .ofExcept _ _

theorem ftsIndex_announced : Keeps s (Desk.Announced P) ftsIndex := by
  have hoffer : Keeps s (Desk.Announced P) (Act.copy >>= fun d => Act.onWorld (offer d)) :=
    .bind .copy_announced fun d _ => .onWorld_announced (offer_announced d)
  have htagged : Keeps s (Desk.Announced P) (Act.copy >>= fun d =>
      if d.tags.isNone then do
        let tags ← Act.onWorld
          (.ask (.documentTags d.id) fun st => .ok (st.documentTags d.id))
        Act.setCopy { d with tags := some tags }
        Act.onWorld (offer (← Act.copy))
      else do Act.onWorld (offer (← Act.copy))) := by
    refine .bind .copy_announced fun d _ => ?_
    split
    · refine .bind (.onWorld_announced (.ask_announced _ _)) fun tags _ => ?_
      exact .bind (.setCopy_announced _) fun _ _ => hoffer
    · exact hoffer
  unfold ftsIndex
  refine .bind .copy_announced fun d _ => ?_
  dsimp only
  split
  · refine .bind (.onWorld_announced (.ask_announced _ _)) fun entries _ => ?_
    exact .bind (.setCopy_announced _) fun _ _ => htagged
  · exact htagged

/-- No step announces anything. -/
theorem ofStep_announced (scratch : String) (t : Step) :
    Keeps s (Desk.Announced P) (ofStep scratch t) := by
  cases t with
  | hash => exact hash_announced
  | thumbnail => exact thumbnail_announced scratch
  | parseContent => exact parseContent_announced scratch
  | detectLanguage => exact detectLanguage_announced
  | rules => exact rules_announced
  | ftsIndex => exact ftsIndex_announced

end Handler

/-- Since some events a document was not announced as finished and ready. -/
def Unannounced (id : String) (base events : List Event) : Prop :=
  ∃ since, events = since ++ base ∧ .documentFinished id true ∉ since

theorem Unannounced.cons {id : String} {base events : List Event}
    (h : Unannounced id base events) {e : Event} (he : e ≠ .documentFinished id true) :
    Unannounced id base (e :: events) := by
  obtain ⟨since, rfl, hnot⟩ := h
  exact ⟨e :: since, rfl, by simp [hnot, he.symm]⟩

namespace Pass

variable {s : Surroundings} {id : String} {base : List Event} {w : World}

theorem report_announced {e : Event} (he : e ≠ .documentFinished id true) :
    Keeps s (Desk.Announced (Unannounced id base)) (Act.onWorld (Act.report e)) :=
  .onWorld_announced (.change fun _ h => Unannounced.cons h he)

theorem conclude_announced (t : Step) (message : Option String) :
    Keeps s (Desk.Announced (Unannounced id base)) (conclude id t message) := by
  refine .bind (.attempt (.onWorld_announced (.tell_announced _))) fun r _ => ?_
  cases r with
  | error e =>
      refine .bind (.onWorld_announced (.tell_announced _)) fun _ _ => ?_
      exact .bind (report_announced (by simp)) fun _ _ => .pure trivial
  | ok u =>
      refine .bind (report_announced (by simp)) fun _ _ => ?_
      split
      · exact .bind (.onWorld_announced (.tell_announced _)) fun _ _ => .pure trivial
      · exact .bind (.onWorld_announced (.tell_announced _)) fun _ _ => .pure trivial

theorem runSteps_announced (scratch : String) (steps : List Step) :
    Keeps s (Desk.Announced (Unannounced id base))
      (runSteps (Handler.ofStep scratch) id steps) := by
  induction steps with
  | nil => exact .pure trivial
  | cons t rest ih =>
      have hbegin : Keeps s (Desk.Announced (Unannounced id base)) (begin id t) :=
        .bind (.onWorld_announced (.tell_announced _)) fun _ _ => report_announced (by simp)
      have hstep : Keeps s (Desk.Announced (Unannounced id base))
          (runStep (Handler.ofStep scratch t) id t) :=
        .bind hbegin fun _ _ => .bind (.attempt (Handler.ofStep_announced scratch t))
          fun _ _ => conclude_announced t _
      refine .bind hstep fun r _ => ?_
      cases r with
      | some reason => exact .pure trivial
      | none => exact ih

/-- Work that announces a document as finished and ready exactly if it ends as completed. -/
def Announces (id : String) (s : Surroundings) (base : List Event)
    (x : Act World DocumentOutcome) (w : World) : Prop :=
  ∃ since, (x s w).2.events = since ++ base ∧
    (.documentFinished id true ∈ since ↔ (x s w).1 = .ok .completed)

theorem announces_of_ne {x : Act World DocumentOutcome}
    (hevents : (x s w).2.Announced (Unannounced id base)) (hne : (x s w).1 ≠ .ok .completed) :
    Announces id s base x w := by
  obtain ⟨since, hsince, hnot⟩ := hevents
  exact ⟨since, hsince, by simp [hnot, hne]⟩

theorem announces_bind {α : Type} {x : Act World α} {f : α → Act World DocumentOutcome}
    {Q : α → Prop} (hx : Keeps s (World.Announced (Unannounced id base)) x Q)
    (hf : ∀ a w, w.Announced (Unannounced id base) → Announces id s base (f a) w)
    (hw : w.Announced (Unannounced id base)) : Announces id s base (x >>= f) w := by
  have hkept := (hx w hw).1
  rcases hrun : x s w with ⟨i | a, w'⟩
  · rw [hrun] at hkept
    have herror := Act.bind_of_error (f := f) hrun
    exact announces_of_ne (by rw [herror]; exact hkept) (by rw [herror]; simp)
  · rw [hrun] at hkept
    have hok := Act.bind_of_ok (f := f) hrun
    unfold Announces
    rw [hok]
    exact hf a w' hkept

/-- Deleting the scratch directory announces nothing. -/
theorem announces_followedBy_closeScratch {x : Act World DocumentOutcome} :
    Announces id s base (x.followedBy closeScratch) w ↔ Announces id s base x w := by
  have hevents : (x.followedBy closeScratch s w).2.events = (x s w).2.events := by
    rcases hx : x s w with ⟨i | a, w'⟩
    · cases i <;> simp only [Act.followedBy, hx] <;> rfl
    · simp only [Act.followedBy, hx]
      rfl
  unfold Announces
  rw [hevents, Act.followedBy_result]

theorem runWith_announces (scratch : String) (d : Document) (steps : List Step)
    (hw : w.Announced (Unannounced id base)) :
    Announces id s base (runWith (Handler.ofStep scratch) d id steps) w := by
  have hsteps : Keeps s (World.Announced (Unannounced id base))
      (withCopy d (runSteps (Handler.ofStep scratch) id steps)) :=
    fun w hw => ⟨(runSteps_announced scratch steps ⟨w, d⟩ hw).1, fun _ _ => trivial⟩
  refine announces_bind hsteps (fun r w hw => ?_) hw
  rcases r with _ | ⟨t, reason⟩
  · have hsettle : Keeps s (World.Announced (Unannounced id base)) (settle id) := by
      refine .bind (.ask_announced _ _) fun steps _ => ?_
      split
      · exact .tell_announced _
      · exact .pure trivial
    refine announces_bind hsettle (fun _ w hw => ?_) hw
    obtain ⟨since, hsince, -⟩ := hw
    refine ⟨.documentFinished id true :: since, ?_, iff_of_true List.mem_cons_self rfl⟩
    exact congrArg (List.cons _) hsince
  · refine announces_of_ne (Unannounced.cons hw (by simp)) fun hdone => ?_
    have hdone : Except.ok (DocumentOutcome.deferred t reason) = .ok .completed := hdone
    cases hdone

/-- A pass over a document announces it as finished and ready exactly if it ends as
completed. -/
theorem process_announces (id : String) (s : Surroundings) (w : World) :
    Announces id s w.events (process id) w := by
  have hw : w.Announced (Unannounced id w.events) := ⟨[], rfl, by simp⟩
  have hopen : Keeps s (World.Announced (Unannounced id w.events)) openScratch := by
    refine .bind .surroundings fun _ _ => .bind .state fun w _ => ?_
    split
    · exact .change fun _ h => h
    · exact .fail _
  refine announces_bind .surroundings (fun s' w hw => ?_) hw
  refine announces_bind (.ask_announced _ _) (fun d w hw => ?_) hw
  refine announces_bind (.ask_announced _ _) (fun steps w hw => ?_) hw
  refine announces_bind hopen (fun _ w hw => ?_) hw
  exact announces_followedBy_closeScratch.mpr (runWith_announces _ d steps hw)

end Pass

end Docket
