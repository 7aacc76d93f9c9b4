import Docket.Proofs.Act

/-!
The past decides the store.  Each moment turns the store before it into the store
after it, in a way that depends only on the moment, on the past and on the
surroundings, so that an assertion about past and store that moments keep is kept
by all work that brings about only such moments.
-/

namespace Docket

/-- The store after a moment with some past.  What others write before a call
stays even where the call is refused or fails. -/
def Surroundings.after (s : Surroundings) (past : List Moment) (st : Store) :
    Moment → Store
  | .call c =>
    let st := s.others past st
    if (s.refuses past c).isSome then st
    else (c.perform (s.clock past) st).toOption.getD st
  | .effect _ => st

/-- The store after the moments since some past, the last of which comes first. -/
def Surroundings.replay (s : Surroundings) (past : List Moment) (st : Store) :
    List Moment → Store
  | [] => st
  | m :: since => s.after (since ++ past) (s.replay past st since) m

/-- Moments of a kind keep an assertion about past and store. -/
def Surroundings.Maintains (s : Surroundings) (kind : Moment → Prop)
    (I : List Moment → Store → Prop) : Prop :=
  ∀ past st m, kind m → I past st → I (m :: past) (s.after past st m)

theorem Surroundings.Maintains.mono {s : Surroundings} {kind kind' : Moment → Prop}
    {I : List Moment → Store → Prop} (hI : s.Maintains kind I)
    (hkind : ∀ m, kind' m → kind m) : s.Maintains kind' I :=
  fun past st m hm => hI past st m (hkind m hm)

theorem Surroundings.Maintains.and {s : Surroundings} {kind : Moment → Prop}
    {I K : List Moment → Store → Prop} (hI : s.Maintains kind I)
    (hK : s.Maintains kind K) :
    s.Maintains kind fun past st => I past st ∧ K past st :=
  fun past st m hm h => ⟨hI past st m hm h.1, hK past st m hm h.2⟩

/-- An assertion about past and store, of a world. -/
def World.Has (I : List Moment → Store → Prop) (w : World) : Prop :=
  I w.moments w.store

/-- A world after a moment that touched no file. -/
def World.next (w : World) (s : Surroundings) (m : Moment) : World :=
  { w with store := s.after w.moments w.store m, moments := m :: w.moments }

@[simp] theorem World.next_moments (w : World) (s : Surroundings) (m : Moment) :
    (w.next s m).moments = m :: w.moments := rfl

@[simp] theorem World.next_store (w : World) (s : Surroundings) (m : Moment) :
    (w.next s m).store = s.after w.moments w.store m := rfl

/-- What a call for a change answers. -/
def Surroundings.verdict (s : Surroundings) (past : List Moment) (st : Store)
    (c : StoreCall) : Except (Interruption PipelineError) Unit :=
  match s.refuses past c with
  | some e => .error (.error (.store e))
  | none =>
    match c.perform (s.clock past) (s.others past st) with
    | .ok _ => .ok ()
    | .error e => .error (.error (.store e))

namespace Act

variable {σ α : Type} {s : Surroundings}

theorem tell_of_stop {w : World} (c : StoreCall) (hstop : s.stops w.moments = true) :
    tell c s w = (.error .stop, w) := by
  simp only [tell, call, hstop, ↓reduceIte]

theorem tell_of_go {w : World} (c : StoreCall) (hstop : s.stops w.moments = false) :
    tell c s w = (s.verdict w.moments w.store c, w.next s (.call c)) := by
  simp only [tell, call, hstop, Bool.false_eq_true, ↓reduceIte, World.next,
    Surroundings.after, Surroundings.verdict]
  cases s.refuses w.moments c with
  | some e => rfl
  | none =>
      cases hperform : c.perform (s.clock w.moments)
          (s.others w.moments w.store) with
      | ok st => rfl
      | error e => rfl

theorem ask_of_stop {w : World} (c : StoreCall) (run : Store → Except StoreError α)
    (hstop : s.stops w.moments = true) : ask c run s w = (.error .stop, w) := by
  simp only [ask, call, hstop, ↓reduceIte]

/-- A call that only asks leaves the store to what others have written. -/
theorem ask_of_go {w : World} (c : StoreCall) (run : Store → Except StoreError α)
    (hc : ∀ now st, c.perform now st = .ok st)
    (hstop : s.stops w.moments = false) :
    ask c run s w =
      ((match s.refuses w.moments c with
        | some e => .error (.error (.store e))
        | none => (run (s.others w.moments w.store)).mapError
            fun e => .error (.store e)), w.next s (.call c)) := by
  simp only [ask, call, hstop, Bool.false_eq_true, ↓reduceIte, World.next,
    Surroundings.after, hc]
  cases s.refuses w.moments c with
  | some e => rfl
  | none =>
      cases run (s.others w.moments w.store) with
      | ok a => rfl
      | error e => rfl

/-- A call for a change that is answered was carried out. -/
theorem tell_eq_ok {c : StoreCall} {w w' : World} {u : Unit} (h : tell c s w = (.ok u, w')) :
    w' = w.next s (.call c) ∧ s.refuses w.moments c = none ∧
      c.perform (s.clock w.moments) (s.others w.moments w.store) = .ok w'.store := by
  cases hstop : s.stops w.moments with
  | true =>
      rw [tell_of_stop c hstop] at h
      cases h
  | false =>
      rw [tell_of_go c hstop, Surroundings.verdict] at h
      obtain ⟨hverdict, rfl⟩ := Prod.mk.inj h
      refine ⟨rfl, ?_⟩
      cases hrefuse : s.refuses w.moments c with
      | some e =>
          rw [hrefuse] at hverdict
          cases hverdict
      | none =>
          rw [hrefuse] at hverdict
          cases hperform : c.perform (s.clock w.moments) (s.others w.moments w.store) with
          | error e =>
              rw [hperform] at hverdict
              cases hverdict
          | ok st =>
              refine ⟨rfl, ?_⟩
              simp only [World.next_store, Surroundings.after, hrefuse, hperform]
              rfl

/-- A call for a change that is not answered changes nothing in what others have left, if it is made
at all. -/
theorem tell_eq_error {c : StoreCall} {w w' : World} {i : Interruption PipelineError}
    (h : tell c s w = (.error i, w')) :
    w' = w ∨ w' = w.next s (.call c) ∧ w'.store = s.others w.moments w.store := by
  cases hstop : s.stops w.moments with
  | true =>
      rw [tell_of_stop c hstop] at h
      exact .inl (Prod.mk.inj h).2.symm
  | false =>
      rw [tell_of_go c hstop, Surroundings.verdict] at h
      obtain ⟨hverdict, rfl⟩ := Prod.mk.inj h
      refine .inr ⟨rfl, ?_⟩
      cases hrefuse : s.refuses w.moments c with
      | some e => simp only [World.next_store, Surroundings.after, hrefuse, Option.isSome_some, ↓reduceIte]
      | none =>
          rw [hrefuse] at hverdict
          cases hperform : c.perform (s.clock w.moments) (s.others w.moments w.store) with
          | ok st =>
              rw [hperform] at hverdict
              cases hverdict
          | error e =>
              simp only [World.next_store, Surroundings.after, hrefuse, hperform]
              rfl

/-- What is answered to a call that only asks is so in what others have left, and nothing else has
changed. -/
theorem ask_eq_ok {c : StoreCall} {run : Store → Except StoreError α} {a : α} {w w' : World}
    (hasks : ∀ now st, c.perform now st = .ok st) (h : ask c run s w = (.ok a, w')) :
    run (s.others w.moments w.store) = .ok a ∧ w' = w.next s (.call c) ∧
      w'.store = s.others w.moments w.store := by
  cases hstop : s.stops w.moments with
  | true =>
      rw [ask_of_stop _ _ hstop] at h
      cases h
  | false =>
      rw [ask_of_go _ _ hasks hstop] at h
      obtain ⟨hanswer, rfl⟩ := Prod.mk.inj h
      cases hrefuse : s.refuses w.moments c with
      | some e =>
          rw [hrefuse] at hanswer
          cases hanswer
      | none =>
          rw [hrefuse] at hanswer
          refine ⟨?_, rfl, ?_⟩
          · cases hrun : run (s.others w.moments w.store) with
            | error e =>
                rw [hrun] at hanswer
                cases hanswer
            | ok b =>
                rw [hrun] at hanswer
                cases hanswer
                rfl
          · simp only [World.next_store, Surroundings.after, hrefuse, hasks]
            rfl

/-- What is answered at a desk was answered to the work on its world. -/
theorem onWorld_ok {x : Act World α} {a : α} {desk desk' : Desk}
    (h : Act.onWorld x s desk = (.ok a, desk')) :
    ∃ w', x s desk.world = (.ok a, w') ∧ desk' = { desk with world := w' } := by
  rcases heq : x s desk.world with ⟨result, w'⟩
  simp only [Act.onWorld, Act.within, heq, Prod.mk.injEq] at h
  obtain ⟨rfl, rfl⟩ := h
  exact ⟨w', rfl, rfl⟩

namespace Keeps

variable {kind : Moment → Prop} {I : List Moment → Store → Prop}

theorem tell (hI : s.Maintains kind I) {c : StoreCall} (hc : kind (.call c)) :
    Keeps s (World.Has I) (Act.tell c) := by
  intro w hw
  refine ⟨?_, fun _ _ => trivial⟩
  cases hstop : s.stops w.moments with
  | true => rwa [tell_of_stop c hstop]
  | false =>
      rw [tell_of_go c hstop]
      exact hI _ _ _ hc hw

/-- What is answered to a call that only asks, is so in the store as others have left it. -/
theorem ask_of (hI : s.Maintains kind I) {c : StoreCall} (hc : kind (.call c))
    (hasks : ∀ now st, c.perform now st = .ok st) (run : Store → Except StoreError α)
    {Q : α → Prop} (hQ : ∀ past st a, I past st → run (s.others past st) = .ok a → Q a) :
    Keeps s (World.Has I) (Act.ask c run) Q := by
  intro w hw
  cases hstop : s.stops w.moments with
  | true =>
      rw [ask_of_stop c run hstop]
      exact ⟨hw, by simp⟩
  | false =>
      rw [ask_of_go c run hasks hstop]
      refine ⟨hI _ _ _ hc hw, fun a ha => ?_⟩
      cases hrefuse : s.refuses w.moments c with
      | some e => simp [hrefuse] at ha
      | none =>
          cases hrun : run (s.others w.moments w.store) with
          | error e =>
              rw [hrefuse, hrun] at ha
              have ha : Except.error (Interruption.error (PipelineError.store e)) = .ok a := ha
              cases ha
          | ok b =>
              rw [hrefuse, hrun] at ha
              have ha : Except.ok b = Except.ok a := ha
              cases ha
              exact hQ _ _ _ hw hrun

theorem ask (hI : s.Maintains kind I) {c : StoreCall} (hc : kind (.call c))
    (hasks : ∀ now st, c.perform now st = .ok st)
    (run : Store → Except StoreError α) :
    Keeps s (World.Has I) (Act.ask c run) :=
  ask_of hI hc hasks run fun _ _ _ _ _ => trivial

theorem effect (hI : s.Maintains kind I) {e : FileEffect} (he : kind (.effect e)) :
    Keeps s (World.Has I) (Act.effect e) := by
  intro w hw
  refine ⟨?_, fun _ _ => trivial⟩
  have hnext : I (.effect e :: w.moments) w.store := hI _ _ _ he hw
  simp only [Act.effect]
  split
  · exact hw
  · split
    · exact hnext
    · exact hnext

/-- Files, tool calls and reports are no part of what is asserted. -/
theorem changeRest {f : World → World} (hmoments : ∀ w, (f w).moments = w.moments)
    (hstore : ∀ w, (f w).store = w.store) :
    Keeps s (World.Has I) (Act.change f) := by
  apply change
  intro w hw
  rw [World.Has, hmoments, hstore]
  exact hw

theorem report (e : Event) : Keeps s (World.Has I) (Act.report e) :=
  changeRest (fun _ => rfl) (fun _ => rfl)

theorem extract (x : Extraction α) : Keeps s (World.Has I) (Act.extract x) :=
  fun _ hw => ⟨hw, fun _ _ => trivial⟩

theorem effects (hI : s.Maintains kind I) (heffect : ∀ e, kind (.effect e))
    (effects : List FileEffect) : Keeps s (World.Has I) (effects.forM Act.effect) := by
  induction effects with
  | nil => exact pure trivial
  | cons e rest ih => exact bind (effect hI (heffect e)) fun _ _ => ih

theorem carryOut (hI : s.Maintains kind I) (heffect : ∀ e, kind (.effect e))
    (plan : FileTree → Except StorageError (List FileEffect × String)) :
    Keeps s (World.Has I) (Act.carryOut plan) :=
  bind state fun _ _ => bind (ofExcept _ _) fun a _ =>
    bind (effects hI heffect a.1) fun _ _ => pure trivial

end Keeps

end Act

end Docket
