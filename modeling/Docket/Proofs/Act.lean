import Docket.Pipeline.Handlers

/-!
Laws of work on a state.  A run is opened one bind at a time; what work keeps is
derived from what its parts keep.
-/

namespace Docket

namespace Act

variable {σ ρ α β : Type} {s : Surroundings}

theorem bind_of_ok {x : Act σ α} {f : α → Act σ β} {w w' : σ} {a : α}
    (hx : x s w = (.ok a, w')) : (x >>= f) s w = f a s w' := by
  simp only [Bind.bind, hx]

theorem bind_of_error {x : Act σ α} {f : α → Act σ β} {w w' : σ}
    {i : Interruption PipelineError} (hx : x s w = (.error i, w')) :
    (x >>= f) s w = (.error i, w') := by
  simp only [Bind.bind, hx]

/-- What work answers after it was bound to more work, the work has answered
somewhere in between. -/
theorem exists_of_bind_ok {x : Act σ α} {f : α → Act σ β} {w w' : σ} {b : β}
    (h : (x >>= f) s w = (.ok b, w')) :
    ∃ a w₁, x s w = (.ok a, w₁) ∧ f a s w₁ = (.ok b, w') := by
  rcases hx : x s w with ⟨a | a, w₁⟩
  · rw [bind_of_error hx] at h
    cases h
  · rw [bind_of_ok hx] at h
    exact ⟨a, w₁, rfl, h⟩

theorem attempt_of_ok {x : Act σ α} {w w' : σ} {a : α}
    (hx : x s w = (.ok a, w')) : x.attempt s w = (.ok (.ok a), w') := by
  simp only [attempt, hx]

theorem attempt_of_fail {x : Act σ α} {w w' : σ} {e : PipelineError}
    (hx : x s w = (.error (.error e), w')) :
    x.attempt s w = (.ok (.error e), w') := by
  simp only [attempt, hx]

theorem attempt_of_stop {x : Act σ α} {w w' : σ} (hx : x s w = (.error .stop, w')) :
    x.attempt s w = (.error .stop, w') := by
  simp only [attempt, hx]

/-- An attempt goes on unless the work panicked or the process has stopped. -/
theorem attempt_cases (x : Act σ α) (s : Surroundings) (w : σ) :
    (∃ r, x.attempt s w = (.ok r, (x s w).2) ∧
      (x s w).1 = r.mapError Interruption.error) ∨
    ∃ i, x.attempt s w = (.error i, (x s w).2) ∧ (x s w).1 = .error i := by
  rcases hx : x s w with ⟨i | a, w'⟩
  · cases i with
    | error e => exact .inl ⟨.error e, attempt_of_fail hx, rfl⟩
    | panic payload => exact .inr ⟨.panic payload, by simp only [attempt, hx], rfl⟩
    | stop => exact .inr ⟨.stop, by simp only [attempt, hx], rfl⟩
  · exact .inl ⟨.ok a, attempt_of_ok hx, rfl⟩

theorem followedBy_result (x : Act σ α) (cleanup : Act σ Unit) (w : σ) :
    (x.followedBy cleanup s w).1 = (x s w).1 := by
  rcases hx : x s w with ⟨i | a, w'⟩
  · cases i <;> simp only [followedBy, hx]
  · simp only [followedBy, hx]

/-- Work keeps `J` of the state, however it ends, and `Q` holds of what it
answers. -/
def Keeps (s : Surroundings) (J : σ → Prop) (x : Act σ α)
    (Q : α → Prop := fun _ => True) : Prop :=
  ∀ w, J w → J (x s w).2 ∧ ∀ a, (x s w).1 = .ok a → Q a

namespace Keeps

variable {J : σ → Prop} {x : Act σ α} {Q : α → Prop}

theorem pure {a : α} (ha : Q a) : Keeps s J (Pure.pure a) Q := by
  intro w hw
  refine ⟨hw, ?_⟩
  rintro _ ⟨⟩
  exact ha

theorem bind {f : α → Act σ β} {T : β → Prop} (hx : Keeps s J x Q)
    (hf : ∀ a, Q a → Keeps s J (f a) T) : Keeps s J (x >>= f) T := by
  intro w hw
  have hxw := hx w hw
  rcases heq : x s w with ⟨i | a, w'⟩
  · rw [heq] at hxw
    rw [bind_of_error heq]
    exact ⟨hxw.1, by simp⟩
  · rw [heq] at hxw
    rw [bind_of_ok heq]
    exact hf a (hxw.2 a rfl) w' hxw.1

theorem interrupt (i : Interruption PipelineError) :
    Keeps s J (Act.interrupt i : Act σ α) Q := by
  intro w hw
  exact ⟨hw, by simp [Act.interrupt]⟩

theorem fail (e : PipelineError) : Keeps s J (Act.fail e : Act σ α) Q :=
  interrupt _

theorem ofExcept {ε : Type} (wrap : ε → PipelineError) (r : Except ε α) :
    Keeps s J (Act.ofExcept wrap r) := by
  cases r with
  | ok a => exact pure trivial
  | error e => exact fail _

theorem surroundings : Keeps s J Act.surroundings (· = s) := by
  intro w hw
  refine ⟨hw, ?_⟩
  rintro _ ⟨⟩
  rfl

theorem state : Keeps s J Act.state J := by
  intro w hw
  refine ⟨hw, ?_⟩
  rintro _ ⟨⟩
  exact hw

theorem change {f : σ → σ} (hf : ∀ w, J w → J (f w)) : Keeps s J (Act.change f) :=
  fun w hw => ⟨hf w hw, fun _ _ => trivial⟩

theorem attempt (hx : Keeps s J x Q) :
    Keeps s J x.attempt (fun r => ∀ a, r = .ok a → Q a) := by
  intro w hw
  have hxw := hx w hw
  rcases attempt_cases x s w with ⟨r, hr, hres⟩ | ⟨i, hi, -⟩
  · rw [hr]
    refine ⟨hxw.1, ?_⟩
    rintro _ ⟨⟩ a rfl
    exact hxw.2 a (by rw [hres]; rfl)
  · rw [hi]
    exact ⟨hxw.1, by simp⟩

theorem followedBy {cleanup : Act σ Unit} (hx : Keeps s J x Q)
    (hcleanup : Keeps s J cleanup) : Keeps s J (x.followedBy cleanup) Q := by
  intro w hw
  have hxw := hx w hw
  refine ⟨?_, by rw [followedBy_result]; exact hxw.2⟩
  rcases heq : x s w with ⟨i | a, w'⟩
  · rw [heq] at hxw
    cases i <;> simp only [Act.followedBy, heq]
    · exact (hcleanup w' hxw.1).1
    · exact (hcleanup w' hxw.1).1
    · exact hxw.1
  · rw [heq] at hxw
    simp only [Act.followedBy, heq]
    exact (hcleanup w' hxw.1).1

/-- Work inside a larger state keeps what it keeps of its part, if the rest of
the larger state does not matter to `K`. -/
theorem within {K : ρ → Prop} {get : ρ → σ} {set : σ → ρ → ρ}
    (hget : ∀ r, K r → J (get r)) (hset : ∀ r w, K r → J w → K (set w r))
    (hx : Keeps s J x Q) : Keeps s K (Act.within get set x) Q := by
  intro r hr
  have hxr := hx (get r) (hget r hr)
  exact ⟨hset r _ hr hxr.1, hxr.2⟩

end Keeps

end Act

end Docket
