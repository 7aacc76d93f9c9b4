import Docket.Proofs.Validation

/-!
A rule is checked before it is saved as it is carried out later.  Except for the patterns, what
is wrong with a condition or an action is wrong with it on every document, and the check says of
it what every document would.  Of a rule the check tells the first thing that is wrong, whether
or not it is ever asked.
-/

namespace Docket

/-- A condition that compares a text with a pattern. -/
def Condition.HasPattern (c : Condition) : Prop := c.kind.isTextual = true ∧ c.isRegex = true

/-- The first of some things that does not pass a check fails with an error. -/
def FailsFirst {α : Type} (check : α → Except RuleError Unit) (l : List α) (e : RuleError) :
    Prop :=
  ∃ before a after, l = before ++ a :: after ∧ (∀ b ∈ before, check b = .ok ()) ∧
    check a = .error e

/-- A rule with all its conditions and actions enabled. -/
def Rule.allEnabled (rule : Rule) : Rule :=
  { rule with
    conditions := rule.conditions.map fun c => { c with enabled := true }
    actions := rule.actions.map fun a => { a with enabled := true } }

section Answers

variable {α : Type} {x : Except RuleError α} {y : Except RuleError Unit} {e : RuleError}

theorem discard_eq_error : (discard x : Except RuleError Unit) = .error e ↔ x = .error e := by
  cases x with
  | error e' =>
      constructor <;> intro h
      · cases h
        rfl
      · cases h
        rfl
  | ok a => constructor <;> intro h <;> cases h

/-- A check that tells of every document what becomes of it fails as all of them do. -/
theorem eq_error_iff_forall {answer : Document → Except RuleError α}
    (h : ∀ d, (discard (answer d) : Except RuleError Unit) = y) :
    y = .error e ↔ ∀ d, answer d = .error e := by
  constructor
  · intro hy d
    exact discard_eq_error.mp ((h d).trans hy)
  · intro hanswer
    rw [← h default]
    exact discard_eq_error.mpr (hanswer default)

theorem eq_ok_iff_forall {answer : Document → Except RuleError α}
    (h : ∀ d, (discard (answer d) : Except RuleError Unit) = y) :
    y = .ok () ↔ ∀ d, ∃ a, answer d = .ok a := by
  constructor
  · intro hy d
    exact discard_eq_ok.mp ((h d).trans hy)
  · intro hanswer
    rw [← h default]
    exact discard_eq_ok.mpr (hanswer default)

end Answers

/-! One condition and one action. -/

/-- What a condition without a pattern answers, apart from whether it holds, is the same on every
document. -/
theorem Condition.discard_check {c : Condition} (h : ¬ c.HasPattern) (d : Document) :
    discard (c.check d) = c.validate := by
  unfold Condition.check Condition.validate
  cases hkind : c.kind with
  | text field relation =>
      have hliteral : c.isRegex = false :=
        Bool.eq_false_iff.mpr fun hregex => h ⟨by rw [hkind]; rfl, hregex⟩
      unfold Condition.matchText
      rw [hliteral]
      cases c.caseInsensitive <;> rfl
  | date comparison => cases readDate c.value c.effectiveDateFormat <;> rfl
  | entryCount comparison => cases readCount c.value <;> rfl
  | hasKey => cases c.requireKey <;> rfl
  | hasKeyValue => cases c.requireKeyValue <;> rfl

theorem Action.discard_apply (a : Action) (d : Document) : discard (a.apply d) = a.validate := by
  unfold Action.apply Action.validate
  cases a.kind with
  | setDate => cases readDate a.value defaultDateFormat <;> rfl
  | addEntry => cases a.requireKeyValue <;> rfl
  | removeEntry => cases a.requireKeyValue <;> rfl
  | _ => rfl

/-! A rule. -/

section FirstFailure

variable {α : Type} {check : α → Except RuleError Unit} {a : α} {l : List α} {e : RuleError}

theorem failsFirst_cons : FailsFirst check (a :: l) e ↔
    check a = .error e ∨ (check a = .ok () ∧ FailsFirst check l e) := by
  constructor
  · rintro ⟨before, b, after, hsplit, hbefore, hb⟩
    cases before with
    | nil =>
        obtain ⟨rfl, -⟩ := List.cons.inj hsplit
        exact .inl hb
    | cons a' before =>
        obtain ⟨rfl, rfl⟩ := List.cons.inj hsplit
        obtain ⟨ha, hbefore⟩ := List.forall_mem_cons.mp hbefore
        exact .inr ⟨ha, before, b, after, rfl, hbefore, hb⟩
  · rintro (ha | ⟨ha, before, b, after, rfl, hbefore, hb⟩)
    · exact ⟨[], a, l, rfl, by simp, ha⟩
    · exact ⟨a :: before, b, after, rfl, List.forall_mem_cons.mpr ⟨ha, hbefore⟩, hb⟩

theorem forM_eq_error : l.forM check = .error e ↔ FailsFirst check l e := by
  induction l with
  | nil => exact iff_of_false (fun h => by cases h) (by simp [FailsFirst])
  | cons a rest ih =>
      have hcons : (a :: rest).forM check = (check a >>= fun _ => rest.forM check) := rfl
      rw [hcons, failsFirst_cons, ← ih]
      cases check a with
      | error e' => simp [Bind.bind, Except.bind]
      | ok u => simp [Bind.bind, Except.bind]

end FirstFailure

/-- The conditions are checked before the actions. -/
theorem Rule.validate_eq_error {rule : Rule} {e : RuleError} : rule.validate = .error e ↔
    FailsFirst Condition.validate rule.conditions e ∨
      (∀ c ∈ rule.conditions, c.validate = .ok ()) ∧
        FailsFirst Action.validate rule.actions e := by
  rw [← forM_eq_error, ← forM_eq_ok, ← forM_eq_error]
  unfold Rule.validate
  cases rule.conditions.forM Condition.validate with
  | error e' => simp [Bind.bind, Except.bind]
  | ok u => simp [Bind.bind, Except.bind]

theorem Rule.validate_allEnabled (rule : Rule) : rule.allEnabled.validate = rule.validate := by
  unfold Rule.validate Rule.allEnabled
  simp only [List.forM_eq_forM, List.forM_map]
  rfl

/-- The check of a condition without a pattern fails with an error exactly if the condition fails
with it on every document, and passes exactly if the condition has an answer on every one; so
it is with the actions.  A rule fails with the error of its first condition that fails, or if
none does with that of its first action that fails, be they enabled or not. -/
theorem Rule.validate_agrees :
    (∀ c : Condition, ¬ c.HasPattern →
      (∀ e, c.validate = .error e ↔ ∀ d, Registry.builtin.check c d = .error e) ∧
      (c.validate = .ok () ↔ ∀ d, ∃ answer, Registry.builtin.check c d = .ok answer)) ∧
    (∀ a : Action,
      (∀ e, a.validate = .error e ↔ ∀ d, Registry.builtin.apply a d = .error e) ∧
      (a.validate = .ok () ↔ ∀ d, ∃ d', Registry.builtin.apply a d = .ok d')) ∧
    ∀ rule : Rule,
      (∀ e, rule.validate = .error e ↔
        FailsFirst Condition.validate rule.conditions e ∨
          (∀ c ∈ rule.conditions, c.validate = .ok ()) ∧
            FailsFirst Action.validate rule.actions e) ∧
      (rule.validate = .ok () ↔
        (∀ c ∈ rule.conditions, c.validate = .ok ()) ∧
          ∀ a ∈ rule.actions, a.validate = .ok ()) ∧
      rule.allEnabled.validate = rule.validate := by
  refine ⟨fun c hc => ?_, fun a => ?_, fun rule => ?_⟩
  · have hcheck : ∀ d, discard (Registry.builtin.check c d) = c.validate := c.discard_check hc
    exact ⟨fun e => eq_error_iff_forall hcheck, eq_ok_iff_forall hcheck⟩
  · have happly : ∀ d, discard (Registry.builtin.apply a d) = a.validate := a.discard_apply
    exact ⟨fun e => eq_error_iff_forall happly, eq_ok_iff_forall happly⟩
  · exact ⟨fun e => rule.validate_eq_error, rule.validate_eq_ok, rule.validate_allEnabled⟩

/-- A condition on a day that February has not. -/
def Condition.misdated : Condition :=
  { id := 2, kind := .date .less, value := " 2023-02-29", enabled := false, isRegex := true,
    dateFormat := some "" }

/-- A rule with that condition, which is disabled, before one that lacks its key. -/
def Rule.misdated : Rule where
  userId := 1
  name := "misdated"
  order := 0
  conditions := [{ id := 1, kind := .text .name .contains, value := "bill" }, .misdated,
    { id := 3, kind := .hasKey }]
  actions := [{ id := 4, kind := .addEntry }]

/-- The disabled condition is what is wrong with the rule, and it fails with the same error on
every document. -/
theorem Rule.validate_agrees_misdated :
    let e : RuleError := .invalidDate " 2023-02-29" "%Y-%m-%d"
    ¬ Condition.misdated.HasPattern ∧ misdated.validate = .error e ∧
    ∀ d, Registry.builtin.check .misdated d = .error e := by
  intro e
  obtain ⟨hcondition, -, hrule⟩ := validate_agrees
  have hpattern : ¬ Condition.misdated.HasPattern := fun h => absurd h.1 (by decide)
  have hfails : Condition.misdated.validate = .error e := rfl
  refine ⟨hpattern, ?_, ((hcondition .misdated hpattern).1 e).mp hfails⟩
  refine ((hrule misdated).1 e).mpr (.inl ⟨[_], .misdated, [_], rfl, ?_, hfails⟩)
  exact List.forall_mem_singleton.mpr rfl

end Docket
