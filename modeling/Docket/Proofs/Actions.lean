import Docket.Proofs.Conditions
import Docket.Proofs.Mirror

/-!
What the actions of a rule do.  They take their turns in order, each on the document that
the ones before have left, and an action that fails hands on what it was given.  Whatever
the actions are, they touch the name, the description, the date and the entries only.
-/

namespace Docket

/-- An action is due if it is enabled, unless it waits for a rule that did not match. -/
def Action.isDue (matched : Bool) (a : Action) : Bool := a.enabled && (!a.onCondition || matched)

/-- The document after an action that is due; one that fails leaves it as it was. -/
def Registry.attempt (r : Registry) (d : Document) (a : Action) : Document :=
  match r.apply a d with
  | .ok d' => d'
  | .error _ => d

/-- The document after those of some actions that are due, in order. -/
def Registry.attemptDue (r : Registry) (matched : Bool) (d : Document) (actions : List Action) :
    Document :=
  (actions.filter (·.isDue matched)).foldl r.attempt d

/-- A document that differs from another in what rules may change of it. -/
def Document.Retouched (d d' : Document) : Prop :=
  ∃ name description date metadata,
    d' = { d with name := name, description := description, date := date, metadata := metadata }

/-- Why an action fails: no registry knows its kind, or what it needs is not there. -/
def Registry.Unable (r : Registry) (a : Action) : Prop :=
  r.action a.kind = none ∨
    (a.kind = .setDate ∧ ∃ e, readDate a.value defaultDateFormat = .error e) ∨
    ((a.kind = .addEntry ∨ a.kind = .removeEntry) ∧
      (a.metadataKey = none ∨ a.metadataValue = none))

/-! One action. -/

theorem Action.requireKeyValue_eq_error {a : Action} :
    (∃ e, a.requireKeyValue = .error e) ↔ a.metadataKey = none ∨ a.metadataValue = none := by
  unfold Action.requireKeyValue
  cases a.metadataKey <;> cases a.metadataValue <;> simp

/-- An action of a known kind fails for its date or for its ids, whatever the document. -/
theorem Action.apply_eq_error {a : Action} {d : Document} :
    (∃ e, a.apply d = .error e) ↔
      (a.kind = .setDate ∧ ∃ e, readDate a.value defaultDateFormat = .error e) ∨
      ((a.kind = .addEntry ∨ a.kind = .removeEntry) ∧
        (a.metadataKey = none ∨ a.metadataValue = none)) := by
  rw [← requireKeyValue_eq_error]
  unfold Action.apply
  cases a.kind with
  | setDate => cases readDate a.value defaultDateFormat <;> simp
  | addEntry => cases a.requireKeyValue <;> simp
  | removeEntry => cases a.requireKeyValue <;> simp
  | _ => simp

theorem Document.Retouched.trans {d d' d'' : Document} (h : d.Retouched d')
    (h' : d'.Retouched d'') : d.Retouched d'' := by
  obtain ⟨_, _, _, _, rfl⟩ := h
  obtain ⟨name, description, date, metadata, rfl⟩ := h'
  exact ⟨name, description, date, metadata, rfl⟩

theorem Document.retouched_addEntry (d : Document) (e : Entry) : d.Retouched (d.addEntry e) := by
  unfold Document.addEntry
  split
  · exact ⟨_, _, _, _, rfl⟩
  · exact ⟨_, _, _, _, rfl⟩

theorem Action.retouched {a : Action} {d d' : Document} (h : a.apply d = .ok d') :
    d.Retouched d' := by
  unfold Action.apply at h
  cases hkind : a.kind <;> rw [hkind] at h
  case setDate =>
    obtain ⟨date, -, h⟩ := exists_of_bind_ok h
    cases h
    exact ⟨_, _, _, _, rfl⟩
  case addEntry =>
    obtain ⟨⟨k, v⟩, -, h⟩ := exists_of_bind_ok h
    cases h
    exact d.retouched_addEntry _
  case removeEntry =>
    obtain ⟨⟨k, v⟩, -, h⟩ := exists_of_bind_ok h
    cases h
    exact ⟨_, _, _, _, rfl⟩
  all_goals
    cases h
    exact ⟨_, _, _, _, rfl⟩

/-- No action attaches an entry twice. -/
theorem Action.nodup_ids {a : Action} {d d' : Document} (h : a.apply d = .ok d')
    (hd : (d.entries.map Entry.ids).Nodup) : (d'.entries.map Entry.ids).Nodup := by
  obtain ⟨-, hsame | ⟨k, v, -, -, rfl⟩ | ⟨k, v, rfl⟩⟩ := Action.apply_cases h
  · unfold Document.entries at hd ⊢
    rwa [hsame]
  · exact Document.nodup_ids_addEntry _ hd
  · exact Document.nodup_ids_removeEntries k v hd

namespace Registry

variable {r : Registry} {matched : Bool} {a : Action} {d : Document}

theorem ActsBuiltin.apply_eq_error (hr : r.ActsBuiltin) :
    (∃ e, r.apply a d = .error e) ↔ r.Unable a := by
  unfold Unable apply
  cases haction : r.action a.kind with
  | none => simp
  | some f =>
      rw [hr _ f haction]
      simpa using Action.apply_eq_error

theorem builtin_restrict_actsBuiltin (names : List String) :
    (builtin.restrict names).ActsBuiltin := by
  intro kind f h
  change (if names.contains kind.name then some Action.apply else none) = some f at h
  split at h
  · exact (Option.some.inj h).symm
  · cases h

theorem applyOne_of_not_isDue (h : ¬ a.isDue matched = true) :
    ∃ line, r.applyOne matched a d = (d, ⟨a.id, false, true, [line]⟩) := by
  unfold applyOne
  by_cases henabled : a.enabled = true
  · have hwaits : (a.onCondition && !matched) = true := by
      simpa [Action.isDue, henabled] using h
    simp [henabled, hwaits]
  · simp [henabled]

theorem applyOne_of_isDue (h : a.isDue matched = true) :
    r.applyOne matched a d = match r.apply a d with
      | .ok d' => (d', ⟨a.id, true, false, [.actionApplied]⟩)
      | .error e => (d, ⟨a.id, false, false, [.actionFailed e]⟩) := by
  unfold Action.isDue at h
  rw [Bool.and_eq_true] at h
  have hgoes : (a.onCondition && !matched) = false := by
    cases hon : a.onCondition with
    | false => rfl
    | true => simpa [hon] using h.2
  unfold applyOne
  rw [h.1, hgoes]
  rfl

/-- The trace of an action tells what became of the document. -/
theorem applyOne_tells :
    ((r.applyOne matched a d).2.skipped = true ↔ a.isDue matched = false) ∧
    ((r.applyOne matched a d).2.applied = true ↔
      a.isDue matched = true ∧ ∃ d', r.apply a d = .ok d') ∧
    ((r.applyOne matched a d).2.applied = true →
      r.apply a d = .ok (r.applyOne matched a d).1) ∧
    ((r.applyOne matched a d).2.applied = false → (r.applyOne matched a d).1 = d) := by
  by_cases hdue : a.isDue matched = true
  · rw [applyOne_of_isDue hdue]
    cases r.apply a d <;> simp [hdue]
  · obtain ⟨line, hone⟩ := applyOne_of_not_isDue (r := r) (d := d) hdue
    simp [hone, hdue]

theorem applyOne_document :
    (r.applyOne matched a d).1 = r.attemptDue matched d [a] := by
  unfold attemptDue
  by_cases hdue : a.isDue matched = true
  · rw [applyOne_of_isDue hdue, List.filter_singleton, hdue]
    change _ = r.attempt d a
    unfold attempt
    cases r.apply a d <;> rfl
  · obtain ⟨line, hone⟩ := applyOne_of_not_isDue (r := r) (d := d) hdue
    rw [Bool.not_eq_true] at hdue
    rw [hone, List.filter_singleton, hdue]
    rfl

theorem applyOne_actionId : (r.applyOne matched a d).2.actionId = a.id := by
  unfold applyOne
  split
  · rfl
  · split
    · rfl
    · split <;> rfl

/-! All actions. -/

theorem attemptDue_append (before after : List Action) :
    r.attemptDue matched d (before ++ after) =
      r.attemptDue matched (r.attemptDue matched d before) after := by
  unfold attemptDue
  rw [List.filter_append, List.foldl_append]

theorem applyAll_document (actions : List Action) :
    (r.applyAll matched d actions).1 = r.attemptDue matched d actions := by
  induction actions generalizing d with
  | nil => rfl
  | cons a rest ih =>
      calc (r.applyAll matched d (a :: rest)).1
          = (r.applyAll matched (r.applyOne matched a d).1 rest).1 := rfl
        _ = r.attemptDue matched (r.attemptDue matched d [a]) rest := by
            rw [ih, applyOne_document]
        _ = r.attemptDue matched d (a :: rest) := (attemptDue_append [a] rest).symm

theorem applyAll_actionIds (actions : List Action) :
    (r.applyAll matched d actions).2.map (·.actionId) = actions.map (·.id) := by
  induction actions generalizing d with
  | nil => rfl
  | cons a rest ih =>
      have hrest := ih (d := (r.applyOne matched a d).1)
      exact List.cons_eq_cons.mpr ⟨applyOne_actionId, hrest⟩

/-- The trace of an action is about the document that those before it have left. -/
theorem getElem?_applyAll (actions : List Action) (i : Nat) :
    (r.applyAll matched d actions).2[i]? = actions[i]?.map fun a =>
      (r.applyOne matched a (r.attemptDue matched d (actions.take i))).2 := by
  induction actions generalizing d i with
  | nil => rfl
  | cons a rest ih =>
      cases i with
      | zero => rfl
      | succ i =>
          change (r.applyAll matched (r.applyOne matched a d).1 rest).2[i]? = _
          rw [ih, applyOne_document]
          simp only [← attemptDue_append]
          rfl

/-- What each action keeps that can be carried out, all of them keep. -/
theorem attemptDue_induction {P : Document → Prop} {actions : List Action}
    (happly : ∀ a ∈ actions, ∀ d d', P d → r.apply a d = .ok d' → P d') (hd : P d) :
    P (r.attemptDue matched d actions) := by
  rw [← applyAll_document]
  exact applyAll_induction matched (fun a ha _ d d' => happly a ha d d') d hd

theorem evaluate_document_eq (rule : Rule) :
    (r.evaluate rule d).document = r.attemptDue (r.evaluate rule d).matched d rule.actions :=
  applyAll_document _

theorem evaluate_actions_eq (rule : Rule) :
    (r.evaluate rule d).trace.actions =
      (r.applyAll (r.evaluate rule d).matched d rule.actions).2 := rfl

/-- A rule leaves the document that its due actions make of it, taken in order, where one
that fails changes nothing and stops none behind it.  Its trace has an entry for each
action: those not due are skipped, and of the others those are applied that can be carried
out on the document that those before have left.  If the actions are the known ones, they
fail only for an unknown kind, a date that does not read or ids that are missing; the rule
touches nothing but name, description, date and entries, and attaches no entry twice. -/
theorem evaluate_folds (r : Registry) (rule : Rule) (d : Document) :
    ((r.evaluate rule d).matched = true ↔ rule.Matches r d) ∧
    (r.evaluate rule d).document =
      (rule.actions.filter (·.isDue (r.evaluate rule d).matched)).foldl r.attempt d ∧
    (r.evaluate rule d).trace.actions.map (·.actionId) = rule.actions.map (·.id) ∧
    (∀ (i : Nat) (a : Action) (t : ActionTrace), rule.actions[i]? = some a →
      (r.evaluate rule d).trace.actions[i]? = some t →
      let before := r.attemptDue (r.evaluate rule d).matched d (rule.actions.take i)
      let after := r.attemptDue (r.evaluate rule d).matched d (rule.actions.take (i + 1))
      (t.skipped = true ↔ a.isDue (r.evaluate rule d).matched = false) ∧
      (t.applied = true ↔
        a.isDue (r.evaluate rule d).matched = true ∧ ∃ d', r.apply a before = .ok d') ∧
      (t.applied = true → r.apply a before = .ok after) ∧
      (t.applied = false → after = before)) ∧
    (r.ActsBuiltin →
      (∀ a d', (∃ e, r.apply a d' = .error e) ↔ r.Unable a) ∧
      d.Retouched (r.evaluate rule d).document ∧
      ((d.entries.map Entry.ids).Nodup →
        ((r.evaluate rule d).document.entries.map Entry.ids).Nodup)) := by
  refine ⟨checkAll_fst_eq_true rule, evaluate_document_eq rule, applyAll_actionIds _, ?_, ?_⟩
  · intro i a t ha ht
    dsimp only
    rw [evaluate_actions_eq, getElem?_applyAll, ha] at ht
    obtain rfl := Option.some.inj ht
    rw [List.take_add_one, ha, Option.toList_some, attemptDue_append, ← applyOne_document]
    exact applyOne_tells
  · intro hr
    rw [evaluate_document_eq]
    refine ⟨fun a d' => hr.apply_eq_error, ?_, fun hd => ?_⟩
    · apply attemptDue_induction (P := d.Retouched)
      · intro a _ d₁ d₂ hd₁ happly
        exact hd₁.trans (Action.retouched (hr.apply_ok happly))
      · exact ⟨_, _, _, _, rfl⟩
    · apply attemptDue_induction (P := fun d' => (d'.entries.map Entry.ids).Nodup)
      · intro a _ d₁ d₂ hd₁ happly
        exact Action.nodup_ids (hr.apply_ok happly) hd₁
      · exact hd

/-- A rule that does not match.  Its first action waits for that in vain, the second is
carried out, the third has no date, the kind of the fourth is not known everywhere, the
fifth lacks its value, the sixth attaches an entry and the seventh the same once more. -/
def unevenRule : Rule where
  userId := 1
  name := "uneven"
  order := 0
  conditions := [{ id := 1, kind := .hasKey, metadataKey := some 1 }]
  actions := [
    { id := 1, kind := .setName, value := "a" },
    { id := 2, kind := .appendName, value := "b", onCondition := false },
    { id := 3, kind := .setDate, value := "today", onCondition := false },
    { id := 4, kind := .setDescription, value := "c", onCondition := false },
    { id := 5, kind := .removeEntry, metadataKey := some 1, onCondition := false },
    { id := 6, kind := .addEntry, metadataKey := some 1, metadataValue := some 2,
      onCondition := false },
    { id := 7, kind := .addEntry, metadataKey := some 1, metadataValue := some 2,
      onCondition := false }]

/-- The known kinds but the one that sets descriptions. -/
def withoutDescriptions : Registry :=
  builtin.restrict ["metadata_has_key", "name_set", "name_append", "date_set", "metadata_add",
    "metadata_remove"]

theorem evaluate_folds_uneven :
    let e := withoutDescriptions.evaluate unevenRule default
    e.matched = false ∧ e.document.name = "b" ∧ e.document.description = "" ∧
    e.document.entries.map Entry.ids = [(1, 2)] ∧
    e.trace.actions.map (·.skipped) = [true, false, false, false, false, false, false] ∧
    e.trace.actions.map (·.applied) = [false, true, false, false, false, true, true] ∧
    (default : Document).Retouched e.document ∧ (e.document.entries.map Entry.ids).Nodup ∧
    ∀ (i : Nat) (a : Action) (t : ActionTrace), unevenRule.actions[i]? = some a →
      e.trace.actions[i]? = some t → (t.skipped = true ↔ a.isDue e.matched = false) := by
  obtain ⟨-, hdocument, -, htrace, hbuiltin⟩ :=
    evaluate_folds withoutDescriptions unevenRule default
  obtain ⟨-, hretouched, hnodup⟩ := hbuiltin (builtin_restrict_actsBuiltin _)
  refine ⟨by decide, ?_, ?_, ?_, by decide, by decide, hretouched, hnodup (by decide), ?_⟩
  · rw [hdocument]
    decide
  · rw [hdocument]
    decide
  · rw [hdocument]
    decide
  · exact fun i a t ha ht => (htrace i a t ha ht).1

end Registry

end Docket
