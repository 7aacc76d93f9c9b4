import Docket.Proofs.Actions
import Docket.Proofs.Anchors
import Docket.Rule.Validate

/-!
What checking a rule before it is saved is worth when the rule is carried out.  No action of a
checked rule fails, and of its conditions only those that compare a text with a pattern between
anchors can: the pattern was compiled alone, and the anchors may be what it cannot bear.
-/

namespace Docket

open Docket.Regex (EndsInComment Pattern ofPattern nestLimit stateSize sizeLimit)

/-- Whether a line of a trace starts with some words. -/
def TraceLine.Says (l : TraceLine) (words : String) : Prop := words.toList <+: l.text.toList

/-- How many anchors a relation puts around a pattern. -/
def TextRelation.anchors : TextRelation → Nat
  | .equals => 2
  | .starts => 1
  | .contains => 0

/-- A value that is a pattern alone but none between the anchors of a relation: it ends in a
comment, it nests as deeply as a pattern may, or its expression is as large as one may be. -/
def TextRelation.Breaks (relation : TextRelation) (value : String) (caseInsensitive : Bool) :
    Prop :=
  relation ≠ .contains ∧
    (EndsInComment value.toList ∨
      ∃ pattern re flags, Pattern.read value.toList = .ok pattern ∧
        ofPattern { caseInsensitive } pattern = .ok (re, flags) ∧
        (nestLimit < pattern.depth + 2 ∨
          ∃ backwards, sizeLimit <
            5 * stateSize + (Regex.size backwards re + relation.anchors * stateSize)))

/-! Lines about failures. -/

namespace TraceLine

theorem says_conditionFailed {l : TraceLine} :
    l.Says "failed to evaluate condition" ↔ ∃ e, l = .conditionFailed e := by
  constructor
  · intro h
    cases l with
    | conditionFailed e => exact ⟨e, rfl⟩
    | actionFailed e =>
        change _ <+: ("failed to apply action: " ++ e.message).toList at h
        simp at h
    | _ => exact absurd h (by unfold Says; decide)
  · rintro ⟨e, rfl⟩
    change _ <+: ("failed to evaluate condition: " ++ e.message).toList
    simp

theorem says_actionFailed {l : TraceLine} :
    l.Says "failed to apply action" ↔ ∃ e, l = .actionFailed e := by
  constructor
  · intro h
    cases l with
    | actionFailed e => exact ⟨e, rfl⟩
    | conditionFailed e =>
        change _ <+: ("failed to evaluate condition: " ++ e.message).toList at h
        simp at h
    | _ => exact absurd h (by unfold Says; decide)
  · rintro ⟨e, rfl⟩
    change _ <+: ("failed to apply action: " ++ e.message).toList
    simp

end TraceLine

namespace Registry

variable {r : Registry} {d : Document} {mode : RuleMode} {c : Condition}

theorem conditionFailed_mem_judge :
    (∃ e, .conditionFailed e ∈ (r.judge c d).2) ↔ ∃ e, r.check c d = .error e := by
  unfold judge
  cases r.check c d with
  | error e => simp
  | ok answer => cases c.inverted <;> cases answer <;> simp

theorem conditionFailed_mem_traceOf :
    (∃ e, .conditionFailed e ∈ (r.traceOf d c).log) ↔
      (r.traceOf d c).skipped = false ∧ ∃ e, r.check c d = .error e := by
  rw [← conditionFailed_mem_judge, traceOf_skipped]
  unfold traceOf
  cases c.enabled <;> simp [Condition.skip]

/-- A failure is noted with the conditions that were asked and failed, and with no other. -/
theorem conditionFailed_mem_log {cs : List Condition} {i : Nat} {t : ConditionTrace}
    (hc : cs[i]? = some c) (ht : (r.checkAll mode d cs).2[i]? = some t) :
    (∃ e, .conditionFailed e ∈ t.log) ↔ t.skipped = false ∧ ∃ e, r.check c d = .error e := by
  rcases r.decidedAt_or_undecided mode d cs with
    ⟨k, before, last, after, rfl, -, hlast, hbefore⟩ | hcs
  · rcases getElem?_checkAll_of_decided hbefore hlast hc ht with
      ⟨-, rfl⟩ | ⟨-, rfl, rfl⟩ | ⟨-, rfl⟩
    · exact conditionFailed_mem_traceOf
    · rw [← conditionFailed_mem_judge]
      cases mode <;> simp [decidingTrace, RuleMode.decidedLine]
    · simp [Condition.skip]
  · rw [trace_of_undecided hcs hc ht]
    exact conditionFailed_mem_traceOf

/-- An action that fails nowhere leaves no line about a failure. -/
theorem actionFailed_not_mem_applyOne {matched : Bool} {a : Action}
    (ha : ∃ d', r.apply a d = .ok d') (e : RuleError) :
    .actionFailed e ∉ (r.applyOne matched a d).2.log := by
  obtain ⟨d', happly⟩ := ha
  unfold applyOne
  rw [happly]
  split
  · simp
  · split <;> simp

theorem actionFailed_not_mem_applyAll {matched : Bool} {actions : List Action}
    (hactions : ∀ a ∈ actions, ∀ d, ∃ d', r.apply a d = .ok d') (d : Document) :
    ∀ t ∈ (r.applyAll matched d actions).2, ∀ e, .actionFailed e ∉ t.log := by
  induction actions generalizing d with
  | nil => simp [applyAll]
  | cons a rest ih =>
      have hrest := ih fun b hb => hactions b (List.mem_cons_of_mem a hb)
      intro t ht
      rcases List.mem_cons.mp ht with rfl | ht
      · exact actionFailed_not_mem_applyOne (hactions a List.mem_cons_self d)
      · exact hrest _ t ht

end Registry

/-! What a check passes. -/

theorem discard_eq_ok {α : Type} {x : Except RuleError α} :
    (discard x : Except RuleError Unit) = .ok () ↔ ∃ a, x = .ok a := by
  cases x with
  | error e => exact iff_of_false (fun h => nomatch h) (by simp)
  | ok a => exact iff_of_true rfl ⟨a, rfl⟩

theorem forM_eq_ok {α : Type} {f : α → Except RuleError Unit} {l : List α} :
    l.forM f = .ok () ↔ ∀ a ∈ l, f a = .ok () := by
  induction l with
  | nil => exact iff_of_true rfl (by simp)
  | cons a rest ih =>
      have hcons : (a :: rest).forM f = (f a >>= fun _ => rest.forM f) := rfl
      rw [hcons, List.forall_mem_cons]
      cases f a with
      | error e => simp [Bind.bind, Except.bind]
      | ok u => simpa [Bind.bind, Except.bind] using ih

theorem Rule.validate_eq_ok {rule : Rule} : rule.validate = .ok () ↔
    (∀ c ∈ rule.conditions, c.validate = .ok ()) ∧ ∀ a ∈ rule.actions, a.validate = .ok () := by
  rw [← forM_eq_ok, ← forM_eq_ok]
  unfold Rule.validate
  cases rule.conditions.forM Condition.validate with
  | error e => simp [Bind.bind, Except.bind]
  | ok u => simp [Bind.bind, Except.bind]

/-- An action that passes the check can be carried out on every document. -/
theorem Action.apply_of_validate {a : Action} (h : a.validate = .ok ()) (d : Document) :
    ∃ d', a.apply d = .ok d' := by
  unfold Action.validate at h
  unfold Action.apply
  cases hkind : a.kind with
  | setDate =>
      rw [hkind] at h
      obtain ⟨date, hdate⟩ := discard_eq_ok.mp h
      simp [hdate]
  | addEntry =>
      rw [hkind] at h
      obtain ⟨ids, hids⟩ := discard_eq_ok.mp h
      simp [hids]
  | removeEntry =>
      rw [hkind] at h
      obtain ⟨ids, hids⟩ := discard_eq_ok.mp h
      simp [hids]
  | _ => simp

theorem TextRelation.toList_pattern (relation : TextRelation) (value : String) :
    (relation.pattern value).toList =
      match relation with
      | .equals => Regex.anchorText value.toList true
      | .starts => Regex.anchorText value.toList false
      | .contains => value.toList := by
  cases relation <;> simp [TextRelation.pattern, Regex.anchorText]

theorem compileFor_eq_error {source : String} (pattern : String) {caseInsensitive : Bool} :
    (∃ e, compileFor source pattern caseInsensitive = .error e) ↔
      ∃ e, Regex.compile source caseInsensitive = .error e := by
  unfold compileFor
  cases Regex.compile source caseInsensitive <;> simp

theorem compileFor_eq_ok {source pattern : String} {caseInsensitive : Bool} {re : Regex} :
    compileFor source pattern caseInsensitive = .ok re ↔
      Regex.compile source caseInsensitive = .ok re := by
  unfold compileFor
  cases Regex.compile source caseInsensitive <;> simp

theorem Condition.matchText_eq_error {c : Condition} (hregex : c.isRegex = true) {text : String}
    {relation : TextRelation} : (∃ e, c.matchText text relation = .error e) ↔
      ∃ e, Regex.compile (relation.pattern c.value) c.caseInsensitive = .error e := by
  rw [← compileFor_eq_error c.value]
  unfold Condition.matchText
  rw [if_pos hregex]
  cases compileFor (relation.pattern c.value) c.value c.caseInsensitive <;> simp

/-- A pattern that was compiled alone is refused by a relation exactly if it breaks there. -/
theorem TextRelation.breaks_iff {relation : TextRelation} {value : String}
    {caseInsensitive : Bool} {re : Regex} (h : Regex.compile value caseInsensitive = .ok re) :
    relation.Breaks value caseInsensitive ↔
      ∃ e, Regex.compile (relation.pattern value) caseInsensitive = .error e := by
  obtain ⟨pattern, flags, hread, hpattern, -⟩ := Regex.compile_eq_ok.mp h
  have hbreaks : relation.Breaks value caseInsensitive ↔ relation ≠ .contains ∧
      (EndsInComment value.toList ∨ nestLimit < pattern.depth + 2 ∨
        ∃ backwards, sizeLimit <
          5 * stateSize + (Regex.size backwards re + relation.anchors * stateSize)) := by
    simp [TextRelation.Breaks, hread, hpattern]
  rw [hbreaks]
  have htext := relation.toList_pattern value
  cases relation with
  | equals =>
      rw [Regex.compile_anchorText_eq_error hread hpattern htext]
      simp [TextRelation.anchors]
  | starts =>
      rw [Regex.compile_anchorText_eq_error hread hpattern htext]
      simp [TextRelation.anchors]
  | contains =>
      simp [TextRelation.pattern, h]

/-- A condition that passes the check fails exactly if it is about a text and its pattern breaks
between the anchors, whatever the document. -/
theorem Condition.check_of_validate {c : Condition} (h : c.validate = .ok ()) (d : Document) :
    (∃ e, c.check d = .error e) ↔ c.isRegex = true ∧ ∃ field relation,
      c.kind = .text field relation ∧ relation.Breaks c.value c.caseInsensitive := by
  unfold Condition.validate at h
  unfold Condition.check
  cases hkind : c.kind with
  | text field relation =>
      rw [hkind] at h
      cases hregex : c.isRegex with
      | false =>
          unfold Condition.matchText
          rw [hregex]
          cases hcase : c.caseInsensitive <;> simp
      | true =>
          rw [hregex] at h
          obtain ⟨re, hre⟩ := discard_eq_ok.mp h
          have hbreaks := relation.breaks_iff (compileFor_eq_ok.mp hre)
          rw [matchText_eq_error hregex, ← hbreaks]
          simp
  | date comparison =>
      rw [hkind] at h
      obtain ⟨date, hdate⟩ := discard_eq_ok.mp h
      simp [hdate]
  | entryCount comparison =>
      rw [hkind] at h
      obtain ⟨n, hn⟩ := discard_eq_ok.mp h
      simp [hn]
  | hasKey =>
      rw [hkind] at h
      obtain ⟨key, hkey⟩ := discard_eq_ok.mp h
      simp [hkey]
  | hasKeyValue =>
      rw [hkind] at h
      obtain ⟨ids, hids⟩ := discard_eq_ok.mp h
      simp [hids]

/-- A rule of two patterns: one between anchors, and one that ends in a comment. -/
def Rule.patterned : Rule where
  userId := 1
  name := "patterned"
  order := 0
  mode := .any
  conditions := [
    { id := 1, kind := .text .name .equals, value := "a|b", isRegex := true },
    { id := 2, kind := .text .name .contains, value := "(?x)a#b", isRegex := true }]
  actions := [{ id := 3, kind := .setDate, value := "2024-02-29" }]

/-- A rule whose pattern ends in a comment: between anchors, its comment goes on over the
parenthesis that is put behind it. -/
def Rule.commented : Rule where
  userId := 1
  name := "commented"
  order := 0
  conditions := [{ kind := .text .name .equals, value := "(?x)a#b", isRegex := true }]

end Docket
