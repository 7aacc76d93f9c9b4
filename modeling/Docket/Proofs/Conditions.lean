import Docket.Rule.Evaluate

/-!
What it takes for a rule to match.  The conditions are checked up to the first that decides
the rule, but the outcome is the one that checking all of them would have, and the trace
tells where the check has stopped.
-/

namespace Docket

/-- A condition holds if its evaluator answers the opposite of what inverts it.  An unknown
kind and an evaluator that fails answer nothing, inverted or not. -/
def Registry.Holds (r : Registry) (c : Condition) (d : Document) : Prop :=
  ∃ f answer, r.condition c.kind = some f ∧ f c d = .ok answer ∧ answer ≠ c.inverted

/-- A rule matches if its enabled conditions hold: all of them, or one of them. -/
def Rule.Matches (rule : Rule) (r : Registry) (d : Document) : Prop :=
  match rule.mode with
  | .all => ∀ c ∈ rule.conditions, c.enabled = true → r.Holds c d
  | .any => ∃ c ∈ rule.conditions, c.enabled = true ∧ r.Holds c d

/-- An enabled condition that leaves no other condition a say. -/
def Registry.Decides (r : Registry) (mode : RuleMode) (c : Condition) (d : Document) : Prop :=
  c.enabled = true ∧
    match mode with
    | .all => ¬ r.Holds c d
    | .any => r.Holds c d

/-- The first of some conditions that decides a rule stands at an index. -/
def Registry.DecidedAt (r : Registry) (mode : RuleMode) (d : Document) (cs : List Condition)
    (k : Nat) : Prop :=
  ∃ before c after, cs = before ++ c :: after ∧ before.length = k ∧ r.Decides mode c d ∧
    ∀ b ∈ before, ¬ r.Decides mode b d

theorem TraceLine.head?_text_conditionFailed (e : RuleError) :
    (conditionFailed e).text.toList.head? = some 'f' := by
  change ("failed to evaluate condition: " ++ e.message).toList.head? = some 'f'
  simp

theorem TraceLine.head?_text_actionFailed (e : RuleError) :
    (actionFailed e).text.toList.head? = some 'f' := by
  change ("failed to apply action: " ++ e.message).toList.head? = some 'f'
  simp

theorem RuleMode.head?_text_decidedLine (mode : RuleMode) :
    mode.decidedLine.text.toList.head? = some 'r' := by
  cases mode <;> decide

/-- No other line reads like the one that says that the rest is passed over. -/
theorem TraceLine.text_eq_decidedLine {l : TraceLine} {mode : RuleMode} :
    l.text = mode.decidedLine.text ↔ l = mode.decidedLine := by
  refine ⟨fun h => ?_, congrArg text⟩
  cases l with
  | conditionFailed e =>
      have hf := head?_text_conditionFailed e
      rw [h, mode.head?_text_decidedLine] at hf
      exact absurd hf (by decide)
  | actionFailed e =>
      have hf := head?_text_actionFailed e
      rw [h, mode.head?_text_decidedLine] at hf
      exact absurd hf (by decide)
  | _ =>
      revert h
      cases mode <;> decide

namespace Registry

variable {r : Registry} {mode : RuleMode} {d : Document} {c : Condition}

theorem judge_eq_true : (r.judge c d).1 = true ↔ r.Holds c d := by
  unfold judge check Holds
  cases hkind : r.condition c.kind with
  | none => simp
  | some f =>
      cases hanswer : f c d with
      | error e => simp [hanswer]
      | ok answer =>
          simp only [hanswer, Option.some.injEq, exists_and_left, exists_eq_left']
          simp

theorem decides_iff :
    r.Decides mode c d ↔ c.enabled = true ∧ mode.decidedBy (r.judge c d).1 = true := by
  cases mode <;> simp [Decides, RuleMode.decidedBy, ← judge_eq_true]

/-- What is asked of a condition itself writes no line that the rest is passed over. -/
theorem decidedLine_not_mem_judge : mode.decidedLine ∉ (r.judge c d).2 := by
  unfold judge
  cases r.check c d with
  | error e => cases mode <;> simp [RuleMode.decidedLine]
  | ok answer =>
      cases hinverted : c.inverted <;> cases answer <;> cases mode <;>
        simp [RuleMode.decidedLine]

/-- The trace of a condition that does not decide the rule, where none before it does. -/
def traceOf (r : Registry) (d : Document) (c : Condition) : ConditionTrace :=
  if c.enabled then ⟨c.id, (r.judge c d).1, false, (r.judge c d).2⟩
  else c.skip .conditionDisabled

/-- The trace of the condition that decides the rule. -/
def decidingTrace (r : Registry) (mode : RuleMode) (d : Document) (c : Condition) :
    ConditionTrace :=
  ⟨c.id, (r.judge c d).1, false, (r.judge c d).2 ++ [mode.decidedLine]⟩

theorem checkAll_cons_of_not (hc : ¬ r.Decides mode c d) (rest : List Condition) :
    r.checkAll mode d (c :: rest) =
      ((r.checkAll mode d rest).1, r.traceOf d c :: (r.checkAll mode d rest).2) := by
  rw [decides_iff] at hc
  cases henabled : c.enabled with
  | false => simp [checkAll, traceOf, henabled]
  | true =>
      have hgo : mode.decidedBy (r.judge c d).1 = false := by simpa [henabled] using hc
      simp [checkAll, traceOf, henabled, hgo]

theorem checkAll_cons_of_decides (hc : r.Decides mode c d) (rest : List Condition) :
    r.checkAll mode d (c :: rest) =
      ((r.judge c d).1,
        r.decidingTrace mode d c :: rest.map (·.skip .conditionSkipped)) := by
  obtain ⟨henabled, hstop⟩ := decides_iff.mp hc
  simp [checkAll, decidingTrace, henabled, hstop]

/-- Where no condition decides the rule, all enabled ones are asked. -/
theorem checkAll_of_undecided {cs : List Condition} (hcs : ∀ c ∈ cs, ¬ r.Decides mode c d) :
    r.checkAll mode d cs = (mode.undecided, cs.map (r.traceOf d)) := by
  induction cs with
  | nil => rfl
  | cons c rest ih =>
      have hrest := ih fun c hc => hcs c (List.mem_cons_of_mem _ hc)
      rw [checkAll_cons_of_not (hcs c List.mem_cons_self), hrest, List.map_cons]

/-- Behind the first condition that decides the rule nothing is asked. -/
theorem checkAll_of_decided {before after : List Condition}
    (hbefore : ∀ b ∈ before, ¬ r.Decides mode b d) (hc : r.Decides mode c d) :
    r.checkAll mode d (before ++ c :: after) =
      ((r.judge c d).1, before.map (r.traceOf d) ++
        r.decidingTrace mode d c :: after.map (·.skip .conditionSkipped)) := by
  induction before with
  | nil => exact checkAll_cons_of_decides hc after
  | cons b rest ih =>
      have hrest := ih fun b hb => hbefore b (List.mem_cons_of_mem _ hb)
      rw [List.cons_append, checkAll_cons_of_not (hbefore b List.mem_cons_self), hrest,
        List.map_cons, List.cons_append]

/-- Some condition is the first to decide a rule, or none decides it. -/
theorem decidedAt_or_undecided (r : Registry) (mode : RuleMode) (d : Document)
    (cs : List Condition) :
    (∃ k, r.DecidedAt mode d cs k) ∨ ∀ c ∈ cs, ¬ r.Decides mode c d := by
  induction cs with
  | nil => exact .inr (by simp)
  | cons c rest ih =>
      by_cases hc : r.Decides mode c d
      · exact .inl ⟨0, [], c, rest, rfl, rfl, hc, by simp⟩
      · rcases ih with ⟨k, before, b, after, rfl, rfl, hb, hbefore⟩ | hrest
        · refine .inl ⟨_, c :: before, b, after, rfl, rfl, hb, ?_⟩
          simpa [hc] using hbefore
        · exact .inr (by simpa [hc] using hrest)

theorem undecided_of_not_decidedAt {cs : List Condition}
    (h : ∀ k, ¬ r.DecidedAt mode d cs k) : ∀ c ∈ cs, ¬ r.Decides mode c d := by
  rcases r.decidedAt_or_undecided mode d cs with ⟨k, hk⟩ | hcs
  · exact absurd hk (h k)
  · exact hcs

/-- The outcome of the check is what its conditions mean, asked or not. -/
theorem checkAll_fst_eq_true (rule : Rule) :
    (r.checkAll rule.mode d rule.conditions).1 = true ↔ rule.Matches r d := by
  rcases r.decidedAt_or_undecided rule.mode d rule.conditions with
    ⟨k, before, c, after, hsplit, -, hc, hbefore⟩ | hcs
  · have hmem : c ∈ rule.conditions := by simp [hsplit]
    rw [hsplit, checkAll_of_decided hbefore hc, judge_eq_true]
    cases hmode : rule.mode with
    | all =>
        rw [hmode] at hc
        have hfails : ¬ rule.Matches r d := by
          simp only [Rule.Matches, hmode]
          exact fun h => hc.2 (h c hmem hc.1)
        exact iff_of_false hc.2 hfails
    | any =>
        rw [hmode] at hc
        have hholds : rule.Matches r d := by
          simp only [Rule.Matches, hmode]
          exact ⟨c, hmem, hc.1, hc.2⟩
        exact iff_of_true hc.2 hholds
  · rw [checkAll_of_undecided hcs]
    cases hmode : rule.mode with
    | all =>
        rw [hmode] at hcs
        have hall : rule.Matches r d := by
          simp only [Rule.Matches, hmode]
          exact fun c hc henabled => Classical.not_not.mp fun h => hcs c hc ⟨henabled, h⟩
        exact iff_of_true rfl hall
    | any =>
        rw [hmode] at hcs
        have hnone : ¬ rule.Matches r d := by
          simp only [Rule.Matches, hmode]
          rintro ⟨c, hc, hholds⟩
          exact hcs c hc hholds
        exact iff_of_false (by simp [RuleMode.undecided]) hnone

@[simp] theorem traceOf_conditionId : (r.traceOf d c).conditionId = c.id := by
  unfold traceOf
  split <;> rfl

@[simp] theorem traceOf_skipped : (r.traceOf d c).skipped = !c.enabled := by
  unfold traceOf
  cases c.enabled <;> rfl

theorem decidedLine_not_mem_traceOf : mode.decidedLine ∉ (r.traceOf d c).log := by
  unfold traceOf
  split
  · exact decidedLine_not_mem_judge
  · cases mode <;> simp [Condition.skip, RuleMode.decidedLine]

theorem traceOf_matched (h : (r.traceOf d c).skipped = false) :
    (r.traceOf d c).matched = true ↔ r.Holds c d := by
  have henabled : c.enabled = true := by simpa using h
  simp [traceOf, henabled, judge_eq_true]

/-- There is one entry for each condition, in order. -/
theorem checkAll_conditionIds (cs : List Condition) :
    (r.checkAll mode d cs).2.map (·.conditionId) = cs.map (·.id) := by
  rcases r.decidedAt_or_undecided mode d cs with
    ⟨k, before, c, after, rfl, -, hc, hbefore⟩ | hcs
  · rw [checkAll_of_decided hbefore hc]
    simp [Function.comp_def, decidingTrace, Condition.skip]
  · rw [checkAll_of_undecided hcs]
    simp [Function.comp_def]

/-- The entry of a condition, by its place before, at or behind the deciding one. -/
theorem getElem?_checkAll_of_decided {before after : List Condition} {i : Nat}
    {e : Condition} {t : ConditionTrace}
    (hbefore : ∀ b ∈ before, ¬ r.Decides mode b d) (hc : r.Decides mode c d)
    (he : (before ++ c :: after)[i]? = some e)
    (ht : (r.checkAll mode d (before ++ c :: after)).2[i]? = some t) :
    i < before.length ∧ t = r.traceOf d e ∨
      i = before.length ∧ e = c ∧ t = r.decidingTrace mode d c ∨
      before.length < i ∧ t = e.skip .conditionSkipped := by
  rw [checkAll_of_decided hbefore hc] at ht
  rcases Nat.lt_trichotomy i before.length with hi | rfl | hi
  · rw [List.getElem?_append_left hi] at he
    rw [List.getElem?_append_left (by simpa using hi), List.getElem?_map, he] at ht
    exact .inl ⟨hi, by simpa using ht.symm⟩
  · rw [List.getElem?_append_right (by simp)] at ht
    simp at he ht
    exact .inr (.inl ⟨rfl, he.symm, ht.symm⟩)
  · obtain ⟨j, rfl⟩ := Nat.exists_eq_add_of_lt hi
    have hj : before.length + j + 1 - before.length = j + 1 := by omega
    rw [List.getElem?_append_right (by omega), hj, List.getElem?_cons_succ] at he
    rw [List.getElem?_append_right (by simp; omega), List.length_map, hj,
      List.getElem?_cons_succ, List.getElem?_map, he] at ht
    exact .inr (.inr ⟨hi, by simpa using ht.symm⟩)

/-- In a decided rule, the entries of the disabled conditions before the deciding one and
of all behind it are skipped, and the deciding one alone says that the rest is passed over. -/
theorem skipped_of_decidedAt {cs : List Condition} {k i : Nat} {e : Condition}
    {t : ConditionTrace} (hk : r.DecidedAt mode d cs k) (he : cs[i]? = some e)
    (ht : (r.checkAll mode d cs).2[i]? = some t) :
    (t.skipped = true ↔ k < i ∨ i < k ∧ e.enabled = false) ∧
      (mode.decidedLine ∈ t.log ↔ i = k) := by
  obtain ⟨before, c, after, rfl, rfl, hc, hbefore⟩ := hk
  rcases getElem?_checkAll_of_decided hbefore hc he ht with
    ⟨hi, rfl⟩ | ⟨rfl, rfl, rfl⟩ | ⟨hi, rfl⟩
  · refine ⟨by simp [hi, Nat.not_lt_of_lt hi], ?_⟩
    exact iff_of_false decidedLine_not_mem_traceOf (Nat.ne_of_lt hi)
  · simp [decidingTrace]
  · refine ⟨iff_of_true rfl (.inl hi), iff_of_false ?_ (Nat.ne_of_gt hi)⟩
    cases mode <;> simp [Condition.skip, RuleMode.decidedLine]

theorem trace_of_undecided {cs : List Condition} {i : Nat} {e : Condition}
    {t : ConditionTrace} (hcs : ∀ c ∈ cs, ¬ r.Decides mode c d) (he : cs[i]? = some e)
    (ht : (r.checkAll mode d cs).2[i]? = some t) : t = r.traceOf d e := by
  rw [checkAll_of_undecided hcs, List.getElem?_map, he] at ht
  simpa using ht.symm

/-- An entry that is not skipped says whether its condition holds. -/
theorem matched_of_not_skipped {cs : List Condition} {i : Nat} {e : Condition}
    {t : ConditionTrace} (he : cs[i]? = some e)
    (ht : (r.checkAll mode d cs).2[i]? = some t) (hskipped : t.skipped = false) :
    t.matched = true ↔ r.Holds e d := by
  rcases r.decidedAt_or_undecided mode d cs with
    ⟨k, before, c, after, rfl, -, hc, hbefore⟩ | hcs
  · rcases getElem?_checkAll_of_decided hbefore hc he ht with
      ⟨-, rfl⟩ | ⟨-, rfl, rfl⟩ | ⟨-, rfl⟩
    · exact traceOf_matched hskipped
    · exact judge_eq_true
    · cases hskipped
  · obtain rfl := trace_of_undecided hcs he ht
    exact traceOf_matched hskipped

/-- Whatever another registry answers behind the condition that decides a rule is never
seen. -/
theorem checkAll_congr {r' : Registry} {cs : List Condition} {k : Nat}
    (hk : r.DecidedAt mode d cs k)
    (hsame : ∀ i ≤ k, ∀ e, cs[i]? = some e → e.enabled = true → r'.check e d = r.check e d) :
    r'.checkAll mode d cs = r.checkAll mode d cs := by
  obtain ⟨before, c, after, rfl, rfl, hc, hbefore⟩ := hk
  have hjudge : ∀ e ∈ before ++ [c], e.enabled = true → r'.judge e d = r.judge e d := by
    intro e he henabled
    obtain ⟨i, hi, rfl⟩ := List.mem_iff_getElem.mp he
    have hget : (before ++ c :: after)[i]? = some (before ++ [c])[i] := by
      rw [List.append_cons, List.getElem?_append_left hi, List.getElem?_eq_getElem hi]
    have hle : i ≤ before.length := by simpa [Nat.lt_succ_iff] using hi
    simp only [judge, hsame i hle _ hget henabled]
  have hdecides : ∀ e ∈ before ++ [c], r'.Decides mode e d ↔ r.Decides mode e d := by
    intro e he
    rw [decides_iff, decides_iff]
    exact and_congr_right fun henabled => by rw [hjudge e he henabled]
  have htrace : ∀ b ∈ before, r'.traceOf d b = r.traceOf d b := by
    intro b hb
    unfold traceOf
    split
    · rw [hjudge b (List.mem_append_left _ hb) ‹_›]
    · rfl
  have hc' : r'.Decides mode c d := (hdecides c (by simp)).mpr hc
  have hbefore' : ∀ b ∈ before, ¬ r'.Decides mode b d :=
    fun b hb => mt (hdecides b (List.mem_append_left _ hb)).mp (hbefore b hb)
  rw [checkAll_of_decided hbefore' hc', checkAll_of_decided hbefore hc,
    List.map_congr_left htrace, decidingTrace, decidingTrace, hjudge c (by simp) hc.1]

theorem evaluate_conditions_eq (rule : Rule) :
    (r.evaluate rule d).trace.conditions = (r.checkAll rule.mode d rule.conditions).2 := rfl

/-- A rule matches if its enabled conditions hold, all of them or one.  Its trace has an
entry for each condition.  Those that are disabled are skipped, and so are all behind the
first that decides the rule; that one alone says that the rest is passed over, and what a
registry answers behind it is never seen.  All other entries say whether their condition
holds. -/
theorem evaluate_decides (r : Registry) (rule : Rule) (d : Document) :
    ((r.evaluate rule d).matched = true ↔ rule.Matches r d) ∧
    (r.evaluate rule d).trace.matched = (r.evaluate rule d).matched ∧
    (r.evaluate rule d).trace.conditions.map (·.conditionId) = rule.conditions.map (·.id) ∧
    (∀ k, r.DecidedAt rule.mode d rule.conditions k →
      (∀ (i : Nat) (c : Condition) (t : ConditionTrace), rule.conditions[i]? = some c →
        (r.evaluate rule d).trace.conditions[i]? = some t →
        (t.skipped = true ↔ k < i ∨ i < k ∧ c.enabled = false) ∧
        ((∃ l ∈ t.log, l.text = rule.mode.decidedLine.text) ↔ i = k)) ∧
      ∀ r' : Registry, (∀ i ≤ k, ∀ c, rule.conditions[i]? = some c → c.enabled = true →
          r'.check c d = r.check c d) →
        (r'.evaluate rule d).matched = (r.evaluate rule d).matched ∧
        (r'.evaluate rule d).trace.conditions = (r.evaluate rule d).trace.conditions) ∧
    ((∀ k, ¬ r.DecidedAt rule.mode d rule.conditions k) →
      ∀ (i : Nat) (c : Condition) (t : ConditionTrace), rule.conditions[i]? = some c →
        (r.evaluate rule d).trace.conditions[i]? = some t →
        (t.skipped = true ↔ c.enabled = false) ∧
        ¬ ∃ l ∈ t.log, l.text = rule.mode.decidedLine.text) ∧
    ∀ (i : Nat) (c : Condition) (t : ConditionTrace), rule.conditions[i]? = some c →
      (r.evaluate rule d).trace.conditions[i]? = some t → t.skipped = false →
      (t.matched = true ↔ r.Holds c d) := by
  have hline : ∀ t : ConditionTrace, (∃ l ∈ t.log, l.text = rule.mode.decidedLine.text) ↔
      rule.mode.decidedLine ∈ t.log := by
    intro t
    simp only [TraceLine.text_eq_decidedLine, exists_eq_right]
  simp only [hline, evaluate_conditions_eq]
  refine ⟨checkAll_fst_eq_true rule, rfl, checkAll_conditionIds _, fun k hk => ⟨?_, ?_⟩, ?_, ?_⟩
  · exact fun i c t hc ht => skipped_of_decidedAt hk hc ht
  · intro r' hsame
    have hcheck := checkAll_congr hk hsame
    exact ⟨congrArg Prod.fst hcheck, congrArg Prod.snd hcheck⟩
  · intro hnone i c t hc ht
    obtain rfl := trace_of_undecided (undecided_of_not_decidedAt hnone) hc ht
    exact ⟨by simp, decidedLine_not_mem_traceOf⟩
  · exact fun i c t hc ht => matched_of_not_skipped hc ht

/-- A rule whose third condition decides it.  The second fails for want of a key, which
inverting it does not mend. -/
def mixedRule : Rule where
  userId := 1
  name := "mixed"
  order := 0
  mode := .any
  conditions := [
    { id := 1, kind := .hasKey, enabled := false },
    { id := 2, kind := .hasKeyValue, inverted := true },
    { id := 3, kind := .text .name .equals, value := "b", inverted := true },
    { id := 4, kind := .hasKey }]

theorem evaluate_decides_mixed :
    builtin.DecidedAt .any default mixedRule.conditions 2 ∧
    mixedRule.Matches builtin default ∧
    ((builtin.evaluate mixedRule default).trace.conditions.map (·.conditionId)) = [1, 2, 3, 4] ∧
    ∀ (i : Nat) (c : Condition) (t : ConditionTrace), mixedRule.conditions[i]? = some c →
      (builtin.evaluate mixedRule default).trace.conditions[i]? = some t →
      (t.skipped = true ↔ 2 < i ∨ i < 2 ∧ c.enabled = false) := by
  obtain ⟨hmatched, -, hids, hdecided, -, -⟩ := evaluate_decides builtin mixedRule default
  have hk : builtin.DecidedAt .any default mixedRule.conditions 2 := by
    refine ⟨mixedRule.conditions.take 2, mixedRule.conditions[2], mixedRule.conditions.drop 3,
      rfl, rfl, ?_, ?_⟩
    · rw [decides_iff]
      decide
    · simp only [decides_iff]
      decide
  refine ⟨hk, hmatched.mp rfl, hids, fun i c t hc ht => ?_⟩
  exact ((hdecided 2 hk).1 i c t hc ht).1

end Registry

end Docket
