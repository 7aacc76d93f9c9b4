import Docket.Proofs.Transactions

/-!
The tables of rules as a book of rules.  A rule is spread over three tables and put together again
when it is read.  Whatever is saved, enabled and deleted, the enabled rules of a user are read in
their order, each as it was saved.
-/

namespace Docket

/-! Rules but for the numbers of their rows. -/

def Condition.unnumbered (c : Condition) : Condition := { c with id := 0 }

def Action.unnumbered (a : Action) : Action := { a with id := 0 }

/-- A rule whose conditions and actions have lost their ids. -/
def Rule.unnumbered (r : Rule) : Rule :=
  { r with
    conditions := r.conditions.map Condition.unnumbered
    actions := r.actions.map Action.unnumbered }

/-! The book and what calls make of it. -/

/-- The rules that are saved, in the order in which they were, and the last id that was given
out. -/
structure RuleBook where
  rules : List Rule := []
  last : Int := 0

/-- A call that changes the rules. -/
inductive RuleCall where
  | insert (rule : Rule)
  /-- Enable or disable a rule. -/
  | enable (id : Int) (enabled : Bool)
  | delete (id : Int)

/-- What a call answers: the id of a rule that was saved, or whether there is a rule. -/
inductive RuleAnswer where
  | saved (id : Int)
  | found (there : Bool)
deriving DecidableEq

namespace RuleCall

/-- What a call answers and makes of the tables. -/
def perform : RuleCall → Store → Except StoreError (RuleAnswer × Store)
  | .insert rule, s => (s.insertRule rule).map fun saved => (.saved saved.1, saved.2)
  | .enable id enabled, s =>
    let changed := s.enableRule id enabled
    .ok (.found changed.1, changed.2)
  | .delete id, s =>
    let changed := s.deleteRule id
    .ok (.found changed.1, changed.2)

/-- What a call answers and makes of the book. -/
def enter : RuleCall → RuleBook → Except StoreError (RuleAnswer × RuleBook)
  | .insert rule, b => do
    rule.validate.mapError .invalidRule
    Store.require (!b.rules.any fun r => r.userId = rule.userId && r.order = rule.order)
      (.notUnique "rules" ["user_id", "rule_order"])
    return (.saved (b.last + 1),
      { rules := b.rules ++ [{ rule with id := b.last + 1 }], last := b.last + 1 })
  | .enable id enabled, b =>
    .ok (.found (b.rules.any (·.id = id)),
      { b with rules := b.rules.map fun r => if r.id = id then { r with enabled } else r })
  | .delete id, b =>
    .ok (.found (b.rules.any (·.id = id)), { b with rules := b.rules.filter (·.id ≠ id) })

/-- Whether a call enables or disables a rule, if it does. -/
def enables? (id : Int) : RuleCall → Option Bool
  | .enable i enabled => if i = id then some enabled else none
  | _ => none

end RuleCall

/-- Whether a rule is enabled after calls, if it was as said before them. -/
def enabledAfter (id : Int) (enabled : Bool) (calls : List RuleCall) : Bool :=
  calls.foldl (fun enabled c => (c.enables? id).getD enabled) enabled

/-- The tables after a call.  A call that fails writes nothing. -/
def Store.afterRuleCall (s : Store) (c : RuleCall) : Store :=
  ((c.perform s).toOption.map (·.2)).getD s

/-- The tables after calls in order. -/
def Store.afterRuleCalls (s : Store) (calls : List RuleCall) : Store :=
  calls.foldl Store.afterRuleCall s

namespace RuleBook

/-- The book after a call. -/
def afterCall (b : RuleBook) (c : RuleCall) : RuleBook :=
  ((c.enter b).toOption.map (·.2)).getD b

/-- The book after calls in order. -/
def afterCalls (b : RuleBook) (calls : List RuleCall) : RuleBook := calls.foldl afterCall b

/-- The enabled rules of a user, in their order. -/
def active (b : RuleBook) (userId : Int) : List Rule :=
  (b.rules.filter fun r => r.userId = userId && r.enabled).mergeSort fun r q => r.order ≤ q.order

end RuleBook

/-! Which rules are in the book. -/

namespace RuleBook

variable {b : RuleBook} {q : Rule}

theorem enter_insert_cases (b : RuleBook) (rule : Rule) :
    (∃ e, (RuleCall.insert rule).enter b = .error e) ∨
      (RuleCall.insert rule).enter b = .ok (.saved (b.last + 1),
        { rules := b.rules ++ [{ rule with id := b.last + 1 }], last := b.last + 1 }) := by
  simp only [RuleCall.enter]
  cases rule.validate with
  | error e => exact .inl ⟨_, rfl⟩
  | ok valid =>
      cases b.rules.any fun r => r.userId = rule.userId && r.order = rule.order with
      | true => exact .inl ⟨_, rfl⟩
      | false => exact .inr rfl

/-- A rule that is in the book after a call has been saved by it, or it was there and has not been
deleted. -/
theorem mem_afterCall {c : RuleCall} : q ∈ (b.afterCall c).rules ↔
    (∃ rule, c = .insert rule ∧ (c.enter b).map (·.1) = .ok (.saved q.id) ∧
      q = { rule with id := q.id }) ∨
    ∃ r ∈ b.rules, c ≠ .delete r.id ∧
      q = { r with enabled := (c.enables? r.id).getD r.enabled } := by
  cases c with
  | insert rule =>
      have hstays : (∃ r ∈ b.rules, RuleCall.insert rule ≠ .delete r.id ∧
          q = { r with enabled := ((RuleCall.insert rule).enables? r.id).getD r.enabled }) ↔
            q ∈ b.rules := by
        simp [RuleCall.enables?]
      rw [hstays, afterCall]
      rcases enter_insert_cases b rule with ⟨e, hfails⟩ | hsaved
      · rw [hfails]
        constructor
        · exact .inr
        · rintro (⟨_, -, hanswer, -⟩ | hq)
          · cases hanswer
          · exact hq
      · rw [hsaved]
        change q ∈ b.rules ++ [{ rule with id := b.last + 1 }] ↔ _
        rw [List.mem_append, List.mem_singleton, or_comm]
        refine or_congr_left ⟨?_, ?_⟩
        · rintro rfl
          exact ⟨rule, rfl, rfl, rfl⟩
        · rintro ⟨rule', hrule, hanswer, hq⟩
          cases hrule
          have hid : b.last + 1 = q.id := RuleAnswer.saved.inj (Except.ok.inj hanswer)
          rw [hid]
          exact hq
  | enable id enabled =>
      change q ∈ b.rules.map _ ↔ _
      rw [List.mem_map]
      constructor
      · rintro ⟨r, hr, rfl⟩
        refine .inr ⟨r, hr, by simp, ?_⟩
        by_cases hid : r.id = id
        · simp [RuleCall.enables?, hid]
        · simp [RuleCall.enables?, hid, Ne.symm hid]
      · rintro (⟨rule, hrule, -⟩ | ⟨r, hr, -, rfl⟩)
        · cases hrule
        · refine ⟨r, hr, ?_⟩
          by_cases hid : r.id = id
          · simp [RuleCall.enables?, hid]
          · simp [RuleCall.enables?, hid, Ne.symm hid]
  | delete id =>
      change q ∈ b.rules.filter _ ↔ _
      rw [List.mem_filter, decide_eq_true_iff]
      constructor
      · rintro ⟨hq, hne⟩
        exact .inr ⟨q, hq, fun heq => hne (RuleCall.delete.inj heq).symm, rfl⟩
      · rintro (⟨rule, hrule, -⟩ | ⟨r, hr, hne, rfl⟩)
        · cases hrule
        · exact ⟨hr, fun heq => hne (congrArg RuleCall.delete heq.symm)⟩

theorem afterCalls_concat (b : RuleBook) (calls : List RuleCall) (c : RuleCall) :
    b.afterCalls (calls ++ [c]) = (b.afterCalls calls).afterCall c := by
  rw [afterCalls, List.foldl_append]
  rfl

/-- The rules in the book are those that were saved and not deleted since, each as it was saved, with
the id that was answered, and enabled as was last said of it. -/
theorem mem_afterCalls {calls : List RuleCall} :
    q ∈ (({} : RuleBook).afterCalls calls).rules ↔
      ∃ before rule later, calls = before ++ .insert rule :: later ∧
        ((RuleCall.insert rule).enter (({} : RuleBook).afterCalls before)).map (·.1) =
          .ok (.saved q.id) ∧
        .delete q.id ∉ later ∧
        q = { rule with id := q.id, enabled := enabledAfter q.id rule.enabled later } := by
  induction calls using List.reverseRecOn generalizing q with
  | nil => simp [afterCalls]
  | append_singleton calls c ih =>
      have hlast : ∀ id enabled later, enabledAfter id enabled (later ++ [c]) =
          (c.enables? id).getD (enabledAfter id enabled later) := by
        intro id enabled later
        rw [enabledAfter, List.foldl_append]
        rfl
      rw [afterCalls_concat, mem_afterCall]
      constructor
      · rintro (⟨rule, rfl, hanswer, hq⟩ | ⟨r, hr, hkept, rfl⟩)
        · exact ⟨calls, rule, [], rfl, hanswer, by simp, hq⟩
        · obtain ⟨before, rule, later, rfl, hanswer, hnever, hr⟩ := ih.mp hr
          refine ⟨before, rule, later ++ [c], by simp, hanswer, ?_, ?_⟩
          · simp [hnever, hkept.symm]
          · rw [hlast]
            rw [hr]
      · rintro ⟨before, rule, later, heq, hanswer, hnever, hq⟩
        rcases List.eq_nil_or_concat later with rfl | ⟨rest, c', rfl⟩
        · obtain ⟨rfl, hc⟩ := List.append_inj' heq rfl
          cases hc
          exact .inl ⟨rule, rfl, hanswer, hq⟩
        · rw [List.concat_eq_append, ← List.cons_append, ← List.append_assoc] at heq
          obtain ⟨rfl, hc⟩ := List.append_inj' heq rfl
          cases hc
          rw [List.concat_eq_append, List.mem_append, not_or, List.mem_singleton] at hnever
          rw [List.concat_eq_append, hlast] at hq
          refine .inr ⟨{ rule with id := q.id, enabled := enabledAfter q.id rule.enabled rest },
            ih.mpr ⟨before, rule, rest, rfl, hanswer, hnever.1, rfl⟩, Ne.symm hnever.2, hq⟩

end RuleBook

/-! Rows of one rule among the rows of all rules. -/

section

variable {α β γ : Type} {owner : β → Int} {row : Int → Int → Nat → α → β}
  {id last : Int} {items : List α} {rows : List β}

/-- Among some rows those of a rule are those of some items in their order. -/
def HoldsItems (owner : β → Int) (row : Int → Int → Nat → α → β) (rows : List β) (id : Int)
    (items : List α) : Prop :=
  ∃ last, rows.filter (owner · = id) = numberRows (fun i n a => row i id n a) last items

theorem owner_of_mem_numberRows (howner : ∀ i id n a, owner (row i id n a) = id) {r : β}
    (hr : r ∈ numberRows (fun i n a => row i id n a) last items) : owner r = id := by
  obtain ⟨i, hi, rfl⟩ := List.mem_mapIdx.mp hr
  exact howner _ _ _ _

/-- The rows of a new rule are those that were written. -/
theorem holds_append_self (howner : ∀ i id n a, owner (row i id n a) = id)
    (hnew : ∀ r ∈ rows, owner r ≠ id) :
    HoldsItems owner row (rows ++ numberRows (fun i n a => row i id n a) last items) id items := by
  refine ⟨last, ?_⟩
  have hold : rows.filter (owner · = id) = [] :=
    List.filter_eq_nil_iff.mpr fun r hr heq => hnew r hr (of_decide_eq_true heq)
  have hwritten : (numberRows (fun i n a => row i id n a) last items).filter (owner · = id) =
      numberRows (fun i n a => row i id n a) last items :=
    List.filter_eq_self.mpr fun r hr => decide_eq_true (owner_of_mem_numberRows howner hr)
  rw [List.filter_append, hold, hwritten, List.nil_append]

/-- The rows of other rules are left. -/
theorem HoldsItems.append {i : Int} {others : List α} (h : HoldsItems owner row rows i others)
    (howner : ∀ i id n a, owner (row i id n a) = id) (hne : i ≠ id) :
    HoldsItems owner row (rows ++ numberRows (fun i n a => row i id n a) last items) i others := by
  obtain ⟨first, hrows⟩ := h
  refine ⟨first, ?_⟩
  have hwritten : (numberRows (fun i n a => row i id n a) last items).filter (owner · = i) = [] :=
    List.filter_eq_nil_iff.mpr fun r hr heq =>
      hne ((of_decide_eq_true heq).symm.trans (owner_of_mem_numberRows howner hr))
  rw [List.filter_append, hwritten, List.append_nil, hrows]

theorem HoldsItems.delete {i : Int} (h : HoldsItems owner row rows i items) (hne : i ≠ id) :
    HoldsItems owner row (rows.filter (owner · ≠ id)) i items := by
  obtain ⟨first, hrows⟩ := h
  refine ⟨first, ?_⟩
  rw [List.filter_filter, ← hrows]
  refine List.filter_congr fun r _ => ?_
  grind

/-- Rows of items stand in the order of their positions. -/
theorem pairwise_numberRows {position : β → Nat} (hposition : ∀ i n a, position (row i id n a) = n) :
    (numberRows (fun i n a => row i id n a) last items).Pairwise
      fun r q => decide (position r ≤ position q) = true := by
  induction items using List.reverseRecOn with
  | nil => exact .nil
  | append_singleton items a ih =>
      rw [numberRows_concat, List.pairwise_append]
      refine ⟨ih, List.pairwise_singleton _ _, fun r hr q hq => ?_⟩
      obtain ⟨i, hi, rfl⟩ := List.mem_mapIdx.mp hr
      cases List.mem_singleton.mp hq
      rw [hposition, hposition]
      exact decide_eq_true (Nat.le_of_lt hi)

theorem mapM_numberRows {ε : Type} {read : β → Except ε γ} {write : Int → Nat → α → β}
    {result : Int → Nat → α → γ} (hread : ∀ i n a, read (write i n a) = .ok (result i n a)) :
    (numberRows write last items).mapM read = .ok (numberRows result last items) := by
  induction items using List.reverseRecOn with
  | nil => rfl
  | append_singleton items a ih =>
      rw [numberRows_concat, numberRows_concat, List.mapM_append, ih, List.mapM_cons, hread]
      rfl

theorem map_numberRows {δ : Type} (f : β → δ) (write : Int → Nat → α → β) :
    (numberRows write last items).map f = numberRows (fun i n a => f (write i n a)) last items :=
  List.ext_getElem (by simp [numberRows]) (by simp [numberRows])

/-- What each item gives whatever its number is. -/
theorem numberRows_eq_map (f : α → β) : numberRows (fun _ _ a => f a) last items = items.map f :=
  List.ext_getElem (by simp [numberRows]) (by simp [numberRows])

end

/-! What is read of the rows of a rule. -/

theorem ConditionKind.ofName?_name (k : ConditionKind) : ofName? k.name = some k := by
  cases k with
  | text field relation => cases field <;> cases relation <;> decide
  | date comparison => cases comparison <;> decide
  | hasKey => decide
  | hasKeyValue => decide
  | entryCount comparison => cases comparison <;> decide

theorem ActionKind.ofName?_name (k : ActionKind) : ofName? k.name = some k := by
  cases k <;> decide

theorem RuleMode.ofName?_name (m : RuleMode) : ofName? m.name = some m := by
  cases m <;> rfl

theorem ConditionRow.read_ofCondition (i ruleId : Int) (n : Nat) (c : Condition) :
    (ofCondition i ruleId n c).read = .ok { c with id := i } := by
  unfold read readNamed
  rw [ofCondition, ConditionKind.ofName?_name]
  rfl

theorem ActionRow.read_ofAction (i ruleId : Int) (n : Nat) (a : Action) :
    (ofAction i ruleId n a).read = .ok { a with id := i } := by
  unfold read readNamed
  rw [ofAction, ActionKind.ofName?_name]
  rfl

theorem RuleRow.read_ofRule (i : Int) (r : Rule) :
    (ofRule i r).read = .ok { r with id := i, conditions := [], actions := [] } := by
  unfold read readNamed
  rw [ofRule, RuleMode.ofName?_name]
  rfl

namespace Store

variable {s : Store} {id : Int}

/-- The conditions of a rule are read as they were written, in their order. -/
theorem conditionsOf_eq {conditions : List Condition}
    (h : HoldsItems ConditionRow.ruleId ConditionRow.ofCondition s.conditions id conditions) :
    ∃ read, s.conditionsOf id = .ok read ∧
      read.map Condition.unnumbered = conditions.map Condition.unnumbered := by
  obtain ⟨last, hrows⟩ := h
  refine ⟨numberRows (fun i _ c => { c with id := i }) last conditions, ?_, ?_⟩
  · rw [conditionsOf, hrows, List.mergeSort_of_pairwise (pairwise_numberRows fun _ _ _ => rfl)]
    exact mapM_numberRows fun i n c => ConditionRow.read_ofCondition i id n c
  · rw [map_numberRows]
    exact numberRows_eq_map Condition.unnumbered

/-- The actions of a rule are read as they were written, in their order. -/
theorem actionsOf_eq {actions : List Action}
    (h : HoldsItems ActionRow.ruleId ActionRow.ofAction s.actions id actions) :
    ∃ read, s.actionsOf id = .ok read ∧
      read.map Action.unnumbered = actions.map Action.unnumbered := by
  obtain ⟨last, hrows⟩ := h
  refine ⟨numberRows (fun i _ a => { a with id := i }) last actions, ?_, ?_⟩
  · rw [actionsOf, hrows, List.mergeSort_of_pairwise (pairwise_numberRows fun _ _ _ => rfl)]
    exact mapM_numberRows fun i n a => ActionRow.read_ofAction i id n a
  · rw [map_numberRows]
    exact numberRows_eq_map Action.unnumbered

end Store

theorem mapM_eq_ok {ε α β : Type} {f : α → Except ε β} {g : α → β} {as : List α}
    (h : ∀ a ∈ as, f a = .ok (g a)) : as.mapM f = .ok (as.map g) := by
  induction as with
  | nil => rfl
  | cons a rest ih =>
      rw [List.mapM_cons, h a List.mem_cons_self, ih fun b hb => h b (List.mem_cons_of_mem a hb)]
      rfl

theorem exists_mapM_eq_ok {ε α β γ : Type} {f : α → Except ε β} {g : β → γ} {k : α → γ}
    {as : List α} (h : ∀ a ∈ as, ∃ b, f a = .ok b ∧ g b = k a) :
    ∃ bs, as.mapM f = .ok bs ∧ bs.map g = as.map k := by
  induction as with
  | nil => exact ⟨[], rfl, rfl⟩
  | cons a rest ih =>
      obtain ⟨b, hb, hab⟩ := h a List.mem_cons_self
      obtain ⟨bs, hbs, hall⟩ := ih fun c hc => h c (List.mem_cons_of_mem a hc)
      refine ⟨b :: bs, ?_, ?_⟩
      · rw [List.mapM_cons, hb, hbs]
        rfl
      · rw [List.map_cons, List.map_cons, hab, hall]

/-! The tables and the book. -/

/-- The rows of the rules are those of the book, each rule has its rows of conditions and actions and
no rule that is not in the book ever had any, and no two rules of a user have the same place in
the order. -/
structure RuleBook.Describes (b : RuleBook) (s : Store) : Prop where
  rows : s.rules = b.rules.map fun r => .ofRule r.id r
  last : s.lastRule = b.last
  conditions : ∀ r ∈ b.rules,
    HoldsItems ConditionRow.ruleId ConditionRow.ofCondition s.conditions r.id r.conditions
  actions : ∀ r ∈ b.rules, HoldsItems ActionRow.ruleId ActionRow.ofAction s.actions r.id r.actions
  ids : ∀ r ∈ b.rules, r.id ≤ b.last
  conditionIds : ∀ c ∈ s.conditions, c.ruleId ≤ b.last
  actionIds : ∀ a ∈ s.actions, a.ruleId ≤ b.last
  places : b.rules.Pairwise fun r q => ¬ (r.userId = q.userId ∧ r.order = q.order)

namespace RuleBook.Describes

variable {b : RuleBook} {s : Store}

theorem initially : Describes {} {} := by
  constructor <;> simp

theorem hasRule (h : b.Describes s) (id : Int) : s.hasRule id = b.rules.any (·.id = id) := by
  rw [Store.hasRule, h.rows, List.any_map]
  rfl

theorem taken (h : b.Describes s) (rule : Rule) :
    (s.rules.any fun r => r.userId = rule.userId && r.order = rule.order) =
      b.rules.any fun r => r.userId = rule.userId && r.order = rule.order := by
  rw [h.rows, List.any_map]
  rfl

/-- A new rule whose place is free. -/
theorem insert (h : b.Describes s) {rule : Rule}
    (hfree : (b.rules.any fun r => r.userId = rule.userId && r.order = rule.order) = false) :
    Describes
      { rules := b.rules ++ [{ rule with id := b.last + 1 }], last := b.last + 1 }
      (((s.withRule rule).withConditions (b.last + 1) rule.conditions).withActions
        (b.last + 1) rule.actions) := by
  have hold : ∀ r ∈ b.rules, r.id ≠ b.last + 1 := by
    intro r hr heq
    have := h.ids r hr
    omega
  refine ⟨?_, ?_, fun r hr => ?_, fun r hr => ?_, fun r hr => ?_, fun c hc => ?_, fun a ha => ?_, ?_⟩
  · change s.rules ++ [.ofRule (s.lastRule + 1) rule] = _
    rw [h.rows, h.last, List.map_append]
    rfl
  · exact congrArg (· + 1) h.last
  · rcases List.mem_append.mp hr with hr | hr
    · exact (h.conditions r hr).append (fun _ _ _ _ => rfl) (hold r hr)
    · cases List.mem_singleton.mp hr
      exact holds_append_self (fun _ _ _ _ => rfl) fun c hc heq => by
        have := h.conditionIds c hc
        omega
  · rcases List.mem_append.mp hr with hr | hr
    · exact (h.actions r hr).append (fun _ _ _ _ => rfl) (hold r hr)
    · cases List.mem_singleton.mp hr
      exact holds_append_self (fun _ _ _ _ => rfl) fun a ha heq => by
        have := h.actionIds a ha
        omega
  · rcases List.mem_append.mp hr with hr | hr
    · have := h.ids r hr
      change r.id ≤ b.last + 1
      omega
    · cases List.mem_singleton.mp hr
      exact Int.le_refl _
  · rcases List.mem_append.mp hc with hc | hc
    · have := h.conditionIds c hc
      change c.ruleId ≤ b.last + 1
      omega
    · have howner : c.ruleId = b.last + 1 := owner_of_mem_numberRows (fun _ _ _ _ => rfl) hc
      exact Int.le_of_eq howner
  · rcases List.mem_append.mp ha with ha | ha
    · have := h.actionIds a ha
      change a.ruleId ≤ b.last + 1
      omega
    · have howner : a.ruleId = b.last + 1 := owner_of_mem_numberRows (fun _ _ _ _ => rfl) ha
      exact Int.le_of_eq howner
  · refine List.pairwise_append.mpr ⟨h.places, List.pairwise_singleton _ _, fun r hr q hq => ?_⟩
    cases List.mem_singleton.mp hq
    simpa using List.any_eq_false.mp hfree r hr

theorem enable (h : b.Describes s) (id : Int) (enabled : Bool) :
    Describes
      { b with rules := b.rules.map fun r => if r.id = id then { r with enabled } else r }
      (s.enableRule id enabled).2 := by
  -- Only whether it is enabled is changed of a rule.
  have hmem : ∀ {r}, r ∈ (b.rules.map fun r => if r.id = id then { r with enabled } else r) →
      ∃ q ∈ b.rules, r.id = q.id ∧ r.conditions = q.conditions ∧ r.actions = q.actions := by
    intro r hr
    obtain ⟨q, hq, rfl⟩ := List.mem_map.mp hr
    refine ⟨q, hq, ?_⟩
    split <;> exact ⟨rfl, rfl, rfl⟩
  refine ⟨?_, h.last, fun r hr => ?_, fun r hr => ?_, fun r hr => ?_, h.conditionIds, h.actionIds,
    ?_⟩
  · change s.rules.map _ = _
    rw [h.rows, List.map_map, List.map_map]
    refine List.map_congr_left fun r _ => ?_
    have hrow : (RuleRow.ofRule r.id r).id = r.id := rfl
    by_cases hid : r.id = id
    · simp only [Function.comp, hrow, if_pos hid]
      rfl
    · simp only [Function.comp, hrow, if_neg hid]
  · obtain ⟨q, hq, hid, hconditions, -⟩ := hmem hr
    rw [hid, hconditions]
    exact h.conditions q hq
  · obtain ⟨q, hq, hid, -, hactions⟩ := hmem hr
    rw [hid, hactions]
    exact h.actions q hq
  · obtain ⟨q, hq, hid, -⟩ := hmem hr
    rw [hid]
    exact h.ids q hq
  · refine List.pairwise_map.mpr (h.places.imp fun {r q} hne => ?_)
    split <;> split <;> exact hne

theorem delete (h : b.Describes s) (id : Int) :
    Describes { b with rules := b.rules.filter (·.id ≠ id) } (s.deleteRule id).2 := by
  refine ⟨?_, h.last, fun r hr => ?_, fun r hr => ?_, fun r hr => ?_, fun c hc => ?_,
    fun a ha => ?_, h.places.filter _⟩
  · change s.rules.filter _ = _
    rw [h.rows, List.filter_map]
    rfl
  · obtain ⟨hr, hne⟩ := List.mem_filter.mp hr
    exact (h.conditions r hr).delete (of_decide_eq_true hne)
  · obtain ⟨hr, hne⟩ := List.mem_filter.mp hr
    exact (h.actions r hr).delete (of_decide_eq_true hne)
  · exact h.ids r (List.mem_filter.mp hr).1
  · exact h.conditionIds c (List.mem_filter.mp hc).1
  · exact h.actionIds a (List.mem_filter.mp ha).1

/-- A call fails on the tables as it does on the book, or it answers alike and makes of the tables
what it makes of the book. -/
theorem perform (h : b.Describes s) (c : RuleCall) :
    (∃ answer s' b', c.perform s = .ok (answer, s') ∧ c.enter b = .ok (answer, b') ∧
      b'.Describes s') ∨
      ∃ e, c.perform s = .error e ∧ c.enter b = .error e := by
  cases c with
  | insert rule =>
      simp only [RuleCall.perform, RuleCall.enter, Store.insertRule, h.taken rule, h.last]
      cases rule.validate with
      | error e => exact .inr ⟨_, rfl, rfl⟩
      | ok valid =>
          cases hfree : b.rules.any fun r => r.userId = rule.userId && r.order = rule.order with
          | true => exact .inr ⟨_, rfl, rfl⟩
          | false =>
              refine .inl ⟨_, _, _, rfl, rfl, ?_⟩
              have hinsert := h.insert hfree
              rw [← h.last] at hinsert ⊢
              exact hinsert
  | enable id enabled =>
      refine .inl ⟨_, _, _, rfl, ?_, h.enable id enabled⟩
      rw [RuleCall.enter, ← h.hasRule]
      rfl
  | delete id =>
      refine .inl ⟨_, _, _, rfl, ?_, h.delete id⟩
      rw [RuleCall.enter, ← h.hasRule]
      rfl

theorem afterCall (h : b.Describes s) (c : RuleCall) :
    (b.afterCall c).Describes (s.afterRuleCall c) := by
  rw [RuleBook.afterCall, Store.afterRuleCall]
  rcases h.perform c with ⟨answer, s', b', hs, hb, h'⟩ | ⟨e, hs, hb⟩
  · rw [hs, hb]
    exact h'
  · rw [hs, hb]
    exact h

/-- After any calls the tables are those of the book. -/
theorem afterCalls (h : b.Describes s) (calls : List RuleCall) :
    (b.afterCalls calls).Describes (s.afterRuleCalls calls) := by
  induction calls generalizing b s with
  | nil => exact h
  | cons c rest ih => exact ih (h.afterCall c)

theorem mem_active {userId : Int} {r : Rule} :
    r ∈ b.active userId ↔ r ∈ b.rules ∧ r.userId = userId ∧ r.enabled = true := by
  rw [active, List.mem_mergeSort, List.mem_filter]
  simp

/-- No two enabled rules of a user have the same place. -/
theorem active_increasing (h : b.Describes s) (userId : Int) :
    (b.active userId).Pairwise fun r q => r.order < q.order := by
  have hsorted : (b.active userId).Pairwise fun r q => decide (r.order ≤ q.order) = true :=
    List.pairwise_mergeSort (fun r q p => by simpa using Int.le_trans)
      (fun r q => by simpa using Int.le_total r.order q.order) _
  have hplaces : (b.active userId).Pairwise fun r q => ¬ (r.userId = q.userId ∧ r.order = q.order) :=
    ((List.mergeSort_perm _ _).pairwise_iff fun {r q} hne heq => hne ⟨heq.1.symm, heq.2.symm⟩).mpr
      (h.places.filter _)
  refine (hsorted.and hplaces).imp_of_mem fun {r q} hr hq hboth => ?_
  have hle : r.order ≤ q.order := of_decide_eq_true hboth.1
  have hne : r.order ≠ q.order := fun heq =>
    hboth.2 ⟨(mem_active.mp hr).2.1.trans (mem_active.mp hq).2.1.symm, heq⟩
  omega

/-- The enabled rules of a user are read in their order, each as it is in the book but for the
numbers of its conditions and actions. -/
theorem activeRules (h : b.Describes s) (userId : Int) :
    ∃ rules, s.activeRules userId = .ok rules ∧
      rules.map Rule.unnumbered = (b.active userId).map Rule.unnumbered := by
  have hrows : (s.rules.filter fun r => r.userId = userId && r.enabled).mergeSort
      (fun r q => r.order ≤ q.order) = (b.active userId).map fun r => .ofRule r.id r := by
    rw [h.rows, List.filter_map, active]
    exact (List.map_mergeSort (f := fun r : Rule => RuleRow.ofRule r.id r)
      (s := fun r q => r.order ≤ q.order) fun r _ q _ => rfl).symm
  have hread : ((b.active userId).map fun r => RuleRow.ofRule r.id r).mapM RuleRow.read =
      .ok ((b.active userId).map fun r => { r with conditions := [], actions := [] }) := by
    rw [List.mapM_map]
    exact mapM_eq_ok fun r _ => RuleRow.read_ofRule r.id r
  have hchildren : ∀ r ∈ b.active userId, ∃ q, (do
      let conditions ← s.conditionsOf r.id
      let actions ← s.actionsOf r.id
      return { r with conditions, actions } : Except StoreError Rule) = .ok q ∧
        q.unnumbered = r.unnumbered := by
    intro r hr
    obtain ⟨conditions, hconditions, hsame⟩ :=
      Store.conditionsOf_eq (h.conditions r (mem_active.mp hr).1)
    obtain ⟨actions, hactions, hsame'⟩ := Store.actionsOf_eq (h.actions r (mem_active.mp hr).1)
    refine ⟨{ r with conditions, actions }, ?_, ?_⟩
    · rw [hconditions, hactions]
      rfl
    · simp only [Rule.unnumbered, hsame, hsame']
  obtain ⟨rules, hrules, hall⟩ := exists_mapM_eq_ok hchildren
  refine ⟨rules, ?_, hall⟩
  unfold Store.activeRules
  simp only [hrows, hread]
  change List.mapM _ _ = _
  rw [List.mapM_map]
  exact hrules

/-- A call answers on the tables as it does on the book. -/
theorem answer_eq (h : b.Describes s) (c : RuleCall) :
    (c.perform s).map (·.1) = (c.enter b).map (·.1) := by
  rcases h.perform c with ⟨answer, s', b', hs, hb, -⟩ | ⟨e, hs, hb⟩
  · rw [hs, hb]
    rfl
  · rw [hs, hb]
    rfl

end RuleBook.Describes

/-- A rule is saved if it is valid and its place is free, and else nothing is written; this is what
becomes of the statements that write it row by row. -/
theorem Store.insertRule_cases (s : Store) (rule : Rule) :
    (∃ id s', s.insertRule rule = .ok (id, s') ∧ s.saveRule rule = (s', .ok id) ∧
      rule.validate = .ok () ∧ ∀ r ∈ s.rules, ¬ (r.userId = rule.userId ∧ r.order = rule.order)) ∨
    ∃ e, s.insertRule rule = .error e ∧ s.saveRule rule = (s, .error e) ∧
      ((∃ cause, rule.validate = .error cause ∧ e = .invalidRule cause) ∨
        (∃ r ∈ s.rules, r.userId = rule.userId ∧ r.order = rule.order) ∧
          e = .notUnique "rules" ["user_id", "rule_order"]) := by
  have hsave := s.saveRule_eq rule
  cases hvalid : rule.validate with
  | error cause =>
      have hfails : s.insertRule rule = .error (.invalidRule cause) := by
        rw [insertRule, hvalid]
        rfl
      rw [hfails] at hsave
      exact .inr ⟨_, hfails, hsave, .inl ⟨cause, rfl, rfl⟩⟩
  | ok valid =>
      cases htaken : s.rules.any fun r => r.userId = rule.userId && r.order = rule.order with
      | true =>
          have hfails : s.insertRule rule =
              .error (.notUnique "rules" ["user_id", "rule_order"]) := by
            rw [insertRule, hvalid, htaken]
            rfl
          rw [hfails] at hsave
          exact .inr ⟨_, hfails, hsave, .inr ⟨by simpa using htaken, rfl⟩⟩
      | false =>
          have hsaved : ∃ s', s.insertRule rule = .ok (s.lastRule + 1, s') := by
            rw [insertRule, hvalid, htaken]
            exact ⟨_, rfl⟩
          obtain ⟨s', hsaved⟩ := hsaved
          rw [hsaved] at hsave
          exact .inl ⟨_, s', hsaved, hsave, rfl, by simpa using htaken⟩

/-- After any calls the rules that are read for a user are those that were saved for the user, not
deleted since and enabled by what was last said of them.  They come in strictly increasing order,
each as it was saved, with its conditions and actions in their order and equal but for their ids.  A
rule is rejected only if it is not valid or its place is taken, and then no table is changed. -/
theorem activeRules_exact (calls : List RuleCall) :
    let s := ({} : Store).afterRuleCalls calls
    (∀ userId, ∃ rules, s.activeRules userId = .ok rules ∧
      rules.Pairwise (fun r q => r.order < q.order) ∧
      ∀ q, q ∈ rules.map Rule.unnumbered ↔
        ∃ before rule later id, calls = before ++ .insert rule :: later ∧
          ((RuleCall.insert rule).perform (({} : Store).afterRuleCalls before)).map (·.1) =
            .ok (.saved id) ∧
          .delete id ∉ later ∧ rule.userId = userId ∧
          enabledAfter id rule.enabled later = true ∧
          q = { rule with id, enabled := true }.unnumbered) ∧
    ∀ rule,
      (∃ id s', s.insertRule rule = .ok (id, s') ∧ s.saveRule rule = (s', .ok id) ∧
        rule.validate = .ok () ∧
        ∀ r ∈ s.rules, ¬ (r.userId = rule.userId ∧ r.order = rule.order)) ∨
      ∃ e, s.insertRule rule = .error e ∧ s.saveRule rule = (s, .error e) ∧
        ((∃ cause, rule.validate = .error cause ∧ e = .invalidRule cause) ∨
          (∃ r ∈ s.rules, r.userId = rule.userId ∧ r.order = rule.order) ∧
            e = .notUnique "rules" ["user_id", "rule_order"]) := by
  intro s
  have hdescribes : ∀ calls,
      (({} : RuleBook).afterCalls calls).Describes (({} : Store).afterRuleCalls calls) :=
    fun calls => RuleBook.Describes.initially.afterCalls calls
  refine ⟨fun userId => ?_, s.insertRule_cases⟩
  obtain ⟨rules, hrules, hsame⟩ := (hdescribes calls).activeRules userId
  refine ⟨rules, hrules, ?_, fun q => ?_⟩
  · have horders : rules.map (·.order) =
        ((({} : RuleBook).afterCalls calls).active userId).map (·.order) := by
      have := congrArg (List.map Rule.order) hsame
      rwa [List.map_map, List.map_map] at this
    rw [← List.pairwise_map (f := Rule.order) (R := (· < ·)), horders, List.pairwise_map]
    exact (hdescribes calls).active_increasing userId
  · rw [hsame, List.mem_map]
    constructor
    · rintro ⟨r, hr, rfl⟩
      obtain ⟨hmem, huser, henabled⟩ := RuleBook.Describes.mem_active.mp hr
      obtain ⟨before, rule, later, heq, hanswer, hnever, hrule⟩ := RuleBook.mem_afterCalls.mp hmem
      rw [← (hdescribes before).answer_eq] at hanswer
      have hlast : enabledAfter r.id rule.enabled later = true := by
        rw [← henabled, hrule]
      rw [hlast] at hrule
      refine ⟨before, rule, later, r.id, heq, hanswer, hnever, ?_, hlast, congrArg _ hrule⟩
      rw [← huser, hrule]
    · rintro ⟨before, rule, later, id, heq, hanswer, hnever, huser, hlast, rfl⟩
      rw [(hdescribes before).answer_eq] at hanswer
      refine ⟨{ rule with id, enabled := true }, RuleBook.Describes.mem_active.mpr
        ⟨RuleBook.mem_afterCalls.mpr ⟨before, rule, later, heq, hanswer, hnever, ?_⟩, huser, rfl⟩,
        rfl⟩
      rw [hlast]

end Docket
