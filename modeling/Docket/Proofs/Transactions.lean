import Mathlib.Data.List.Induction
import Docket.Proofs.Catalog

/-!
Transactions.  A rule and the entries of a document are written row by row, each row by a statement
of its own that may fail when others have taken effect.  What the store makes of the whole is what
the statements make of it one after the other, and nothing where one of them fails.
-/

namespace Docket

open Calendar (Instant)

theorem numberRows_concat {α β : Type} (row : Int → Nat → α → β) (last : Int) (items : List α)
    (a : α) : numberRows row last (items ++ [a]) =
      numberRows row last items ++ [row (last + items.length + 1) items.length a] := by
  rw [numberRows, List.mapIdx_concat, numberRows]

/-- A statement changes the tables, or it fails and leaves them. -/
abbrev Statement := Store → Except StoreError Store

namespace Store

/-- Execute statements in order, up to the first that fails: what has become of the tables, and the
failure. -/
def execute (s : Store) : List Statement → Store × Option StoreError
  | [] => (s, none)
  | statement :: rest =>
    match statement s with
    | .ok s' => s'.execute rest
    | .error e => (s, some e)

/-- Execute statements in a transaction: where one fails, those before it are undone. -/
def transact (s : Store) (statements : List Statement) : Store × Except StoreError Unit :=
  match s.execute statements with
  | (s', none) => (s', .ok ())
  | (_, some e) => (s, .error e)

/-- The tables and the answer after a call that either answers with new tables or fails. -/
def settle {α : Type} (s : Store) : Except StoreError (α × Store) → Store × Except StoreError α
  | .ok (a, s') => (s', .ok a)
  | .error e => (s, .error e)

variable {s s' : Store} {statements : List Statement} {e : StoreError}

theorem execute_cons_ok {statement : Statement} (h : statement s = .ok s') :
    s.execute (statement :: statements) = s'.execute statements := by
  rw [execute, h]

theorem execute_cons_error {statement : Statement} (h : statement s = .error e) :
    s.execute (statement :: statements) = (s, some e) := by
  rw [execute, h]

theorem execute_append {more : List Statement} (h : s.execute statements = (s', none)) :
    s.execute (statements ++ more) = s'.execute more := by
  induction statements generalizing s with
  | nil =>
      cases h
      rfl
  | cons statement rest ih =>
      rw [execute] at h
      cases hstatement : statement s with
      | ok s₁ =>
          rw [hstatement] at h
          rw [List.cons_append, execute_cons_ok hstatement]
          exact ih h
      | error e =>
          rw [hstatement] at h
          cases h

theorem transact_of_none (h : s.execute statements = (s', none)) :
    s.transact statements = (s', .ok ()) := by
  rw [transact, h]

/-- Wherever the statement stands that fails, the tables are as before. -/
theorem transact_of_some (h : (s.execute statements).2 = some e) :
    s.transact statements = (s, .error e) := by
  have hexecute : s.execute statements = ((s.execute statements).1, some e) := Prod.ext rfl h
  rw [transact, hexecute]

/-- One statement for each item: where each succeeds on what those before it have made of the tables,
all of them succeed. -/
theorem execute_mapIdx {α : Type} {f : Nat → α → Statement} {items : List α}
    (stage : List α → Store)
    (hstep : ∀ before a, before ++ [a] <+: items →
      f before.length a (stage before) = .ok (stage (before ++ [a]))) :
    (stage []).execute (items.mapIdx f) = (stage items, none) := by
  induction items using List.reverseRecOn with
  | nil => rfl
  | append_singleton items a ih =>
      have hbefore := ih fun before b hfirst =>
        hstep before b (hfirst.trans (List.prefix_append items [a]))
      rw [List.mapIdx_concat, execute_append hbefore,
        execute_cons_ok (hstep items a (List.prefix_refl _))]
      rfl

/-! The statements that write a rule. -/

/-- Write the row of a rule with the next id. -/
def insertRuleRow (rule : Rule) : Statement := fun s => do
  require (!s.rules.any fun r => r.userId = rule.userId && r.order = rule.order)
    (.notUnique "rules" ["user_id", "rule_order"])
  return { s with
    rules := s.rules ++ [.ofRule (s.lastRule + 1) rule]
    lastRule := s.lastRule + 1 }

/-- Write the row of a condition with the next id. -/
def insertConditionRow (ruleId : Int) (position : Nat) (c : Condition) : Statement := fun s => do
  require (s.hasRule ruleId) .brokenReference
  return { s with
    conditions := s.conditions ++ [.ofCondition (s.lastCondition + 1) ruleId position c]
    lastCondition := s.lastCondition + 1 }

/-- Write the row of an action with the next id. -/
def insertActionRow (ruleId : Int) (position : Nat) (a : Action) : Statement := fun s => do
  require (s.hasRule ruleId) .brokenReference
  return { s with
    actions := s.actions ++ [.ofAction (s.lastAction + 1) ruleId position a]
    lastAction := s.lastAction + 1 }

/-- The statements that write a rule that gets some id: its own row first, then its conditions and
then its actions. -/
def ruleStatements (id : Int) (rule : Rule) : List Statement :=
  insertRuleRow rule ::
    (rule.conditions.mapIdx (insertConditionRow id) ++ rule.actions.mapIdx (insertActionRow id))

/-- Save a rule statement by statement: the tables then, and the id of the rule. -/
def saveRule (s : Store) (rule : Rule) : Store × Except StoreError Int :=
  match rule.validate with
  | .error e => (s, .error (.invalidRule e))
  | .ok () =>
    let (s', answer) := s.transact (ruleStatements (s.lastRule + 1) rule)
    (s', answer.map fun _ => s.lastRule + 1)

/-- The tables with the row of a rule. -/
def withRule (s : Store) (rule : Rule) : Store :=
  { s with
    rules := s.rules ++ [.ofRule (s.lastRule + 1) rule]
    lastRule := s.lastRule + 1 }

/-- The tables with the rows of conditions. -/
def withConditions (s : Store) (ruleId : Int) (conditions : List Condition) : Store :=
  { s with
    conditions := s.conditions ++
      numberRows (fun i n c => .ofCondition i ruleId n c) s.lastCondition conditions
    lastCondition := s.lastCondition + conditions.length }

/-- The tables with the rows of actions. -/
def withActions (s : Store) (ruleId : Int) (actions : List Action) : Store :=
  { s with
    actions := s.actions ++ numberRows (fun i n a => .ofAction i ruleId n a) s.lastAction actions
    lastAction := s.lastAction + actions.length }

theorem withConditions_nil (ruleId : Int) : s.withConditions ruleId [] = s := by
  simp [withConditions, numberRows]

theorem withActions_nil (ruleId : Int) : s.withActions ruleId [] = s := by
  simp [withActions, numberRows]

theorem hasRule_withRule (rule : Rule) : (s.withRule rule).hasRule (s.lastRule + 1) = true := by
  simp [hasRule, withRule, RuleRow.ofRule]

theorem hasRule_withConditions {id ruleId : Int} {conditions : List Condition} :
    (s.withConditions ruleId conditions).hasRule id = s.hasRule id := rfl

theorem hasRule_withActions {id ruleId : Int} {actions : List Action} :
    (s.withActions ruleId actions).hasRule id = s.hasRule id := rfl

theorem execute_conditions {id : Int} (hrule : s.hasRule id = true)
    (conditions : List Condition) :
    s.execute (conditions.mapIdx (insertConditionRow id)) =
      (s.withConditions id conditions, none) := by
  have hexecute := execute_mapIdx (f := insertConditionRow id) (s.withConditions id)
    fun before c (_ : before ++ [c] <+: conditions) => by
      unfold insertConditionRow
      rw [hasRule_withConditions, hrule]
      simp only [withConditions, numberRows_concat, List.append_assoc, List.length_append,
        List.length_singleton, Int.natCast_add, Int.add_assoc]
      rfl
  rwa [withConditions_nil] at hexecute

theorem execute_actions {id : Int} (hrule : s.hasRule id = true) (actions : List Action) :
    s.execute (actions.mapIdx (insertActionRow id)) = (s.withActions id actions, none) := by
  have hexecute := execute_mapIdx (f := insertActionRow id) (s.withActions id)
    fun before a (_ : before ++ [a] <+: actions) => by
      unfold insertActionRow
      rw [hasRule_withActions, hrule]
      simp only [withActions, numberRows_concat, List.append_assoc, List.length_append,
        List.length_singleton, Int.natCast_add, Int.add_assoc]
      rfl
  rwa [withActions_nil] at hexecute

theorem insertRuleRow_eq (rule : Rule) : insertRuleRow rule s =
    if s.rules.any fun r => r.userId = rule.userId && r.order = rule.order then
      .error (.notUnique "rules" ["user_id", "rule_order"])
    else .ok (s.withRule rule) := by
  unfold insertRuleRow require
  cases s.rules.any fun r => r.userId = rule.userId && r.order = rule.order <;> rfl

/-- What the store makes of a new rule is what its statements make of it, and nothing where one
fails. -/
theorem saveRule_eq (s : Store) (rule : Rule) :
    s.saveRule rule = s.settle (s.insertRule rule) := by
  unfold saveRule insertRule
  cases rule.validate with
  | error e => rfl
  | ok valid =>
      have hrow := insertRuleRow_eq (s := s) rule
      cases htaken : s.rules.any fun r => r.userId = rule.userId && r.order = rule.order with
      | true =>
          rw [htaken] at hrow
          have hfails : (s.execute (ruleStatements (s.lastRule + 1) rule)).2 =
              some (.notUnique "rules" ["user_id", "rule_order"]) := by
            rw [ruleStatements, execute_cons_error hrow]
          simp only [transact_of_some hfails]
          rfl
      | false =>
          rw [htaken] at hrow
          have hrule : (s.withRule rule).hasRule (s.lastRule + 1) = true := hasRule_withRule rule
          have hruns : s.execute (ruleStatements (s.lastRule + 1) rule) =
              (((s.withRule rule).withConditions (s.lastRule + 1) rule.conditions).withActions
                (s.lastRule + 1) rule.actions, none) := by
            rw [ruleStatements, execute_cons_ok hrow, execute_append (execute_conditions hrule _),
              execute_actions (hasRule_withConditions.trans hrule)]
          simp only [transact_of_none hruns]
          rfl

/-! The statements that write the entries of a document. -/

/-- Delete the entries of a document. -/
def detachAll (id : String) : Statement := fun s =>
  .ok { s with entries := s.entries.filter (·.documentId ≠ id) }

/-- Write an entry of a document, unless it is there. -/
def attachEntry (id : String) (pair : Int × Int) : Statement := fun s => do
  let row : EntryRow := ⟨id, pair.1, pair.2⟩
  require (s.hasDocument id && s.hasKey pair.1 && s.hasValue pair.2) .brokenReference
  return if s.entries.contains row then s else { s with entries := s.entries ++ [row] }

/-- Write the fields of a document into its row. -/
def updateRow (d : Document) (now : Instant) : Statement := fun s =>
  .ok (s.updateDocument d now).2

/-- The statements that replace the entries of a document. -/
def entryStatements (id : String) (pairs : List (Int × Int)) : List Statement :=
  detachAll id :: pairs.map (attachEntry id)

/-- Store a document with its entries statement by statement: the tables then, and whether the
document is stored. -/
def storeBatch (s : Store) (d : Document) (pairs : List (Int × Int)) (now : Instant) :
    Store × Except StoreError Bool :=
  if s.hasDocument d.id then
    let (s', answer) := s.transact (updateRow d now :: entryStatements d.id pairs)
    (s', answer.map fun _ => true)
  else (s, .ok false)

/-- Whether the key and the value of a pair are stored. -/
def knowsPair (s : Store) (pair : Int × Int) : Bool := s.hasKey pair.1 && s.hasValue pair.2

/-- The tables with entries of a document instead of what is attached to it. -/
def withEntries (s : Store) (id : String) (pairs : List (Int × Int)) : Store :=
  { s with
    entries := s.entries.filter (·.documentId ≠ id) ++
      pairs.eraseDups.map fun pair => ⟨id, pair.1, pair.2⟩ }

theorem mem_withEntries {id : String} {pairs : List (Int × Int)} {pair : Int × Int} :
    ⟨id, pair.1, pair.2⟩ ∈ (s.withEntries id pairs).entries ↔ pair ∈ pairs := by
  simp [withEntries]

theorem eraseDups_concat {α : Type} [BEq α] [LawfulBEq α] (items : List α) (a : α) :
    (items ++ [a]).eraseDups =
      if items.contains a then items.eraseDups else items.eraseDups ++ [a] := by
  rw [List.eraseDups_append]
  by_cases hmem : a ∈ items
  · have hrest : [a].removeAll items = [] := by
      rw [List.removeAll, List.filter_eq_nil_iff]
      simp [hmem]
    rw [hrest, if_pos (List.contains_iff_mem.mpr hmem), List.eraseDups_nil, List.append_nil]
  · have hrest : [a].removeAll items = [a] := by
      rw [List.removeAll, List.filter_eq_self]
      simp [hmem]
    have hsingle : [a].eraseDups = [a] := by rw [List.eraseDups_cons]; rfl
    rw [hrest, if_neg (mt List.contains_iff_mem.mp hmem), hsingle]

theorem detachAll_eq (id : String) : detachAll id s = .ok (s.withEntries id []) := by
  simp [detachAll, withEntries]

theorem attachEntry_withEntries {id : String} (hdoc : s.hasDocument id = true)
    {before : List (Int × Int)} {pair : Int × Int} (hpair : s.knowsPair pair = true) :
    attachEntry id pair (s.withEntries id before) = .ok (s.withEntries id (before ++ [pair])) := by
  have hdoc : (s.withEntries id before).hasDocument id = true := hdoc
  unfold attachEntry
  have hpair : (s.withEntries id before).knowsPair pair = true := hpair
  rw [knowsPair] at hpair
  rw [Bool.and_assoc, hdoc, hpair]
  simp only [List.contains_iff_mem, mem_withEntries]
  by_cases hmem : pair ∈ before
  · have hsame : (before ++ [pair]).eraseDups = before.eraseDups := by
      rw [eraseDups_concat, List.contains_iff_mem.mpr hmem, if_pos rfl]
    simp only [if_pos hmem, withEntries, hsame]
    rfl
  · have hmore : (before ++ [pair]).eraseDups = before.eraseDups ++ [pair] := by
      rw [eraseDups_concat, if_neg (mt List.contains_iff_mem.mp hmem)]
    simp only [if_neg hmem, withEntries, hmore, List.map_append, ← List.append_assoc]
    rfl

theorem attachEntry_of_unknown {id : String} {pair : Int × Int} (hpair : s.knowsPair pair = false) :
    attachEntry id pair s = .error .brokenReference := by
  unfold attachEntry
  rw [knowsPair] at hpair
  rw [Bool.and_assoc, hpair, Bool.and_false]
  rfl

theorem execute_entries {id : String} (hdoc : s.hasDocument id = true) {pairs : List (Int × Int)}
    (hpairs : ∀ pair ∈ pairs, s.knowsPair pair = true) :
    s.execute (entryStatements id pairs) = (s.withEntries id pairs, none) := by
  have hexecute : (s.withEntries id []).execute (pairs.mapIdx fun _ => attachEntry id) =
      (s.withEntries id pairs, none) :=
    execute_mapIdx (s.withEntries id) fun before pair hfirst =>
      attachEntry_withEntries hdoc (hpairs pair (hfirst.subset (by simp)))
  have hmap : pairs.mapIdx (fun _ => attachEntry id) = pairs.map (attachEntry id) :=
    List.ext_getElem (by simp) (by simp)
  rw [entryStatements, execute_cons_ok (detachAll_eq id), ← hmap, hexecute]

/-- Where the key or the value of a pair is unknown, the pairs before it are written and no more. -/
theorem execute_entries_of_unknown {id : String} (hdoc : s.hasDocument id = true)
    {before rest : List (Int × Int)} {pair : Int × Int}
    (hbefore : ∀ pair ∈ before, s.knowsPair pair = true) (hpair : s.knowsPair pair = false) :
    s.execute (entryStatements id (before ++ pair :: rest)) =
      (s.withEntries id before, some .brokenReference) := by
  have hunknown : (s.withEntries id before).knowsPair pair = false := hpair
  have hsplit : entryStatements id (before ++ pair :: rest) =
      entryStatements id before ++ attachEntry id pair :: rest.map (attachEntry id) := by
    simp [entryStatements]
  rw [hsplit, execute_append (execute_entries hdoc hbefore),
    execute_cons_error (attachEntry_of_unknown hunknown)]

/-- The first pair of an unknown key or value, if there is one. -/
theorem knowsPairs_cases (s : Store) (pairs : List (Int × Int)) :
    (∀ pair ∈ pairs, s.knowsPair pair = true) ∨
      ∃ before pair rest, pairs = before ++ pair :: rest ∧
        (∀ known ∈ before, s.knowsPair known = true) ∧ s.knowsPair pair = false := by
  cases hfind : pairs.find? fun pair => !s.knowsPair pair with
  | none => exact .inl fun pair hpair => by simpa using List.find?_eq_none.mp hfind pair hpair
  | some pair =>
      obtain ⟨hpair, before, rest, heq, hbefore⟩ := List.find?_eq_some_iff_append.mp hfind
      exact .inr ⟨before, pair, rest, heq, by simpa using hbefore, by simpa using hpair⟩

theorem replaceEntries_eq {id : String} (hdoc : s.hasDocument id = true)
    (pairs : List (Int × Int)) :
    s.replaceEntries id pairs =
      if pairs.all s.knowsPair then .ok (s.withEntries id pairs) else .error .brokenReference := by
  have hall : (pairs.all fun pair => s.hasDocument id && s.hasKey pair.1 && s.hasValue pair.2) =
      pairs.all s.knowsPair := by
    congr 1
    funext pair
    rw [hdoc, Bool.true_and]
    rfl
  have hreplace : s.replaceEntries id pairs = (do
      require (pairs.all fun pair => s.hasDocument id && s.hasKey pair.1 && s.hasValue pair.2)
        .brokenReference
      return s.withEntries id pairs) := rfl
  rw [hreplace, hall]
  cases pairs.all s.knowsPair <;> rfl

/-- Replacing the entries of a document that is stored is what its statements make of it, and nothing
where one fails. -/
theorem transact_entries_eq {id : String} (hdoc : s.hasDocument id = true)
    (pairs : List (Int × Int)) :
    s.transact (entryStatements id pairs) =
      s.settle ((s.replaceEntries id pairs).map fun s' => ((), s')) := by
  rw [replaceEntries_eq hdoc]
  rcases s.knowsPairs_cases pairs with hknown | ⟨before, pair, rest, rfl, hbefore, hpair⟩
  · rw [if_pos (List.all_eq_true.mpr hknown), transact_of_none (execute_entries hdoc hknown)]
    rfl
  · have hfails : (s.execute (entryStatements id (before ++ pair :: rest))).2 =
        some .brokenReference := by
      rw [execute_entries_of_unknown hdoc hbefore hpair]
    rw [if_neg (by simp [hpair]), transact_of_some hfails]
    rfl

/-- A statement of a transaction that succeeds leaves the others to a transaction of their own, save
that it is undone with them. -/
theorem transact_cons_ok {statement : Statement} (h : statement s = .ok s') :
    s.transact (statement :: statements) =
      s.settle ((s'.transact statements).2.map fun answer =>
        (answer, (s'.transact statements).1)) := by
  simp only [transact, execute_cons_ok h]
  obtain ⟨after, failure⟩ := s'.execute statements
  cases failure <;> rfl

/-- Storing a document with its entries is what its statements make of it, and nothing where one
fails. -/
theorem storeBatch_eq (s : Store) (d : Document) (pairs : List (Int × Int)) (now : Instant) :
    s.storeBatch d pairs now = s.settle (s.updateWithEntries d pairs now) := by
  have hkeeps : (s.updateDocument d now).2.hasDocument d.id = s.hasDocument d.id :=
    hasDocument_changeDocument (f := (·.withFieldsOf d now)) (fun _ => rfl) d.id
  cases hdoc : s.hasDocument d.id with
  | false =>
      have hupdate : s.updateDocument d now = (false, (s.updateDocument d now).2) :=
        Prod.ext hdoc rfl
      rw [storeBatch, hdoc, updateWithEntries, hupdate]
      rfl
  | true =>
      have hupdate : s.updateDocument d now = (true, (s.updateDocument d now).2) :=
        Prod.ext hdoc rfl
      have hrow : updateRow d now s = .ok (s.updateDocument d now).2 := rfl
      rw [storeBatch, hdoc, updateWithEntries, hupdate]
      simp only [if_true]
      rw [transact_cons_ok hrow, transact_entries_eq (hkeeps.trans hdoc)]
      cases (s.updateDocument d now).2.replaceEntries d.id pairs <;> rfl

end Store

end Docket
