import Mathlib.Data.List.Forall2
import Docket.Proofs.Actions

/-!
What rules make of the names of entries, which is nothing.  Taking the names away commutes
with every condition and every action, so that documents with the same ids have the same
traces and stay documents with the same ids.
-/

namespace Docket

/-- An entry without its names. -/
def Entry.nameless (e : Entry) : Entry := { keyId := e.keyId, valueId := e.valueId }

/-- A document whose entries are loaded and have no names. -/
def Document.nameless (d : Document) : Document :=
  { d with metadata := some (d.entries.map Entry.nameless) }

/-- Documents that differ at most in the names of their entries, and in whether there are
no entries or none were loaded. -/
structure Document.SameIds (d d' : Document) : Prop where
  fields : d' = { d with metadata := d'.metadata }
  ids : d'.entries.map Entry.ids = d.entries.map Entry.ids

/-- Rules that end alike on documents with the same ids, and leave such documents. -/
structure Evaluation.SameOutcome (e e' : Evaluation) : Prop where
  matched : e'.matched = e.matched
  trace : e'.trace = e.trace
  document : e.document.SameIds e'.document

/-! Taking names away. -/

@[simp] theorem Entry.ids_nameless (e : Entry) : e.nameless.ids = e.ids := rfl

/-- Lists of entries have the same ids if they are the same without names. -/
theorem Entry.map_ids_eq_iff {es es' : List Entry} :
    es'.map ids = es.map ids ↔ es'.map nameless = es.map nameless := by
  have hnamed : ∀ l : List Entry, l.map nameless = (l.map ids).map fun p => ⟨p.1, "", p.2, ""⟩ :=
    fun l => by rw [List.map_map]; rfl
  have hids : ∀ l : List Entry, l.map ids = (l.map nameless).map ids :=
    fun l => by rw [List.map_map]; rfl
  constructor
  · intro h
    rw [hnamed es', hnamed es, h]
  · intro h
    rw [hids es', hids es, h]

namespace Document

variable {d d' : Document}

@[simp] theorem entries_nameless : d.nameless.entries = d.entries.map Entry.nameless := rfl

@[simp] theorem hasEntry_nameless (e : Entry) :
    d.nameless.hasEntry e.nameless = d.hasEntry e := by
  rw [hasEntry, entries_nameless, List.any_map]
  rfl

theorem text_nameless (field : TextField) : d.nameless.text field = d.text field := by
  cases field <;> rfl

theorem nameless_addEntry (e : Entry) :
    (d.addEntry e).nameless = d.nameless.addEntry e.nameless := by
  unfold addEntry
  rw [hasEntry_nameless]
  split
  · rfl
  · simp [nameless, entries]

theorem nameless_removeEntries (keyId valueId : Int) :
    (d.removeEntries keyId valueId).nameless = d.nameless.removeEntries keyId valueId := by
  have hentries : (d.removeEntries keyId valueId).entries.map Entry.nameless =
      (d.entries.map Entry.nameless).filter (·.ids ≠ (keyId, valueId)) := by
    rw [entries_removeEntries, List.filter_map]
    rfl
  simp only [nameless, hentries]
  rfl

/-- The names are all that tells documents with the same ids apart. -/
theorem sameIds_iff : d.SameIds d' ↔ d'.nameless = d.nameless := by
  constructor
  · intro h
    rw [nameless, Entry.map_ids_eq_iff.mp h.ids, h.fields, nameless]
  · intro h
    have hentries : some (d'.entries.map Entry.nameless) = some (d.entries.map Entry.nameless) :=
      congrArg metadata h
    have hfields := congrArg (fun x => ({ x with metadata := d'.metadata } : Document)) h
    exact ⟨hfields, Entry.map_ids_eq_iff.mpr (Option.some.inj hentries)⟩

end Document

/-! Conditions and actions. -/

/-- No condition looks at names. -/
theorem Condition.check_nameless (c : Condition) (d : Document) :
    c.check d.nameless = c.check d := by
  unfold Condition.check
  cases c.kind with
  | text field relation => simp only [Document.text_nameless]
  | date comparison => rfl
  | hasKey =>
      simp only [Document.entries_nameless, List.any_map]
      rfl
  | hasKeyValue =>
      simp only [Document.entries_nameless, List.any_map]
      rfl
  | entryCount comparison => simp only [Document.entries_nameless, List.length_map]

/-- An action does to a document without names what it does to the document itself, with
the names taken away. -/
theorem Action.apply_nameless (a : Action) (d : Document) :
    a.apply d.nameless = (a.apply d).map Document.nameless := by
  unfold Action.apply
  cases a.kind with
  | setName | appendName | setDescription | appendDescription => rfl
  | setDate => cases readDate a.value defaultDateFormat <;> rfl
  | addEntry =>
      cases a.requireKeyValue with
      | error e => rfl
      | ok ids =>
          exact congrArg Except.ok (Document.nameless_addEntry ⟨ids.1, "", ids.2, ""⟩).symm
  | removeEntry =>
      cases a.requireKeyValue with
      | error e => rfl
      | ok ids => exact congrArg Except.ok (Document.nameless_removeEntries _ _).symm

/-! Rules. -/

/-- A change of documents that no condition of a registry sees, and that every action hands on. -/
structure Registry.Respects (r : Registry) (f : Document → Document) : Prop where
  check : ∀ c d, r.check c (f d) = r.check c d
  apply : ∀ a d, r.apply a (f d) = (r.apply a d).map f

/-- An outcome with a changed document. -/
def Evaluation.mapDocument (f : Document → Document) (e : Evaluation) : Evaluation :=
  { e with document := f e.document }

namespace Registry.Respects

variable {r : Registry} {f : Document → Document} {d : Document}

theorem checkAll (hr : r.Respects f) (mode : RuleMode) (cs : List Condition) :
    r.checkAll mode (f d) cs = r.checkAll mode d cs := by
  have hjudge : ∀ c, r.judge c (f d) = r.judge c d := fun c => by
    unfold judge
    rw [hr.check]
  induction cs with
  | nil => rfl
  | cons c rest ih => rw [Registry.checkAll, Registry.checkAll, ih, hjudge]

theorem applyOne (hr : r.Respects f) (matched : Bool) (a : Action) :
    r.applyOne matched a (f d) = (f (r.applyOne matched a d).1, (r.applyOne matched a d).2) := by
  unfold Registry.applyOne
  rw [hr.apply]
  cases r.apply a d <;> split <;> first | rfl | split <;> rfl

theorem applyAll (hr : r.Respects f) (matched : Bool) (actions : List Action) :
    r.applyAll matched (f d) actions =
      (f (r.applyAll matched d actions).1, (r.applyAll matched d actions).2) := by
  induction actions generalizing d with
  | nil => rfl
  | cons a rest ih => simp only [Registry.applyAll, hr.applyOne, ih]

/-- A rule has the same outcome on the changed document, which it leaves changed. -/
theorem evaluate (hr : r.Respects f) (rule : Rule) :
    r.evaluate rule (f d) = (r.evaluate rule d).mapDocument f := by
  simp only [Registry.evaluate, hr.checkAll, hr.applyAll, Evaluation.mapDocument]

theorem applyRules (hr : r.Respects f) (rules : List Rule) :
    Handler.applyRules r (f d) rules = f (Handler.applyRules r d rules) := by
  induction rules generalizing d with
  | nil => rfl
  | cons rule rest ih =>
      have hrule := congrArg Evaluation.document (hr.evaluate (d := d) rule)
      unfold Handler.applyRules at ih ⊢
      rw [List.foldl_cons, List.foldl_cons, hrule]
      exact ih

end Registry.Respects

theorem Registry.builtin_respects_nameless : builtin.Respects Document.nameless :=
  ⟨Condition.check_nameless, Action.apply_nameless⟩

theorem Evaluation.sameOutcome_iff {e e' : Evaluation} :
    e.SameOutcome e' ↔ e'.mapDocument Document.nameless = e.mapDocument Document.nameless := by
  constructor
  · intro h
    rw [mapDocument, h.matched, h.trace, Document.sameIds_iff.mp h.document, mapDocument]
  · intro h
    have hdocument : e'.document.nameless = e.document.nameless := congrArg document h
    exact ⟨congrArg (fun x => x.matched) h, congrArg (fun x => x.trace) h,
      Document.sameIds_iff.mpr hdocument⟩

namespace Registry.Respects

variable {r : Registry} {d d' : Document}

/-- A rule has the same outcome on documents with the same ids. -/
theorem sameOutcome (hr : r.Respects Document.nameless) (h : d.SameIds d') (rule : Rule) :
    (r.evaluate rule d).SameOutcome (r.evaluate rule d') := by
  rw [Evaluation.sameOutcome_iff, ← hr.evaluate, ← hr.evaluate, Document.sameIds_iff.mp h]

theorem sameOutcomes (hr : r.Respects Document.nameless) (h : d.SameIds d')
    (rules : List Rule) : List.Forall₂ Evaluation.SameOutcome (r.evaluateAll d rules)
      (r.evaluateAll d' rules) := by
  induction rules generalizing d d' with
  | nil => exact .nil
  | cons rule rest ih =>
      have hrule := hr.sameOutcome h rule
      exact .cons hrule (ih hrule.document)

theorem sameIds_applyRules (hr : r.Respects Document.nameless) (h : d.SameIds d')
    (rules : List Rule) :
    (Handler.applyRules r d rules).SameIds (Handler.applyRules r d' rules) := by
  rw [Document.sameIds_iff, ← hr.applyRules, ← hr.applyRules, Document.sameIds_iff.mp h]

end Registry.Respects

namespace Registry

/-- The known conditions and actions look at the ids of entries only.  A rule, and each of
several rules carried out one after the other, matches or not, leaves its trace and changes
the document in the same way whatever the entries are called, and whether there are none or
none were loaded. -/
theorem evaluateAll_sameOutcome {d d' : Document} (h : d.SameIds d') :
    (∀ rule, (builtin.evaluate rule d).SameOutcome (builtin.evaluate rule d')) ∧
    ∀ rules, List.Forall₂ Evaluation.SameOutcome (builtin.evaluateAll d rules)
        (builtin.evaluateAll d' rules) ∧
      (Handler.applyRules builtin d rules).SameIds (Handler.applyRules builtin d' rules) :=
  ⟨builtin_respects_nameless.sameOutcome h, fun rules =>
    ⟨builtin_respects_nameless.sameOutcomes h rules,
      builtin_respects_nameless.sameIds_applyRules h rules⟩⟩

/-- A rule that takes away the entry that it asks for, after it has tried to attach it once
more. -/
def vendorRule : Rule where
  userId := 1
  name := "vendor"
  order := 0
  conditions := [{ id := 1, kind := .hasKeyValue, metadataKey := some 1, metadataValue := some 2 }]
  actions := [
    { id := 1, kind := .addEntry, metadataKey := some 1, metadataValue := some 2 },
    { id := 2, kind := .appendName, value := " (seen)" },
    { id := 3, kind := .removeEntry, metadataKey := some 1, metadataValue := some 2 }]

/-- The same entry with its names and without them: the rule matches once, and not again. -/
theorem evaluateAll_sameOutcome_vendor :
    let named : Document := { (default : Document) with metadata := some [⟨1, "vendor", 2, "ACME"⟩] }
    let bare : Document := { (default : Document) with metadata := some [⟨1, "", 2, ""⟩] }
    named.SameIds bare ∧ named ≠ bare ∧
    List.Forall₂ Evaluation.SameOutcome (builtin.evaluateAll named [vendorRule, vendorRule])
      (builtin.evaluateAll bare [vendorRule, vendorRule]) ∧
    (builtin.evaluateAll bare [vendorRule, vendorRule]).map (·.matched) = [true, false] := by
  intro named bare
  have hsame : named.SameIds bare := ⟨rfl, rfl⟩
  exact ⟨hsame, by decide, ((evaluateAll_sameOutcome hsame).2 _).1, by decide⟩

end Registry

end Docket
