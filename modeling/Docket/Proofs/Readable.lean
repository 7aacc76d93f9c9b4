import Docket.Proofs.Actions
import Docket.Proofs.Timestamps
import Docket.Proofs.Publishing

/-!
What is read back of a document whose rules were applied.  The step stores the date that the
rules have left as a text; where its year has four digits, the document is read back as it was
stored, and else it cannot be read any more.
-/

namespace Docket

open Docket.Calendar (Instant)

/-- Nobody else writes to the store. -/
def Surroundings.Alone (s : Surroundings) : Prop := ∀ past st, s.others past st = st

/-! Calls that have succeeded. -/

namespace Act

variable {α : Type} {s : Surroundings} {c : StoreCall} {w w' : World} {desk desk' : Desk}

theorem ask_ok (halone : s.Alone) (hasks : ∀ now st, c.perform now st = .ok st)
    {run : Store → Except StoreError α} {a : α} (h : Act.ask c run s w = (.ok a, w')) :
    run w.store = .ok a ∧ w'.store = w.store := by
  obtain ⟨hrun, -, hstore⟩ := ask_eq_ok hasks h
  rw [halone] at hrun hstore
  exact ⟨hrun, hstore⟩

theorem tell_ok (halone : s.Alone) (h : Act.tell c s w = (.ok (), w')) :
    c.perform (s.clock w.moments) w.store = .ok w'.store := by
  obtain ⟨-, -, hperform⟩ := tell_eq_ok h
  rwa [halone] at hperform

end Act

/-- A step of the rules that has succeeded has stored what they made of the copy. -/
theorem Handler.rules_ok {s : Surroundings} {desk desk' : Desk} (halone : s.Alone)
    (hrun : Handler.rules s desk = (.ok (), desk')) :
    ∃ rules values past, desk.world.store.activeRules desk.copy.userId = .ok rules ∧
      desk'.copy = desk.copy.ruled s.registry (desk.world.store.documentEntries desk.copy.id)
        values rules ∧
      (StoreCall.updateWithEntries desk'.copy).perform (s.clock past) desk.world.store =
        .ok desk'.world.store := by
  have hsurroundings : Act.surroundings s desk = (.ok s, desk) := rfl
  have hcopy : Act.copy s desk = (.ok desk.copy, desk) := rfl
  unfold Handler.rules at hrun
  rw [Act.bind_of_ok hsurroundings, Act.bind_of_ok hcopy] at hrun
  obtain ⟨rules, desk₁, hask₁, hrun⟩ := Act.exists_of_bind_ok hrun
  obtain ⟨entries, desk₂, hask₂, hrun⟩ := Act.exists_of_bind_ok hrun
  obtain ⟨values, desk₃, hask₃, hrun⟩ := Act.exists_of_bind_ok hrun
  obtain ⟨_, desk₄, htell, hrun⟩ := Act.exists_of_bind_ok hrun
  obtain ⟨w₁, hasked₁, rfl⟩ := Act.onWorld_ok hask₁
  obtain ⟨w₂, hasked₂, rfl⟩ := Act.onWorld_ok hask₂
  obtain ⟨w₃, hasked₃, rfl⟩ := Act.onWorld_ok hask₃
  obtain ⟨w₄, htold, rfl⟩ := Act.onWorld_ok htell
  obtain ⟨hrules, hstore₁⟩ := Act.ask_ok halone (fun _ _ => rfl) hasked₁
  obtain ⟨hentries, hstore₂⟩ := Act.ask_ok halone (fun _ _ => rfl) hasked₂
  obtain ⟨hvalues, hstore₃⟩ := Act.ask_ok halone (fun _ _ => rfl) hasked₃
  have hstored := Act.tell_ok halone htold
  dsimp only at hstored
  rw [hstore₃, hstore₂, hstore₁] at hstored
  rw [hstore₁] at hentries
  cases hentries
  cases hrun
  exact ⟨rules, values, _, hrules, rfl, hstored⟩

/-! What rules make of a date. -/

/-- A date that an enabled action of some rules sets. -/
def DateSet (rules : List Rule) (t : Instant) : Prop :=
  ∃ rule ∈ rules, ∃ a ∈ rule.actions, a.enabled = true ∧ a.kind = .setDate ∧
    ∃ date, readDate a.value defaultDateFormat = .ok date ∧ t = Instant.midnight date

theorem Action.date_of_apply {a : Action} {d d' : Document} (h : a.apply d = .ok d') :
    d'.date = d.date ∨ a.kind = .setDate ∧
      ∃ date, readDate a.value defaultDateFormat = .ok date ∧ d'.date = Instant.midnight date := by
  unfold Action.apply at h
  cases hkind : a.kind <;> rw [hkind] at h
  case setDate =>
    obtain ⟨date, hdate, h⟩ := exists_of_bind_ok h
    cases h
    exact .inr ⟨rfl, date, hdate, rfl⟩
  case addEntry =>
    obtain ⟨⟨k, v⟩, -, h⟩ := exists_of_bind_ok h
    cases h
    left
    unfold Document.addEntry
    split <;> rfl
  case removeEntry =>
    obtain ⟨⟨k, v⟩, -, h⟩ := exists_of_bind_ok h
    cases h
    exact .inl rfl
  all_goals
    cases h
    exact .inl rfl

theorem Document.ruled_induction {P : Document → Prop} {d : Document} {r : Registry}
    {entries : List Entry} {values : List AutoMatchValue} {rules : List Rule}
    (hd : P { d with metadata := some entries }) (hadd : ∀ d e, P d → P (d.addEntry e))
    (happly : ∀ rule ∈ rules, ∀ a ∈ rule.actions, a.enabled = true → ∀ d d', P d →
      r.apply a d = .ok d' → P d') : P (d.ruled r entries values rules) :=
  Handler.applyRules_induction happly _ (autoMatch_induction (fun _ _ d h => hadd d _ h) hd)

section

variable {d : Document} {r : Registry} {entries : List Entry} {values : List AutoMatchValue}
  {rules : List Rule}

theorem Document.sameOrigin_ruled (hr : r.ActsBuiltin) :
    d.SameOrigin (d.ruled r entries values rules) := by
  apply ruled_induction
  · exact ⟨rfl, rfl, rfl, rfl, rfl⟩
  · exact fun d' e h => h.trans (d'.sameOrigin_addEntry e)
  · intro rule _ a _ _ d₁ d₂ hd₁ happly
    exact hd₁.trans (Action.apply_cases (hr.apply_ok happly)).1

/-- After the rules a document has its own date, or one that a rule sets. -/
theorem Document.date_ruled (hr : r.ActsBuiltin) :
    (d.ruled r entries values rules).date = d.date ∨
      DateSet rules (d.ruled r entries values rules).date := by
  apply ruled_induction (P := fun d' => d'.date = d.date ∨ DateSet rules d'.date)
  · exact .inl rfl
  · intro d' e h
    unfold addEntry
    split <;> exact h
  · intro rule hrule a ha henabled d₁ d₂ hd₁ happly
    rcases Action.date_of_apply (hr.apply_ok happly) with hsame | ⟨hkind, date, hdate, hset⟩
    · rwa [hsame]
    · exact .inr ⟨rule, hrule, a, ha, henabled, hkind, date, hdate, hset⟩

end

/-! Reading back what was stored. -/

/-- What is read back of a document that was stored at some time. -/
def Document.readBack (d : Document) (now : Instant) : Except StoreError Document :=
  if d.date.HasPlainYear then
    if now.HasPlainYear then
      .ok { d with date := d.date.truncate, metadata := none, tags := none,
                   updatedAt := now.truncate }
    else .error (.unreadable 13 none)
  else .error (.unreadable 9 none)

theorem DocumentRow.read_withFieldsOf {r : DocumentRow} {d d' : Document}
    (hread : r.read = .ok d) (hsame : d.SameOrigin d') (now : Instant) :
    (r.withFieldsOf d' now).read = d'.readBack now := by
  obtain ⟨hshows, -, -, -⟩ := shows_of_read hread
  have hid : r.id = d'.id := by
    rw [hshows.fields, hsame.id]
    rfl
  have huser : r.userId = d'.userId := by
    rw [hshows.fields, hsame.userId]
    rfl
  have hcreated := hshows.createdAt
  rw [← hsame.createdAt] at hcreated
  have hstatus : readNamed 11 DocumentStatus.ofName? DocumentStatus.unknownMessage
      d'.status.name = .ok d'.status := by
    unfold readNamed
    rw [DocumentStatus.ofName?_name]
  unfold DocumentRow.read Document.readBack
  simp only [withFieldsOf, ofDocument, readMoment_toMicrosText, hstatus, hcreated, hid, huser]
  by_cases hdate : d'.date.HasPlainYear
  · by_cases hnow : now.HasPlainYear
    · simp only [hdate, hnow, if_true]
      rfl
    · simp only [hdate, hnow, if_true, if_false]
      rfl
  · simp only [hdate, if_false]
    rfl

theorem Store.getDocument_of_row {st : Store} {id : String} {r : DocumentRow}
    (hrow : st.documentRow? id = some r) : st.getDocument id = r.read := by
  unfold getDocument findDocument
  rw [hrow]
  cases hread : r.read with
  | error e => simp only [hread]; rfl
  | ok d => simp only [hread]; rfl

/-- A document that was stored with its entries is read back from the row that it had. -/
theorem Store.getDocument_of_stored {st st' : Store} {d d' : Document} {id : String}
    {now : Instant} (hread : st.getDocument id = .ok d) (hsame : d.SameOrigin d')
    (hstored : (StoreCall.updateWithEntries d').perform now st = .ok st') :
    st'.getDocument id = d'.readBack now := by
  obtain ⟨row, hrow, hrowRead⟩ := Pass.row_of_getDocument hread
  obtain ⟨⟨stored, st''⟩, hupdated, hthere⟩ := exists_of_bind_ok hstored
  obtain ⟨rfl, rfl⟩ := orNoDocument_ok hthere
  obtain ⟨-, rfl⟩ := updateWithEntries_true hupdated
  have hid : row.id = d'.id := by
    rw [hsame.id]
    exact (Pass.status_of_read hrowRead).1.symm
  have hrow' : (st.updateDocument d' now).2.documentRow? id = some (row.withFieldsOf d' now) := by
    unfold updateDocument
    rw [documentRow?_changeDocument (f := (·.withFieldsOf d' now)) fun _ => rfl, hrow,
      Option.map_some, if_pos hid]
  rw [← DocumentRow.read_withFieldsOf hrowRead hsame now]
  exact getDocument_of_row hrow'

/-- After a step of the rules that has succeeded, the document is read back as it was stored,
if the years of its date and of the time are written without a sign, and else not at all.
The date is the one that it had, or one that a rule sets. -/
theorem Handler.rules_readBack {s : Surroundings} {desk desk' : Desk} (halone : s.Alone)
    (hr : s.registry.ActsBuiltin)
    (hread : desk.world.store.getDocument desk.copy.id = .ok desk.copy)
    (hrun : Handler.rules s desk = (.ok (), desk')) :
    ∃ rules past, desk.world.store.activeRules desk.copy.userId = .ok rules ∧
      (desk'.copy.date = desk.copy.date ∨ DateSet rules desk'.copy.date) ∧
      (desk'.copy.date.HasPlainYear → (s.clock past).HasPlainYear →
        desk'.world.store.getDocument desk.copy.id =
          .ok { desk'.copy with date := desk'.copy.date.truncate, metadata := none, tags := none,
                                updatedAt := (s.clock past).truncate }) ∧
      (¬ desk'.copy.date.HasPlainYear →
        desk'.world.store.getDocument desk.copy.id = .error (.unreadable 9 none)) ∧
      (desk'.copy.date.HasPlainYear → ¬ (s.clock past).HasPlainYear →
        desk'.world.store.getDocument desk.copy.id = .error (.unreadable 13 none)) := by
  obtain ⟨rules, values, past, hrules, hcopy, hstored⟩ := Handler.rules_ok halone hrun
  have hsame : desk.copy.SameOrigin desk'.copy := hcopy ▸ Document.sameOrigin_ruled hr
  have hback := Store.getDocument_of_stored hread hsame hstored
  unfold Document.readBack at hback
  refine ⟨rules, past, hrules, ?_, ?_, ?_, ?_⟩
  · rw [hcopy]
    exact Document.date_ruled hr
  · intro hdate hnow
    rwa [if_pos hdate, if_pos hnow] at hback
  · intro hdate
    rwa [if_neg hdate] at hback
  · intro hdate hnow
    rwa [if_pos hdate, if_neg hnow] at hback

/-! A rule that sets a date. -/

/-- A rule that sets the date that a text spells. -/
def Rule.dated (value : String) : Rule where
  id := 1
  userId := 0
  name := "dated"
  order := 0
  actions := [{ id := 1, kind := .setDate, value }]

/-- A store with one document. -/
def Store.strayAlone : Store := { documents := [.ofDocument .stray] }

/-- The store after a rule was saved for the owner of the document. -/
def Store.dated (value : String) : Store :=
  { Store.strayAlone with
    rules := [.ofRule 1 (.dated value)]
    actions := [⟨1, 1, 0, "date_set", value, true, true, none, none⟩]
    lastRule := 1
    lastAction := 1 }

/-- The document at the step of its rules. -/
def Desk.dated (value : String) : Desk where
  world := { store := .dated value, files := .empty }
  copy := .stray

theorem Store.activeRules_dated (value : String) :
    (Store.dated value).activeRules 0 = .ok [.dated value] := by
  refine activeRules_of_single (r := .ofRule 1 (.dated value)) rfl rfl ?_ ?_
  · exact congrArg (List.mapM ConditionRow.read) List.mergeSort_nil
  · exact congrArg (List.mapM ActionRow.read) (List.mergeSort_singleton _)

theorem Store.autoMatchValues_of_nil {st : Store} (h : st.values = []) (userId : Int) :
    st.autoMatchValues userId = .ok [] := by
  unfold autoMatchValues
  rw [h]
  exact congrArg (List.mapM _) List.mergeSort_nil

section

variable {value : String} {date : Calendar.Date}

theorem Store.insertRule_dated (hdate : readDate value defaultDateFormat = .ok date) :
    Store.strayAlone.insertRule (.dated value) = .ok (1, Store.dated value) := by
  have hvalid : (Rule.dated value).validate = .ok () := by
    simp [Rule.validate, Rule.dated, Action.validate, hdate]
    rfl
  unfold insertRule
  rw [hvalid]
  rfl

theorem Document.ruled_dated (hdate : readDate value defaultDateFormat = .ok date) :
    Document.stray.ruled .builtin [] [] [.dated value] =
      { Document.stray with metadata := some [], date := Instant.midnight date } := by
  have happly : ∀ d : Document,
      Registry.builtin.apply { id := 1, kind := .setDate, value := value } d =
        .ok { d with date := Instant.midnight date } := by
    intro d
    simp only [Registry.apply, Registry.builtin, Action.apply, hdate]
    rfl
  change (Registry.builtin.evaluate (.dated value) _).document = _
  rw [Registry.evaluate_document_eq]
  change Registry.attempt _ _ _ = _
  unfold Registry.attempt
  rw [happly]
  rfl

/-- The step of the rules succeeds where a rule sets a date. -/
theorem Handler.rules_dated (hdate : readDate value defaultDateFormat = .ok date) :
    ∃ desk' now, Handler.rules .bare (.dated value) = (.ok (), desk') ∧
      desk'.copy.date = Instant.midnight date ∧
      Document.stray.SameOrigin desk'.copy ∧
      (StoreCall.updateWithEntries desk'.copy).perform now (Store.dated value) =
        .ok desk'.world.store := by
  have hentries : (Store.dated value).documentEntries "d" = [] :=
    ((Store.dated value).documentEntries_perm "d").eq_nil
  have hvalues : (Store.dated value).autoMatchValues 0 = .ok [] :=
    Store.autoMatchValues_of_nil rfl 0
  have hruled :
      Document.stray.ruled .builtin ((Store.dated value).documentEntries "d") [] [.dated value] =
        { Document.stray with metadata := some [], date := Instant.midnight date } := by
    rw [hentries]
    exact Document.ruled_dated hdate
  obtain ⟨desk', now, hrun, hcopy, hstored⟩ := Handler.rules_of_quiet Pass.bare_quiet
    (.dated value) (Store.activeRules_dated value) hvalues hruled fun _ => ⟨_, rfl⟩
  refine ⟨desk', now, hrun, ?_, ?_, ?_⟩
  · rw [hcopy]
  · rw [hcopy]
    exact ⟨rfl, rfl, rfl, rfl, rfl⟩
  · rw [hcopy]
    exact hstored

end

theorem readDate_leapDay : readDate "2024-02-29" defaultDateFormat =
    .ok ⟨2024, 2, 29, by decide, by decide, by decide, by decide, by decide, by decide⟩ := by
  rfl

theorem readDate_late : readDate "+10000-01-01" defaultDateFormat =
    .ok ⟨10000, 1, 1, by decide, by decide, by decide, by decide, by decide, by decide⟩ := by
  rfl

/-- A document whose rule sets its date to a leap day is read back with that date. -/
theorem Handler.rules_readBack_leapDay : ∃ desk' read,
    Handler.rules .bare (.dated "2024-02-29") = (.ok (), desk') ∧
      desk'.world.store.getDocument "d" = .ok read ∧
      read.date = desk'.copy.date := by
  obtain ⟨desk', now, hrun, hdate, -, -⟩ := Handler.rules_dated readDate_leapDay
  obtain ⟨rules, past, -, -, hback, -, -⟩ := Handler.rules_readBack
    (fun _ _ => rfl) Pass.builtin_actsBuiltin rfl hrun
  have hclock : (Surroundings.bare.clock past).HasPlainYear :=
    show (default : Instant).HasPlainYear by decide
  refine ⟨desk', _, hrun, hback ?_ hclock, ?_⟩
  · rw [hdate]
    decide
  · rw [hdate]
    rfl

/-- A rule that sets a date of the year 10000 is saved, but once its step has succeeded the
document cannot be read any more. -/
theorem Handler.rules_unreadable_late :
    Store.strayAlone.insertRule (.dated "+10000-01-01") = .ok (1, Store.dated "+10000-01-01") ∧
    (Store.dated "+10000-01-01").getDocument "d" = .ok .stray ∧
    ∃ desk', Handler.rules .bare (.dated "+10000-01-01") = (.ok (), desk') ∧
      desk'.world.store.getDocument "d" = .error (.unreadable 9 none) := by
  obtain ⟨desk', now, hrun, hdate, hsame, hstored⟩ := Handler.rules_dated readDate_late
  refine ⟨Store.insertRule_dated readDate_late, rfl, desk', hrun, ?_⟩
  have hlate : ¬ desk'.copy.date.HasPlainYear := by
    rw [hdate]
    decide
  have hread : (Store.dated "+10000-01-01").getDocument "d" = .ok .stray := rfl
  have hback := Store.getDocument_of_stored hread hsame hstored
  unfold Document.readBack at hback
  rwa [if_neg hlate] at hback

end Docket
