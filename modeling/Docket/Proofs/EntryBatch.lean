import Docket.Proofs.Pulling
import Docket.Proofs.Transactions

/-!
Storing a document together with its entries.  Whatever the tables are, either everything is stored,
and then exactly the entries that were named are read back, or nothing is.
-/

namespace Docket

open Calendar (Instant)

/-! The order in which entries are read. -/

/-- Entries in the order of the texts of their keys, and where these are equal of their values. -/
def Entry.Precedes (a b : Entry) : Prop := a.key < b.key ∨ a.key = b.key ∧ a.value ≤ b.value

theorem Store.entryLe_iff {a b : Entry} : Store.entryLe a b = true ↔ a.Precedes b := by
  unfold Store.entryLe Entry.Precedes
  split
  · next heq =>
      rw [Bool.not_eq_true', decide_eq_false_iff_not, heq]
      have hirrefl : ¬ b.key < b.key := String.lt_irrefl _
      simp only [hirrefl, false_or, true_and]
      exact String.not_lt
  · next hne =>
      rw [decide_eq_true_iff]
      exact ⟨.inl, fun h => h.resolve_right fun heq => hne heq.1⟩

theorem Entry.Precedes.trans {a b c : Entry} (hab : a.Precedes b) (hbc : b.Precedes c) :
    a.Precedes c := by
  rcases hab with hab | ⟨hab, hvalues⟩
  · rcases hbc with hbc | ⟨hbc, -⟩
    · exact .inl (String.lt_trans hab hbc)
    · exact .inl (hbc ▸ hab)
  · rcases hbc with hbc | ⟨hbc, hmore⟩
    · exact .inl (hab ▸ hbc)
    · exact .inr ⟨hab.trans hbc, String.le_trans hvalues hmore⟩

theorem Entry.Precedes.total (a b : Entry) : a.Precedes b ∨ b.Precedes a := by
  by_cases hkeys : a.key = b.key
  · rcases String.le_total a.value b.value with h | h
    · exact .inl (.inr ⟨hkeys, h⟩)
    · exact .inr (.inr ⟨hkeys.symm, h⟩)
  · by_cases hless : a.key < b.key
    · exact .inl (.inl hless)
    · have hle : b.key ≤ a.key := String.not_lt.mp hless
      refine .inr (.inl ?_)
      by_contra hge
      exact hkeys (String.le_antisymm (String.not_lt.mp hge) hle)

/-! What is read of entries that were written. -/

namespace Store

/-- An entry has the texts that are found for its key and its value. -/
structure Spells (s : Store) (e : Entry) : Prop where
  key : (s.keys.find? (·.id = e.keyId)).map (·.key) = some e.key
  value : (s.values.find? (·.id = e.valueId)).map (·.value) = some e.value

/-- What is read of the entries of a document: some pairs, each once, with the texts of its key and
its value and in the order of these. -/
structure ReadsEntries (s : Store) (id : String) (pairs : List (Int × Int)) : Prop where
  distinct : ((s.documentEntries id).map Entry.ids).Nodup
  exact : ∀ pair, pair ∈ (s.documentEntries id).map Entry.ids ↔ pair ∈ pairs
  spelled : ∀ e ∈ s.documentEntries id, s.Spells e
  ordered : (s.documentEntries id).Pairwise Entry.Precedes

variable {s : Store} {id : String} {pairs : List (Int × Int)}

theorem spells_of_named {r : EntryRow} {e : Entry} (h : s.nameEntry? r = some e) : s.Spells e := by
  unfold nameEntry? at h
  obtain ⟨k, hk, h⟩ := Option.bind_eq_some_iff.mp h
  obtain ⟨v, hv, h⟩ := Option.bind_eq_some_iff.mp h
  cases h
  have hkey : k.id = r.keyId := by simpa using List.find?_some hk
  have hvalue : v.id = r.valueId := by simpa using List.find?_some hv
  rw [← hkey] at hk
  rw [← hvalue] at hv
  exact ⟨by rw [hk]; rfl, by rw [hv]; rfl⟩

theorem exists_named {pair : Int × Int} (id : String) (hpair : s.knowsPair pair = true) :
    ∃ e, s.nameEntry? ⟨id, pair.1, pair.2⟩ = some e := by
  obtain ⟨hkey, hvalue⟩ := Bool.and_eq_true_iff.mp hpair
  have hkey := List.find?_isSome.mpr (List.any_eq_true.mp hkey)
  have hvalue := List.find?_isSome.mpr (List.any_eq_true.mp hvalue)
  obtain ⟨k, hk⟩ := Option.isSome_iff_exists.mp hkey
  obtain ⟨v, hv⟩ := Option.isSome_iff_exists.mp hvalue
  exact ⟨_, nameEntry?_of_find? hk hv⟩

theorem documentEntries_ordered (s : Store) (id : String) :
    (s.documentEntries id).Pairwise Entry.Precedes := by
  refine (List.pairwise_mergeSort (fun a b c hab hbc => ?_) (fun a b => ?_) _).imp entryLe_iff.mp
  · exact entryLe_iff.mpr ((entryLe_iff.mp hab).trans (entryLe_iff.mp hbc))
  · rw [Bool.or_eq_true, entryLe_iff, entryLe_iff]
    exact Entry.Precedes.total a b

theorem mem_documentEntries {e : Entry} :
    e ∈ s.documentEntries id ↔ ∃ r ∈ s.entryRows id, s.nameEntry? r = some e := by
  rw [(s.documentEntries_perm id).mem_iff, List.mem_filterMap]

theorem entryRows_withEntries (s : Store) (id : String) (pairs : List (Int × Int)) :
    (s.withEntries id pairs).entryRows id =
      pairs.eraseDups.map fun pair => ⟨id, pair.1, pair.2⟩ := by
  rw [entryRows, withEntries, List.filter_append, List.filter_filter]
  have hothers : s.entries.filter (fun r => decide (r.documentId = id) && decide (r.documentId ≠ id)) =
      [] := by
    rw [List.filter_eq_nil_iff]
    intro r _
    grind
  have hown : (pairs.eraseDups.map fun pair => (⟨id, pair.1, pair.2⟩ : EntryRow)).filter
      (fun r => decide (r.documentId = id)) =
        pairs.eraseDups.map fun pair => ⟨id, pair.1, pair.2⟩ := by
    rw [List.filter_eq_self]
    intro r hr
    obtain ⟨pair, -, rfl⟩ := List.mem_map.mp hr
    exact decide_eq_true rfl
  rw [hothers, hown, List.nil_append]

theorem entryRows_withEntries_of_ne {i : String} (hi : i ≠ id) :
    (s.withEntries id pairs).entryRows i = s.entryRows i := by
  rw [entryRows, withEntries, List.filter_append, List.filter_filter]
  have hown : (pairs.eraseDups.map fun pair => (⟨id, pair.1, pair.2⟩ : EntryRow)).filter
      (fun r => decide (r.documentId = i)) = [] := by
    rw [List.filter_eq_nil_iff]
    intro r hr
    obtain ⟨pair, -, rfl⟩ := List.mem_map.mp hr
    exact fun heq => hi (of_decide_eq_true heq).symm
  rw [hown, List.append_nil, entryRows]
  refine List.filter_congr fun r _ => ?_
  grind

/-- Entries that were written are read, each once. -/
theorem readsEntries_withEntries (hpairs : ∀ pair ∈ pairs, s.knowsPair pair = true) :
    (s.withEntries id pairs).ReadsEntries id pairs where
  distinct := by
    refine nodup_documentEntries ?_
    rw [entryRows_withEntries]
    refine (Pool.nodup_eraseDups pairs).map fun p q heq => ?_
    exact Prod.ext (congrArg EntryRow.keyId heq) (congrArg EntryRow.valueId heq)
  exact pair := by
    simp only [List.mem_map, mem_documentEntries, entryRows_withEntries, List.mem_eraseDups]
    constructor
    · rintro ⟨e, ⟨r, ⟨pair, hpair, rfl⟩, hnamed⟩, rfl⟩
      rw [ids_of_named hnamed]
      exact hpair
    · intro hpair
      obtain ⟨e, hnamed⟩ := exists_named id (hpairs pair hpair)
      exact ⟨e, ⟨_, ⟨pair, hpair, rfl⟩, hnamed⟩, ids_of_named hnamed⟩
  spelled e he := by
    obtain ⟨r, -, hnamed⟩ := mem_documentEntries.mp he
    exact spells_of_named hnamed
  ordered := documentEntries_ordered _ _

theorem documentEntries_withEntries_of_ne {i : String} (hi : i ≠ id) :
    (s.withEntries id pairs).documentEntries i = s.documentEntries i := by
  have hrows : (s.withEntries id pairs).entryRows i = s.entryRows i :=
    entryRows_withEntries_of_ne hi
  unfold entryRows at hrows
  unfold documentEntries
  rw [hrows]
  rfl

/-! All or nothing. -/

/-- What is stored of a document beside its entries and its row is left as it was. -/
structure LeavesRest (s s' : Store) (id : String) : Prop where
  rows : ∀ i, i ≠ id → s'.documentRow? i = s.documentRow? i
  entries : ∀ i, i ≠ id → s'.documentEntries i = s.documentEntries i
  tables : s' = { s with documents := s'.documents, entries := s'.entries }

theorem leavesRest_withEntries (s : Store) (id : String) (pairs : List (Int × Int)) :
    s.LeavesRest (s.withEntries id pairs) id where
  rows _ _ := rfl
  entries _ hi := documentEntries_withEntries_of_ne hi
  tables := rfl

theorem leavesRest_updateDocument (s : Store) (d : Document) (now : Instant) :
    s.LeavesRest (s.updateDocument d now).2 d.id where
  rows _ hi := documentRow?_perform (c := .update d now) rfl hi
  entries _ _ := rfl
  tables := rfl

theorem LeavesRest.trans {s s₁ s₂ : Store} {id : String} (h₁ : s.LeavesRest s₁ id)
    (h₂ : s₁.LeavesRest s₂ id) : s.LeavesRest s₂ id where
  rows i hi := (h₂.rows i hi).trans (h₁.rows i hi)
  entries i hi := (h₂.entries i hi).trans (h₁.entries i hi)
  tables := by
    rw [h₂.tables, h₁.tables]

/-- The row of a document that was updated has all its fields but the owner and the time of its
creation. -/
theorem documentRow?_updateDocument {d : Document} {now : Instant} {old : DocumentRow}
    (hold : s.documentRow? d.id = some old) :
    (s.updateDocument d now).2.documentRow? d.id =
      some { DocumentRow.ofDocument d with
        userId := old.userId, createdAt := old.createdAt, updatedAt := now.toMicrosText } := by
  have hid : old.id = d.id := id_of_documentRow? hold
  rw [updateDocument, documentRow?_changeDocument (f := (·.withFieldsOf d now)) fun _ => rfl, hold,
    Option.map_some, if_pos hid, DocumentRow.withFieldsOf, hid]
  rfl

/-- The entries of a document that is there are replaced by some pairs if their keys and values are
all known, and else not at all, wherever the first stands that is not. -/
theorem replaceEntries_cases (hdoc : s.hasDocument id = true) (pairs : List (Int × Int)) :
    ((∀ pair ∈ pairs, s.knowsPair pair = true) ∧ s.replaceEntries id pairs =
        .ok (s.withEntries id pairs) ∧
      s.transact (entryStatements id pairs) = (s.withEntries id pairs, .ok ())) ∨
    (∃ pair ∈ pairs, s.knowsPair pair = false) ∧
      s.replaceEntries id pairs = .error .brokenReference ∧
      s.transact (entryStatements id pairs) = (s, .error .brokenReference) := by
  have hreplace := replaceEntries_eq hdoc pairs
  have htransact := transact_entries_eq hdoc pairs
  by_cases hknown : ∀ pair ∈ pairs, s.knowsPair pair = true
  · rw [if_pos (List.all_eq_true.mpr hknown)] at hreplace
    rw [hreplace] at htransact
    exact .inl ⟨hknown, hreplace, htransact⟩
  · rw [if_neg (mt List.all_eq_true.mp hknown)] at hreplace
    rw [hreplace] at htransact
    exact .inr ⟨by simpa using hknown, hreplace, htransact⟩

/-- A document is stored with its entries: then its row has its fields, and exactly the pairs that
were named are read as its entries.  Or it is not there, or a key or a value of a pair is unknown,
wherever the pair stands, and nothing is changed; this is also what becomes of the statements that
write row by row.  The same holds where the entries of a document that is there are replaced. -/
theorem updateWithEntries_all_or_nothing (s : Store) (d : Document) (pairs : List (Int × Int))
    (now : Instant) :
    ((s.hasDocument d.id = true ∧ (∀ pair ∈ pairs, s.knowsPair pair = true) ∧
        ∃ s' old, s.updateWithEntries d pairs now = .ok (true, s') ∧
          s.storeBatch d pairs now = (s', .ok true) ∧
          s.documentRow? d.id = some old ∧
          s'.documentRow? d.id = some { DocumentRow.ofDocument d with
            userId := old.userId, createdAt := old.createdAt, updatedAt := now.toMicrosText } ∧
          s'.ReadsEntries d.id pairs ∧ s.LeavesRest s' d.id) ∨
      (s.hasDocument d.id = false ∧ s.updateWithEntries d pairs now = .ok (false, s) ∧
        s.storeBatch d pairs now = (s, .ok false)) ∨
      (s.hasDocument d.id = true ∧ (∃ pair ∈ pairs, s.knowsPair pair = false) ∧
        s.updateWithEntries d pairs now = .error .brokenReference ∧
        s.storeBatch d pairs now = (s, .error .brokenReference))) ∧
    ∀ id, s.hasDocument id = true →
      ((∀ pair ∈ pairs, s.knowsPair pair = true) ∧
        ∃ s', s.replaceEntries id pairs = .ok s' ∧
          s.transact (entryStatements id pairs) = (s', .ok ()) ∧
          s'.documents = s.documents ∧ s'.ReadsEntries id pairs ∧ s.LeavesRest s' id) ∨
      ((∃ pair ∈ pairs, s.knowsPair pair = false) ∧
        s.replaceEntries id pairs = .error .brokenReference ∧
        s.transact (entryStatements id pairs) = (s, .error .brokenReference)) := by
  constructor
  · have hbatch := s.storeBatch_eq d pairs now
    cases hdoc : s.hasDocument d.id with
    | false =>
        have hupdate : s.updateDocument d now = (false, (s.updateDocument d now).2) :=
          Prod.ext hdoc rfl
        have hfalse : s.updateWithEntries d pairs now = .ok (false, s) := by
          rw [updateWithEntries, hupdate]
        rw [hfalse] at hbatch
        exact .inr (.inl ⟨rfl, hfalse, hbatch⟩)
    | true =>
        have hupdate : s.updateDocument d now = (true, (s.updateDocument d now).2) :=
          Prod.ext hdoc rfl
        have hthere : (s.updateDocument d now).2.hasDocument d.id = true := hdoc ▸
          hasDocument_changeDocument (f := (·.withFieldsOf d now)) (fun _ => rfl) d.id
        rcases replaceEntries_cases hthere pairs with ⟨hknown, hok, -⟩ | ⟨hunknown, herror, -⟩
        · have hstored : s.updateWithEntries d pairs now =
              .ok (true, (s.updateDocument d now).2.withEntries d.id pairs) := by
            rw [updateWithEntries, hupdate]
            simp only
            rw [hok]
            rfl
          rw [hstored] at hbatch
          obtain ⟨old, hold⟩ : ∃ old, s.documentRow? d.id = some old := by
            rw [← Option.ne_none_iff_exists', Ne, documentRow?_eq_none, hdoc]
            decide
          exact .inl ⟨rfl, hknown, _, old, hstored, hbatch, hold,
            documentRow?_updateDocument hold, readsEntries_withEntries hknown,
            (leavesRest_updateDocument s d now).trans (leavesRest_withEntries _ _ _)⟩
        · have hfails : s.updateWithEntries d pairs now = .error .brokenReference := by
            rw [updateWithEntries, hupdate]
            simp only
            rw [herror]
            rfl
          rw [hfails] at hbatch
          exact .inr (.inr ⟨rfl, hunknown, hfails, hbatch⟩)
  · intro id hdoc
    rcases replaceEntries_cases hdoc pairs with ⟨hknown, hok, htransact⟩ | hfails
    · exact .inl ⟨hknown, _, hok, htransact, rfl, readsEntries_withEntries hknown,
        leavesRest_withEntries s id pairs⟩
    · exact .inr hfails

/-- A store with a document, a key and a value. -/
def labelled : Store where
  documents := [.ofDocument .stray]
  keys := [⟨1, 0, "vendor"⟩]
  values := [⟨1, 1, "acme", false, "exact", ""⟩]

/-- A pair of an unknown value between two that are known leaves the store as it was, and without it
the pair that is named twice is read once. -/
theorem updateWithEntries_all_or_nothing_labelled :
    labelled.storeBatch .stray [(1, 1), (1, 2), (1, 1)] default =
        (labelled, .error .brokenReference) ∧
      labelled.hasDocument "d" = true ∧
      ∃ s', labelled.replaceEntries "d" [(1, 1), (1, 1)] = .ok s' ∧
        (s'.documentEntries "d").map Entry.ids = [(1, 1)] := by
  refine ⟨?_, rfl, ?_⟩
  · obtain ⟨⟨-, hknown, -⟩ | ⟨hmissing, -⟩ | ⟨-, -, -, hbatch⟩, -⟩ :=
      updateWithEntries_all_or_nothing labelled .stray [(1, 1), (1, 2), (1, 1)] default
    · exact absurd (hknown (1, 2) (by simp)) (by decide)
    · cases hmissing
    · exact hbatch
  · obtain ⟨-, hreplace⟩ :=
      updateWithEntries_all_or_nothing labelled .stray [(1, 1), (1, 1)] default
    rcases hreplace "d" rfl with ⟨-, s', hok, -, -, hreads, -⟩ | ⟨⟨pair, hpair, hunknown⟩, -⟩
    · refine ⟨s', hok, ?_⟩
      refine List.perm_singleton.mp ((List.perm_ext_iff_of_nodup hreads.distinct (by simp)).mpr ?_)
      intro pair
      rw [hreads.exact]
      simp
    · obtain rfl : pair = (1, 1) := by simpa using hpair
      cases hunknown

end Store

end Docket
